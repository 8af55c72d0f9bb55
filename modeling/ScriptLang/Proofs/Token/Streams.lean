import Mathlib.Data.Stream.Init
import ScriptLang.Proofs.Token.Positions

/-!
# Streams of tokens

A text gives a token each time that one is pulled, and never stops. The stream of its tokens is a run
of tokens in front of the end, as long as something is left to be cut, and then the end token for ever,
with one report in between if a string is never closed. `Cursor.Reads.results` splits the run off, and
`Cursor.results_of_ended` tells what follows. The iterator and the list of tokens are the front of the
same stream.
-/

namespace ScriptLang

open Stream'

section Fixed

variable {σ β : Type}

/-- A machine that does not move gives the same for ever. -/
theorem corec'_of_fixed {step : σ → β × σ} {state : σ} (fixed : (step state).2 = state) :
    corec' step state = const (step state).1 := by
  ext calls
  induction calls with
  | zero => rfl
  | succ calls ih => rw [corec'_eq, fixed, get_succ_cons, ih, get_const, get_const]

end Fixed

/-- The token at the end of a text. -/
def Token.endOf (text : String) : Token :=
  ⟨.eof, Token.eofText, ⟨Position.counted text.toList, text.utf8ByteSize⟩⟩

namespace Cursor

/-- What pulling tokens from the cursor gives, one call after the other. -/
def results (cursor : Cursor) : Stream' (Except LexError Token) :=
  corec' next cursor

/-- The next call gives the end token or a report. -/
def Ended (cursor : Cursor) : Prop :=
  ∀ token, cursor.next.1 = .ok token → token.kind = .eof

variable {text : String} {cursor middle behind : Cursor} {token : Token} {tokens : List Token}

/-- The results of a cursor are its next result and those of the cursor behind it. -/
theorem results_eq (cursor : Cursor) : cursor.results = cursor.next.1 :: cursor.next.2.results :=
  corec'_eq _ _

/-- Tokens are cut off up to the end of the text or a string that is never closed. -/
theorem exists_reads (cursor : Cursor) :
    ∃ tokens middle, Reads cursor tokens middle ∧ middle.Ended := by
  cases collected : cursor.tokens with
  | error error =>
    obtain ⟨tokens, middle, reads, stuck⟩ := tokens_eq_error_iff.1 ⟨error, collected⟩
    obtain ⟨error, behind, refused⟩ := next_of_atOpenQuote stuck
    refine ⟨tokens, middle, reads, fun token given => ?_⟩
    rw [refused] at given
    cases given
  | ok all =>
    obtain ⟨tokens, last, middle, behind, -, reads, cuts, ends⟩ := tokens_eq_ok_iff.1 collected
    refine ⟨tokens, middle, reads, fun token given => ?_⟩
    rw [next_of_cuts cuts] at given
    cases given
    exact ends

/-- The tokens that a scan cuts off are the front of the stream. -/
theorem Reads.results (reads : Reads cursor tokens middle) :
    cursor.results = tokens.map .ok ++ₛ middle.results := by
  induction reads with
  | nil => rfl
  | cons cuts _ _ ih => rw [results_eq, next_of_cuts cuts, ih, List.map_cons, cons_append_stream]

/-- They are the front of the list of tokens. -/
theorem Reads.tokens_eq (reads : Reads cursor tokens middle) :
    cursor.tokens = middle.tokens.map (tokens ++ ·) := by
  induction reads with
  | nil => cases Cursor.tokens _ <;> rfl
  | cons cuts more _ ih =>
    rw [tokens_of_cuts cuts, if_neg more, ih]
    cases Cursor.tokens _ <;> rfl

/-- Each token uses a character up. -/
theorem Reads.length_le (reads : Reads cursor tokens middle) :
    tokens.length + middle.rest.length ≤ cursor.rest.length := by
  induction reads with
  | nil => simp
  | cons cuts more _ ih =>
    have shorter := next_shorter (next_of_cuts cuts) more
    rw [List.length_cons]
    omega

/-- A cursor that reads tokens of a text stands behind a part of the text. -/
theorem Reads.standsBehind {before : List Char} (reads : Reads cursor tokens middle)
    (stands : cursor.StandsBehind text before) : ∃ before, middle.StandsBehind text before := by
  induction reads generalizing before with
  | nil => exact ⟨before, stands⟩
  | cons cuts _ _ ih =>
    obtain ⟨before', stands'⟩ := stands.next
    rw [next_of_cuts cuts] at stands'
    exact ih stands'

/-- Where nothing is left to be read the cursor stands behind the text. -/
theorem StandsBehind.position_eq {before : List Char} (stands : cursor.StandsBehind text before)
    (nothing : cursor.rest = []) : cursor.position = Position.counted text.toList := by
  rw [stands.position, stands.split, nothing, List.append_nil]

/-- At the end of a text the offset is the number of its bytes. -/
theorem offset_counted_toList (text : String) :
    (Position.counted text.toList).offset = text.utf8ByteSize :=
  congrArg String.utf8ByteSize String.ofList_toList

/-- At the end of a text its end token is given, and the cursor stays where it is. -/
theorem next_of_rest_eq_nil {before : List Char} (stands : cursor.StandsBehind text before)
    (nothing : cursor.rest = []) : cursor.next = (.ok (Token.endOf text), cursor) := by
  have place := stands.position_eq nothing
  obtain ⟨rest, position⟩ := cursor
  cases nothing
  cases place
  rw [Token.endOf, ← offset_counted_toList]
  rfl

/-- The end token names the place behind the text. -/
theorem eq_endOf {before : List Char} (stands : cursor.StandsBehind text before)
    (given : cursor.next.1 = .ok token) (ends : token.kind = .eof) : token = Token.endOf text := by
  have cuts : Cuts cursor token cursor.next.2 := cuts_of_next (Prod.ext given rfl)
  obtain ⟨before', stands'⟩ := stands.next
  generalize cursor.next.2 = behind at cuts stands'
  obtain ⟨-, wrote⟩ := cuts
  cases ends
  cases wrote
  rename_i position gap
  have place : position.advance gap = Position.counted text.toList := stands'.position_eq rfl
  rw [Position.advance_nil, Token.endOf, ← offset_counted_toList, place]

/-- What is given behind the tokens of a text: the end token or a report, and then the end token for
ever. -/
theorem results_of_ended {before : List Char} (stands : cursor.StandsBehind text before)
    (ended : cursor.Ended) : cursor.results = cursor.next.1 :: const (.ok (Token.endOf text)) := by
  obtain ⟨before', stands'⟩ := stands.next
  have last := next_of_rest_eq_nil stands' (rest_next_eq_nil ended)
  have fixed : cursor.next.2.next.2 = cursor.next.2 := by rw [last]
  rw [results_eq, results, corec'_of_fixed fixed, last]

/-- The list of tokens ends with what is given last. -/
theorem tokens_of_ended (ended : cursor.Ended) : cursor.tokens = cursor.next.1.map ([·]) := by
  rw [Cursor.tokens]
  split
  · rename_i refused
    rw [refused]
    rfl
  · rename_i token behind given
    have ends := ended token (congrArg Prod.fst given)
    rw [dif_neg (not_not_intro ends), given]
    rfl

end Cursor

namespace TokenIterator

/-- What the iterator hands out, one call after the other. -/
def items (iterator : TokenIterator) : Stream' (Option (Except LexError Token)) :=
  corec' next iterator

/-- What an iterator hands out is its next item and what it hands out behind it. -/
theorem items_eq (iterator : TokenIterator) :
    iterator.items = iterator.next.1 :: iterator.next.2.items :=
  corec'_eq _ _

/-- The tokens that a scan cuts off are handed out first. -/
theorem items_of_reads {cursor middle : Cursor} {tokens : List Token}
    (reads : cursor.Reads tokens middle) : (⟨cursor, false⟩ : TokenIterator).items =
      (tokens.map Except.ok).map some ++ₛ (⟨middle, false⟩ : TokenIterator).items := by
  induction reads with
  | nil => rfl
  | @cons cursor middle _ token _ cuts more _ ih =>
    have step : (⟨cursor, false⟩ : TokenIterator).next = (some (.ok token), ⟨middle, false⟩) := by
      simp [next, Cursor.next_of_cuts cuts, more]
    rw [items_eq, step, ih, List.map_cons, List.map_cons, cons_append_stream]

/-- The end token or a report is handed out, and then nothing any more. -/
theorem items_of_ended {cursor : Cursor} (ended : cursor.Ended) :
    (⟨cursor, false⟩ : TokenIterator).items = some cursor.next.1 :: const none := by
  have step : (⟨cursor, false⟩ : TokenIterator).next = (some cursor.next.1, ⟨cursor.next.2, true⟩) := by
    unfold next
    cases given : cursor.next with
    | mk result behind =>
      cases result with
      | error error => rfl
      | ok token => simp [ended token (congrArg Prod.fst given)]
  have finished : (⟨cursor.next.2, true⟩ : TokenIterator).items = const none := corec'_of_fixed rfl
  rw [items_eq, step, finished]

end TokenIterator

/-- Pulling tokens from a text gives tokens in front of its end, no more than the text has characters,
then the end token or the report of a string that is never closed, and then the end token for ever.
Iterating gives the same up to the first end token or report and nothing behind it, and the list of
tokens is what was given up to there. -/
theorem tokenize_streams (text : String) : ∃ (tokens : List Token) (last : Except LexError Token),
    tokens.length ≤ text.length ∧ (∀ token ∈ tokens, token.kind ≠ .eof) ∧
      (last = .ok (Token.endOf text) ∨ ∃ line column, last = .error (.unterminatedString line column)) ∧
      (Cursor.ofText text).results =
        (tokens.map .ok ++ [last]) ++ₛ const (.ok (Token.endOf text)) ∧
      (TokenIterator.ofText text).items =
        (tokens.map Except.ok ++ [last]).map some ++ₛ const none ∧
      tokenize text = last.map fun eof => tokens ++ [eof] := by
  obtain ⟨tokens, middle, reads, ended⟩ := (Cursor.ofText text).exists_reads
  obtain ⟨before, stands⟩ := reads.standsBehind (Cursor.standsBehind_ofText text)
  refine ⟨tokens, middle.next.1, ?_, reads.ne_eof, ?_, ?_, ?_, ?_⟩
  · have shorter := reads.length_le
    rw [Cursor.ofText, String.length_toList] at shorter
    omega
  · cases given : middle.next.1 with
    | ok token => exact .inl (congrArg _ (Cursor.eq_endOf stands given (ended token given)))
    | error error =>
      obtain ⟨line, column⟩ := error
      exact .inr ⟨line, column, rfl⟩
  · rw [reads.results, Cursor.results_of_ended stands ended, append_append_stream,
      cons_append_stream, nil_append_stream]
  · rw [TokenIterator.ofText, TokenIterator.items_of_reads reads, TokenIterator.items_of_ended ended,
      List.map_append, append_append_stream, List.map_singleton, cons_append_stream, nil_append_stream]
  · rw [tokenize, reads.tokens_eq, Cursor.tokens_of_ended ended]
    cases middle.next.1 <;> rfl

end ScriptLang

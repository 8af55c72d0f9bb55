import Mathlib.Data.List.Chain
import ScriptLang.Proofs.Token.Lexemes

/-!
# The tokens tile the text

A scan cuts token after token off a text. The tokens that it gives lie one behind the other, with
nothing but gaps between them, up to the end of the text; only a quote that is never closed stops it.
`Cursor.Cuts` tells what one step cuts off, and the step lemma `Cursor.next_of_cuts` that this is what
the next token is. `Tiles` tells of the whole list, by byte offsets in the text.
-/

namespace ScriptLang

open Lexeme

/-- The number of bytes of a text. -/
def byteLength (text : List Char) : Nat :=
  (String.ofList text).utf8ByteSize

/-- The bytes of a text are those of its first character and of the others. -/
theorem byteLength_cons (c : Char) (text : List Char) :
    byteLength (c :: text) = c.utf8Size + byteLength text := by
  rw [byteLength, String.ofList_cons, String.utf8ByteSize_append, String.utf8ByteSize_singleton,
    byteLength]

/-- The bytes of two texts one behind the other are those of both. -/
theorem byteLength_append (first second : List Char) :
    byteLength (first ++ second) = byteLength first + byteLength second := by
  rw [byteLength, String.ofList_append, String.utf8ByteSize_append, byteLength, byteLength]

/-- A position moves on by the bytes of the text. -/
theorem Position.offset_advance (position : Position) (text : List Char) :
    (position.advance text).offset = position.offset + byteLength text := by
  induction text generalizing position with
  | nil => rfl
  | cons c text ih =>
    have step : (position.next c).offset = position.offset + c.utf8Size := by
      unfold Position.next
      split <;> rfl
    rw [advance_cons, ih, step, byteLength_cons]
    omega

namespace Cursor

/-- A token is cut off what is still to be read, behind a gap. -/
inductive Cuts : Cursor → Token → Cursor → Prop
  | behindGap {position : Position} {gap written rest : List Char} {kind : Token.Kind}
      {text : String} : IsGap gap (written ++ rest) → IsLexeme kind text written rest →
        Cuts ⟨gap ++ (written ++ rest), position⟩
          ⟨kind, text, position.advance gap, ((position.advance gap).advance written).offset⟩
          ⟨rest, (position.advance gap).advance written⟩

/-- What is still to be read is a gap and a quote that is never closed. -/
def AtOpenQuote (cursor : Cursor) : Prop :=
  ∃ gap behind, cursor.rest = gap ++ '"' :: behind ∧ IsGap gap ('"' :: behind) ∧ Unclosed behind

/-- A scan cuts tokens off one after the other, none of which is the end of the text. -/
inductive Reads : Cursor → List Token → Cursor → Prop
  | nil {cursor : Cursor} : Reads cursor [] cursor
  | cons {cursor middle behind : Cursor} {token : Token} {tokens : List Token} :
      Cuts cursor token middle → token.kind ≠ .eof → Reads middle tokens behind →
        Reads cursor (token :: tokens) behind

section Steps

variable {cursor middle behind : Cursor} {token : Token} {tokens : List Token}

/-- The gap in front of a text that starts with a token is stepped over. -/
theorem skipGap_of_isGap {position : Position} {gap rest : List Char} (wrote : IsGap gap rest)
    (ends : EndsGap rest) : skipGap ⟨gap ++ rest, position⟩ = ⟨rest, position.advance gap⟩ := by
  simp [skipGap, skip, gapLength_of_isGap wrote ends]

/-- The token that can be cut off is the next one. -/
theorem next_of_cuts (cuts : Cuts cursor token behind) : cursor.next = (.ok token, behind) := by
  obtain ⟨gap, wrote⟩ := cuts
  obtain ⟨found, shown⟩ := lexeme?_of_isLexeme wrote
  simp [next, skipGap_of_isGap gap wrote.endsGap, found, shown, skip]

/-- At a quote that is never closed there is no next token. -/
theorem next_of_atOpenQuote (stuck : AtOpenQuote cursor) :
    ∃ error behind, cursor.next = (.error error, behind) := by
  obtain ⟨rest, position⟩ := cursor
  obtain ⟨gap, behind, rfl, wrote, unclosed⟩ := stuck
  have ends : EndsGap ('"' :: behind) := endsGap_cons rfl (by decide)
  simp [next, skipGap_of_isGap wrote ends, lexeme?_of_unclosed unclosed]

/-- Unless a quote is never closed a token can be cut off. -/
theorem exists_cuts (cursor : Cursor) :
    (∃ token behind, Cuts cursor token behind) ∨ AtOpenQuote cursor := by
  obtain ⟨text, position⟩ := cursor
  obtain ⟨gap, rest, rfl, wrote, ends⟩ := exists_gap text
  rcases exists_lexeme ends with ⟨kind, shown, written, rest, rfl, wrote'⟩ | ⟨behind, rfl, unclosed⟩
  · exact .inl ⟨_, _, .behindGap wrote wrote'⟩
  · exact .inr ⟨gap, behind, rfl, wrote, unclosed⟩

/-- The next token is cut off the text. -/
theorem cuts_of_next (step : cursor.next = (.ok token, behind)) : Cuts cursor token behind := by
  rcases exists_cuts cursor with ⟨token', behind', cuts⟩ | stuck
  · obtain ⟨⟨⟩, rfl⟩ := Prod.mk.inj (step.symm.trans (next_of_cuts cuts))
    exact cuts
  · obtain ⟨error, behind', refused⟩ := next_of_atOpenQuote stuck
    cases (Prod.mk.inj (step.symm.trans refused)).1

/-- Where there is no next token stands a quote that is never closed. -/
theorem atOpenQuote_of_next {error : LexError} (step : cursor.next = (.error error, behind)) :
    AtOpenQuote cursor := by
  rcases exists_cuts cursor with ⟨token', behind', cuts⟩ | stuck
  · cases (Prod.mk.inj (step.symm.trans (next_of_cuts cuts))).1
  · exact stuck

end Steps

section Scans

variable {cursor middle behind : Cursor} {token : Token} {tokens tokens' : List Token}

/-- Tokens that are read one behind the other are read together. -/
theorem Reads.append (here : Reads cursor tokens middle) (there : Reads middle tokens' behind) :
    Reads cursor (tokens ++ tokens') behind := by
  induction here with
  | nil => exact there
  | cons cuts more _ ih => exact .cons cuts more (ih there)

/-- The end of the text is not among the tokens that a scan cuts off. -/
theorem Reads.ne_eof (reads : Reads cursor tokens behind) : ∀ token ∈ tokens, token.kind ≠ .eof := by
  induction reads with
  | nil => simp
  | cons _ more _ ih => exact List.forall_mem_cons.2 ⟨more, ih⟩

/-- The tokens are the one that is cut off and, unless that is the end of the text, those behind it. -/
theorem tokens_of_cuts (cuts : Cuts cursor token middle) : cursor.tokens =
    if token.kind = .eof then .ok [token] else middle.tokens.map (token :: ·) := by
  rw [Cursor.tokens]
  split
  · rename_i refused
    cases (Prod.mk.inj (refused.symm.trans (next_of_cuts cuts))).1
  · rename_i step
    obtain ⟨⟨⟩, rfl⟩ := Prod.mk.inj (step.symm.trans (next_of_cuts cuts))
    split_ifs <;> first | rfl | contradiction

/-- The collected tokens are those that a scan cuts off, up to the end of the text. -/
theorem tokens_eq_ok_iff : cursor.tokens = .ok tokens ↔
    ∃ others last middle behind, tokens = others ++ [last] ∧ Reads cursor others middle ∧
      Cuts middle last behind ∧ last.kind = .eof := by
  constructor
  · intro collected
    fun_induction Cursor.tokens cursor generalizing tokens with
    | case1 cursor error behind step => cases collected
    | case2 cursor token behind step more ih =>
      cases rest : behind.tokens with
      | error error => simp [rest, Except.map] at collected
      | ok tail =>
        obtain rfl : token :: tail = tokens := by simpa [rest, Except.map] using collected
        obtain ⟨others, last, middle, final, rfl, reads, cuts, ends⟩ := ih rest
        exact ⟨token :: others, last, middle, final, rfl, .cons (cuts_of_next step) more reads, cuts,
          ends⟩
    | case3 cursor token behind step more =>
      obtain rfl : [token] = tokens := by simpa using collected
      exact ⟨[], token, cursor, behind, rfl, .nil, cuts_of_next step, Decidable.not_not.1 more⟩
  · rintro ⟨others, last, middle, behind, rfl, reads, cuts, ends⟩
    induction reads with
    | nil => exact (tokens_of_cuts cuts).trans (if_pos ends)
    | cons cuts' more _ ih =>
      rw [tokens_of_cuts cuts', if_neg more, ih cuts]
      rfl

/-- The tokens of a text cannot be collected exactly if the scan comes to a quote that is never
closed. -/
theorem tokens_eq_error_iff : (∃ error, cursor.tokens = .error error) ↔
    ∃ tokens middle, Reads cursor tokens middle ∧ AtOpenQuote middle := by
  constructor
  · rintro ⟨error, refused⟩
    fun_induction Cursor.tokens cursor generalizing error with
    | case1 cursor _ behind step => exact ⟨[], cursor, .nil, atOpenQuote_of_next step⟩
    | case2 cursor token behind step more ih =>
      cases rest : behind.tokens with
      | error error =>
        obtain ⟨tokens, middle, reads, stuck⟩ := ih error rest
        exact ⟨token :: tokens, middle, .cons (cuts_of_next step) more reads, stuck⟩
      | ok tail => simp [rest, Except.map] at refused
    | case3 => cases refused
  · rintro ⟨tokens, middle, reads, stuck⟩
    induction reads with
    | @nil cursor =>
      obtain ⟨error, behind, refused⟩ := next_of_atOpenQuote stuck
      refine ⟨error, ?_⟩
      rw [Cursor.tokens]
      split
      · simp_all
      · simp_all
    | cons cuts more _ ih =>
      obtain ⟨error, refused⟩ := ih stuck
      exact ⟨error, by rw [tokens_of_cuts cuts, if_neg more, refused]; rfl⟩

end Scans

end Cursor

/-- The characters from one byte offset in a text to another, and those behind them. -/
def Slice (text : String) (start stop : Nat) (written rest : List Char) : Prop :=
  ∃ before, text.toList = before ++ (written ++ rest) ∧ byteLength before = start ∧
    byteLength (before ++ written) = stop

/-- Between two byte offsets in a text there is nothing but a gap. -/
def GapBetween (text : String) (start stop : Nat) : Prop :=
  ∃ gap rest, Slice text start stop gap rest ∧ IsGap gap rest

/-- The token is written in the text where its span says. -/
def Token.IsWritten (text : String) (token : Token) : Prop :=
  ∃ written rest, Slice text token.span.start.offset token.span.stop written rest ∧
    IsLexeme token.kind token.text written rest

/-- From a byte offset in a text on, tokens lie one behind the other, with nothing but gaps between
them and no two line breaks side by side, and the last and only the last is the end of the text. -/
structure Tiles (text : String) (front : Nat) (tokens : List Token) : Prop where
  written : ∀ token ∈ tokens, token.IsWritten text
  spans : ∀ token ∈ tokens, token.span.start.offset ≤ token.span.stop
  ordered : tokens.Pairwise fun earlier later => earlier.span.stop ≤ later.span.start.offset
  gap : ∀ first ∈ tokens.head?, GapBetween text front first.span.start.offset
  gaps : tokens.IsChain fun earlier later =>
    GapBetween text earlier.span.stop later.span.start.offset
  lineBreaks : tokens.IsChain fun earlier later =>
    ¬(earlier.kind = .lineBreak ∧ later.kind = .lineBreak)
  ends : ∃ others last, tokens = others ++ [last] ∧ (∀ token ∈ others, token.kind ≠ .eof) ∧
    last.kind = .eof ∧ last.span.start.offset = text.utf8ByteSize ∧
      last.span.stop = text.utf8ByteSize

section Tiles

variable {text : String} {front start stop : Nat} {gap written rest : List Char}
  {cursor middle behind : Cursor} {token other : Token} {tokens others : List Token}

/-- A slice does not stop before it starts. -/
theorem Slice.le (slice : Slice text start stop written rest) : start ≤ stop := by
  obtain ⟨before, -, rfl, rfl⟩ := slice
  rw [byteLength_append]
  exact Nat.le_add_right _ _

namespace Cursor

/-- What is still to be read is the rest of the text behind the bytes in front of the cursor. -/
def Within (text : String) (cursor : Cursor) : Prop :=
  ∃ before, text.toList = before ++ cursor.rest ∧ cursor.position.offset = byteLength before

/-- The first cursor of a text is within it. -/
theorem within_ofText (text : String) : (ofText text).Within text :=
  ⟨[], rfl, rfl⟩

/-- A token that is cut off lies behind a gap at the cursor, and the cursor moves behind it. -/
theorem Cuts.placed (cuts : Cuts cursor token behind) (within : cursor.Within text) :
    GapBetween text cursor.position.offset token.span.start.offset ∧ token.IsWritten text ∧
      behind.Within text ∧ behind.position.offset = token.span.stop := by
  obtain ⟨wrote, wrote'⟩ := cuts
  rename_i position gap written rest kind shown
  obtain ⟨before, same, offset⟩ := within
  dsimp only at same offset
  refine ⟨⟨gap, written ++ rest, ⟨before, same, offset.symm, ?_⟩, wrote⟩,
    ⟨written, rest, ⟨before ++ gap, ?_, ?_, ?_⟩, wrote'⟩, ⟨before ++ gap ++ written, ?_, ?_⟩, rfl⟩
  all_goals simp [same, offset, Position.offset_advance, byteLength_append, Nat.add_assoc]

/-- A folded line break is not followed by another one. -/
theorem Cuts.not_lineBreak (cuts : Cuts cursor token middle) (folds : token.kind = .lineBreak)
    (cuts' : Cuts middle other behind) : other.kind ≠ .lineBreak := by
  intro folds'
  obtain ⟨-, wrote⟩ := cuts
  cases folds
  obtain ⟨gap, wrote'⟩ := cuts'
  cases folds'
  obtain _ | ⟨-, -, ends⟩ := wrote
  -- Behind a folded line break there is no gap, and no line end that could start another one.
  obtain rfl := gap.eq_nil wrote'.endsGap ends.toEndsGap
  obtain _ | ⟨lineEnd, -, -⟩ := wrote'
  have plain := ends.lineEnd _ rfl
  rw [lineEnd] at plain
  cases plain

end Cursor

/-- No token starts in front of the offset. -/
theorem Tiles.front_le (tiles : Tiles text front tokens) :
    ∀ token ∈ tokens, front ≤ token.span.start.offset := by
  cases tokens with
  | nil => simp
  | cons first rest =>
    obtain ⟨gap, _, slice, -⟩ := tiles.gap first rfl
    refine List.forall_mem_cons.2 ⟨slice.le, fun later member => ?_⟩
    calc front ≤ first.span.start.offset := slice.le
      _ ≤ first.span.stop := tiles.spans first List.mem_cons_self
      _ ≤ later.span.start.offset := (List.pairwise_cons.1 tiles.ordered).1 later member

/-- The end of a text tiles what is left of it, which is a gap. -/
theorem Tiles.last (gap : GapBetween text front token.span.start.offset)
    (written : token.IsWritten text) (ends : token.kind = .eof) : Tiles text front [token] := by
  obtain ⟨kind, shown, span⟩ := token
  cases ends
  have size : span.start.offset = text.utf8ByteSize ∧ span.stop = text.utf8ByteSize := by
    obtain ⟨characters, rest, ⟨before, same, starts, stops⟩, wrote⟩ := written
    cases wrote
    rw [List.append_nil, List.append_nil] at same
    rw [List.append_nil] at stops
    rw [← starts, ← stops, byteLength, ← same, String.ofList_toList]
    exact ⟨rfl, rfl⟩
  exact {
    written := by simpa using written
    spans := by simp [size]
    ordered := List.pairwise_singleton ..
    gap := by simpa using gap
    gaps := .singleton _
    lineBreaks := .singleton _
    ends := ⟨[], _, rfl, by simp, rfl, size⟩ }

/-- One more token in front of tokens that tile the rest of a text. -/
theorem Tiles.cons (tiles : Tiles text token.span.stop tokens)
    (gap : GapBetween text front token.span.start.offset) (written : token.IsWritten text)
    (more : token.kind ≠ .eof)
    (apart : ∀ next ∈ tokens.head?, ¬(token.kind = .lineBreak ∧ next.kind = .lineBreak)) :
    Tiles text front (token :: tokens) where
  written := List.forall_mem_cons.2 ⟨written, tiles.written⟩
  spans := by
    obtain ⟨_, _, slice, -⟩ := written
    exact List.forall_mem_cons.2 ⟨slice.le, tiles.spans⟩
  ordered := List.pairwise_cons.2 ⟨tiles.front_le, tiles.ordered⟩
  gap := by simpa using gap
  gaps := List.isChain_cons.2 ⟨tiles.gap, tiles.gaps⟩
  lineBreaks := List.isChain_cons.2 ⟨apart, tiles.lineBreaks⟩
  ends := by
    obtain ⟨others, last, rfl, before, ends⟩ := tiles.ends
    exact ⟨token :: others, last, rfl, List.forall_mem_cons.2 ⟨more, before⟩, ends⟩

/-- What a scan cuts off up to the end of a text tiles it. -/
theorem tiles_of_reads (reads : Cursor.Reads cursor others middle) (within : cursor.Within text)
    (cuts : Cursor.Cuts middle token behind) (ends : token.kind = .eof) :
    Tiles text cursor.position.offset (others ++ [token]) := by
  induction reads with
  | nil =>
    obtain ⟨gap, written, -, -⟩ := cuts.placed within
    exact .last gap written ends
  | cons cuts' more reads ih =>
    obtain ⟨gap, written, within', stops⟩ := cuts'.placed within
    have tail := ih within' cuts
    rw [stops] at tail
    refine tail.cons gap written more fun next front both => ?_
    -- The next token is the first one of the rest of the scan, or the end of the text.
    cases reads with
    | nil =>
      obtain rfl := Option.some.inj front
      exact cuts'.not_lineBreak both.1 cuts both.2
    | cons cuts'' =>
      obtain rfl := Option.some.inj front
      exact cuts'.not_lineBreak both.1 cuts'' both.2

end Tiles

/-- The tokens of a text tile it, each as long as it can be. There are none exactly if the scan comes
to a quote that is never closed. -/
theorem tokenize_tiles (text : String) :
    (∀ tokens, tokenize text = .ok tokens → Tiles text 0 tokens) ∧
      ((∃ error, tokenize text = .error error) ↔
        ∃ tokens cursor, (Cursor.ofText text).Reads tokens cursor ∧ cursor.AtOpenQuote) := by
  refine ⟨fun tokens collected => ?_, Cursor.tokens_eq_error_iff⟩
  obtain ⟨others, last, middle, behind, rfl, reads, cuts, ends⟩ :=
    Cursor.tokens_eq_ok_iff.1 collected
  exact tiles_of_reads reads (Cursor.within_ofText text) cuts ends

/-- A comment in front of a line break, and a backslash that takes the last quote with it. -/
theorem tokenize_tiles_comment_and_open_quote :
    Tiles "x //y\r\n<=" 0
        [⟨.identifier, "x", ⟨⟨0, 1, 0⟩, 1⟩⟩, ⟨.lineBreak, "ENTER", ⟨⟨5, 1, 5⟩, 7⟩⟩,
          ⟨.mark .lessEqual, "<=", ⟨⟨7, 2, 0⟩, 9⟩⟩, ⟨.eof, "EOF", ⟨⟨9, 2, 2⟩, 9⟩⟩] ∧
      ∃ tokens cursor, (Cursor.ofText "x \"\\\"").Reads tokens cursor ∧ cursor.AtOpenQuote := by
  have collected : tokenize "x //y\r\n<=" = .ok
      [⟨.identifier, "x", ⟨⟨0, 1, 0⟩, 1⟩⟩, ⟨.lineBreak, "ENTER", ⟨⟨5, 1, 5⟩, 7⟩⟩,
        ⟨.mark .lessEqual, "<=", ⟨⟨7, 2, 0⟩, 9⟩⟩, ⟨.eof, "EOF", ⟨⟨9, 2, 2⟩, 9⟩⟩] := by
    with_unfolding_all rfl
  have refused : tokenize "x \"\\\"" = .error (.unterminatedString 1 2) := by with_unfolding_all rfl
  exact ⟨(tokenize_tiles _).1 _ collected, (tokenize_tiles _).2.1 ⟨_, refused⟩⟩

end ScriptLang

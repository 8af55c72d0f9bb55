import Mathlib.Logic.Function.Iterate
import ScriptLang.Proofs.Token.Tiling

/-!
# Positions are exact

A cursor counts lines and columns while it moves, one character at a time. Wherever it comes to, the
line is one more than the line feeds in front of it, and the column is the number of characters behind
the last of them; so it is with the start of every token and of a string that is never closed, after
any number of steps.
-/

namespace ScriptLang

open Lexeme

namespace Position

/-- The place behind some characters at the front of a text, told by counting them. -/
def counted (before : List Char) : Position where
  offset := byteLength before
  line := 1 + before.count '\n'
  column := (before.reverse.takeWhile (· ≠ '\n')).length

/-- One more character. -/
theorem next_counted (before : List Char) (c : Char) :
    (counted before).next c = counted (before ++ [c]) := by
  have bytes : byteLength (before ++ [c]) = byteLength before + c.utf8Size := by
    rw [byteLength_append, byteLength_cons]
    rfl
  by_cases feed : c = '\n'
  · subst feed
    simp [next, counted, bytes, Nat.add_assoc]
  · simp [next, counted, bytes, feed]

/-- Moving on character by character comes to the place that counting tells. -/
theorem advance_counted (before text : List Char) :
    (counted before).advance text = counted (before ++ text) := by
  induction text generalizing before with
  | nil => rw [advance_nil, List.append_nil]
  | cons c text ih => rw [advance_cons, next_counted, ih, List.append_assoc, List.singleton_append]

end Position

namespace Cursor

variable {text : String} {cursor middle behind : Cursor} {token : Token} {tokens : List Token}

/-- The cursor stands behind the characters of the text. -/
structure StandsBehind (text : String) (before : List Char) (cursor : Cursor) : Prop where
  split : text.toList = before ++ cursor.rest
  position : cursor.position = Position.counted before

/-- The first cursor of a text stands behind nothing. -/
theorem standsBehind_ofText (text : String) : (ofText text).StandsBehind text [] :=
  ⟨rfl, rfl⟩

/-- A cursor that skips characters stands behind them too. -/
theorem StandsBehind.skip {before : List Char} (stands : cursor.StandsBehind text before)
    (count : Nat) : (cursor.skip count).StandsBehind text (before ++ cursor.rest.take count) where
  split := by rw [stands.split, List.append_assoc, Cursor.skip, List.take_append_drop]
  position := by rw [Cursor.skip, stands.position, Position.advance_counted]

/-- A step leads from a place in the text to another one. -/
theorem StandsBehind.next {before : List Char} (stands : cursor.StandsBehind text before) :
    ∃ before, cursor.next.2.StandsBehind text before := by
  unfold Cursor.next
  dsimp only
  split
  · exact ⟨_, (stands.skip _).skip _⟩
  · exact ⟨_, (stands.skip _).skip _⟩

/-- A token that is cut off starts behind a gap, at the place that counting tells. -/
theorem Cuts.start_eq {before : List Char} (cuts : Cuts cursor token behind)
    (stands : cursor.StandsBehind text before) :
    ∃ gap written rest, text.toList = before ++ gap ++ (written ++ rest) ∧
      IsLexeme token.kind token.text written rest ∧
        token.span.start = Position.counted (before ++ gap) := by
  obtain ⟨-, wrote⟩ := cuts
  rename_i position gap written rest kind shown
  refine ⟨gap, written, rest, ?_, wrote, ?_⟩
  · rw [stands.split, List.append_assoc]
  · rw [← Position.advance_counted, ← stands.position]

/-- A quote that is never closed is behind a gap, and it is reported at the place that counting
tells. -/
theorem AtOpenQuote.next_eq {before : List Char} (stuck : cursor.AtOpenQuote)
    (stands : cursor.StandsBehind text before) :
    ∃ gap behind, cursor.rest = gap ++ '"' :: behind ∧ IsGap gap ('"' :: behind) ∧
      Unclosed behind ∧ cursor.next.1 = .error (.unterminatedString
        (Position.counted (before ++ gap)).line (Position.counted (before ++ gap)).column) := by
  obtain ⟨rest, position⟩ := cursor
  obtain ⟨gap, behind, rfl, wrote, unclosed⟩ := stuck
  obtain rfl := stands.position
  have ends : EndsGap ('"' :: behind) := endsGap_cons rfl (by decide)
  refine ⟨gap, behind, rfl, wrote, unclosed, ?_⟩
  simp [next, skipGap_of_isGap wrote ends, lexeme?_of_unclosed unclosed, Position.advance_counted]

section Calls

/-- The cursor behind a number of steps. -/
def after (cursor : Cursor) (calls : Nat) : Cursor :=
  (fun cursor => cursor.next.2)^[calls] cursor

/-- One more call moves the cursor on once more. -/
theorem after_succ (cursor : Cursor) (calls : Nat) :
    cursor.after (calls + 1) = (cursor.after calls).next.2 :=
  Function.iterate_succ_apply' ..

/-- After any number of steps the cursor stands at some place in the text. -/
theorem exists_standsBehind_after (text : String) (calls : Nat) :
    ∃ before, ((ofText text).after calls).StandsBehind text before := by
  induction calls with
  | zero => exact ⟨[], standsBehind_ofText text⟩
  | succ calls ih =>
    obtain ⟨before, stands⟩ := ih
    rw [after_succ]
    exact stands.next

/-- Behind the end token, and behind a quote that is never closed, nothing is left to be read. -/
theorem rest_next_eq_nil (ended : ∀ token, cursor.next.1 = .ok token → token.kind = .eof) :
    cursor.next.2.rest = [] := by
  rcases exists_cuts cursor with ⟨token, behind, cuts⟩ | stuck
  · have step := next_of_cuts cuts
    have ends := ended token (congrArg Prod.fst step)
    rw [step]
    obtain ⟨-, wrote⟩ := cuts
    cases ends
    cases wrote
    rfl
  · obtain ⟨rest, position⟩ := cursor
    obtain ⟨gap, behind, rfl, wrote, unclosed⟩ := stuck
    have ends : EndsGap ('"' :: behind) := endsGap_cons rfl (by decide)
    simp [next, skipGap_of_isGap wrote ends, lexeme?_of_unclosed unclosed, skip]

/-- At the end of a text the next token is the end token. -/
theorem eof_of_next (nothing : cursor.rest = []) (step : cursor.next.1 = .ok token) :
    token.kind = .eof := by
  have cuts : Cuts cursor token cursor.next.2 := cuts_of_next (Prod.ext step rfl)
  generalize cursor.next.2 = behind at cuts
  obtain ⟨-, wrote⟩ := cuts
  obtain ⟨rfl, rfl⟩ := List.append_eq_nil_iff.1 (List.append_eq_nil_iff.1 nothing).2
  by_contra more
  exact Lexeme.ne_nil_of_lexeme? (lexeme?_of_isLexeme wrote).1 more rfl

/-- Each step cuts one token off, until nothing is left to be read. -/
theorem reads_after (cursor : Cursor) (calls : Nat) :
    (∃ tokens, tokens.length = calls ∧ cursor.Reads tokens (cursor.after calls)) ∨
      (cursor.after calls).rest = [] := by
  induction calls with
  | zero => exact .inl ⟨[], rfl, .nil⟩
  | succ calls ih =>
    rw [after_succ]
    by_cases ended : ∀ token, (cursor.after calls).next.1 = .ok token → token.kind = .eof
    · exact .inr (rest_next_eq_nil ended)
    · push Not at ended
      obtain ⟨token, step, more⟩ := ended
      rcases ih with ⟨tokens, rfl, reads⟩ | nothing
      · exact .inl ⟨tokens ++ [token], by simp,
          reads.append (.cons (cuts_of_next (Prod.ext step rfl)) more .nil)⟩
      · exact absurd (eof_of_next nothing step) more

end Calls

end Cursor

/-- Whatever the next token of a text is after any number of steps, its line and its column are those
that counting the characters in front of it tells. A report of a string that is never closed has the
place of its quote, which stands behind the tokens that the steps have given and a gap. -/
theorem Cursor.next_after_counted (text : String) (calls : Nat) :
    match ((ofText text).after calls).next.1 with
    | .ok token => ∃ before written rest, text.toList = before ++ (written ++ rest) ∧
        IsLexeme token.kind token.text written rest ∧
          token.span.start = Position.counted before
    | .error (.unterminatedString line column) => ∃ tokens before gap behind,
        tokens.length = calls ∧ (ofText text).Reads tokens ((ofText text).after calls) ∧
          text.toList = before ++ gap ++ '"' :: behind ∧
          ((ofText text).after calls).rest = gap ++ '"' :: behind ∧ IsGap gap ('"' :: behind) ∧
          Unclosed behind ∧ line = (Position.counted (before ++ gap)).line ∧
          column = (Position.counted (before ++ gap)).column := by
  obtain ⟨before, stands⟩ := exists_standsBehind_after text calls
  split
  · rename_i token step
    obtain ⟨gap, written, rest, same, wrote, start⟩ :=
      (cuts_of_next (Prod.ext step rfl)).start_eq stands
    exact ⟨before ++ gap, written, rest, same, wrote, start⟩
  · rename_i line column step
    have stuck := atOpenQuote_of_next (Prod.ext step rfl)
    obtain ⟨gap, behind, left, wrote, unclosed, refused⟩ := stuck.next_eq stands
    obtain ⟨rfl, rfl⟩ : line = _ ∧ column = _ := by simpa [step] using refused
    rcases reads_after (ofText text) calls with ⟨tokens, rfl, reads⟩ | nothing
    · exact ⟨tokens, before, gap, behind, rfl, reads, by rw [stands.split, left, List.append_assoc],
        left, wrote, unclosed, rfl, rfl⟩
    · rw [nothing] at left
      exact absurd left.symm (by simp)

end ScriptLang

import ScriptLang.Token.Lexeme

/-!
# Reading a text token by token

A cursor is a place in a text together with what follows it. `Cursor.next` steps over the gap,
takes the lexeme behind it and gives the token; behind the end of the text it gives the same end
token for ever, and a string that is never closed uses the rest of the text up. `tokenize` collects
the tokens of a text and `TokenIterator` hands them out one at a time, each up to the first end
token or error.
-/

namespace ScriptLang

/-- What is still to be read of a text, and the place where it starts. -/
structure Cursor where
  rest : List Char
  position : Position
deriving DecidableEq, Repr

namespace Cursor

/-- The cursor in front of a text. -/
def ofText (text : String) : Cursor := ⟨text.toList, Position.start⟩

/-- Moves over a number of characters. -/
def skip (cursor : Cursor) (count : Nat) : Cursor :=
  ⟨cursor.rest.drop count, cursor.position.advance (cursor.rest.take count)⟩

/-- Moves behind the gap in front of the next token. -/
def skipGap (cursor : Cursor) : Cursor :=
  cursor.skip (Lexeme.gapLength cursor.rest)

/-- The next token, and the cursor behind it. -/
def next (cursor : Cursor) : Except LexError Token × Cursor :=
  let here := cursor.skipGap
  match Lexeme.lexeme? here.rest with
  | none =>
      (.error (.unterminatedString here.position.line here.position.column),
        here.skip here.rest.length)
  | some (kind, length) =>
      let behind := here.skip length
      (.ok ⟨kind, Lexeme.tokenText (here.rest.take length) kind,
        ⟨here.position, behind.position.offset⟩⟩, behind)

/-- Skipping characters leaves as many fewer, if there are as many. -/
theorem length_rest_skip (cursor : Cursor) (count : Nat) :
    (cursor.skip count).rest.length = cursor.rest.length - count := by
  simp [skip]

end Cursor

namespace Lexeme

/-- A lexeme that is not the end of the text has at least one character. -/
theorem length_pos {text : List Char} {kind : Token.Kind} {length : Nat}
    (found : lexeme? text = some (kind, length)) (more : kind ≠ .eof) : 0 < length := by
  unfold lexeme? at found
  split at found
  · simp_all
  · rename_i c rest
    split at found
    · rename_i lineEnd
      obtain ⟨rfl, rfl⟩ := by simpa using found
      simp only [breakLength, lineEnd, if_true]
      omega
    · split at found
      · obtain ⟨_, _, rfl, rfl⟩ := by simpa using found
        omega
      · split at found
        · obtain ⟨rfl, rfl⟩ := by simpa using found
          omega
        · split at found
          · rename_i sign _
            obtain ⟨rfl, rfl⟩ := by simpa using found
            cases sign <;> decide
          · obtain ⟨_, rfl⟩ := by simpa using found
            simp

/-- Only the end of the text stands at the front of an empty text. -/
theorem ne_nil_of_lexeme? {text : List Char} {kind : Token.Kind} {length : Nat}
    (found : lexeme? text = some (kind, length)) (more : kind ≠ .eof) : text ≠ [] := by
  rintro rfl
  simp only [lexeme?, Option.some.injEq, Prod.mk.injEq] at found
  exact more found.1.symm

end Lexeme

namespace Cursor

/-- Every token but the end token uses characters up. -/
theorem next_shorter {cursor behind : Cursor} {token : Token}
    (step : cursor.next = (.ok token, behind)) (more : token.kind ≠ .eof) :
    behind.rest.length < cursor.rest.length := by
  unfold next at step
  simp only at step
  split at step
  · simp at step
  · rename_i kind length found
    simp only [Prod.mk.injEq, Except.ok.injEq] at step
    obtain ⟨rfl, rfl⟩ := step
    have positive := Lexeme.length_pos found more
    have nonempty := List.length_pos_iff.2 (Lexeme.ne_nil_of_lexeme? found more)
    have gap := cursor.length_rest_skip (Lexeme.gapLength cursor.rest)
    rw [length_rest_skip]
    simp only [skipGap] at *
    omega

/-- No step makes what is still to be read longer. -/
theorem next_le (cursor : Cursor) : cursor.next.2.rest.length ≤ cursor.rest.length := by
  unfold next
  simp only
  split <;> simp only [skipGap, length_rest_skip] <;> omega

/-- The tokens from the cursor to the end of the text, the end token included. -/
def tokens (cursor : Cursor) : Except LexError (List Token) :=
  match _step : cursor.next with
  | (.error error, _) => .error error
  | (.ok token, behind) =>
      if _more : token.kind ≠ .eof then
        (behind.tokens).map (token :: ·)
      else
        .ok [token]
termination_by cursor.rest.length
decreasing_by exact next_shorter _step _more

end Cursor

/-- Cuts a text into tokens, the last of which is the end token. -/
def tokenize (text : String) : Except LexError (List Token) :=
  (Cursor.ofText text).tokens

/-- Hands out the tokens of a text until the end token or an error has been given. -/
structure TokenIterator where
  cursor : Cursor
  finished : Bool
deriving DecidableEq, Repr

namespace TokenIterator

/-- Starts in front of a text. -/
def ofText (text : String) : TokenIterator := ⟨Cursor.ofText text, false⟩

/-- The next token or error; `none` once the iterator has finished. -/
def next (iterator : TokenIterator) : Option (Except LexError Token) × TokenIterator :=
  if iterator.finished then (none, iterator)
  else match iterator.cursor.next with
    | (.ok token, behind) => (some (.ok token), ⟨behind, token.kind = .eof⟩)
    | (.error error, behind) => (some (.error error), ⟨behind, true⟩)

end TokenIterator

end ScriptLang

import Mathlib.Data.List.Forall2
import ScriptLang.Proofs.Parser.Lockstep

/-!
# Reading from a text and from a list

A text is cut into tokens while it is parsed, and no further than the parser looks. The outcome is
the one that parsing the finished list of tokens has, whenever there is such a list; and if a string
is never closed then that is reported, unless the tokens in front of it are refused before.
-/

namespace ScriptLang

namespace ParseError

variable {place : Span → Span → Prop} {error error' : ParseError}

/-- Faults that say the same of tokens in the same places are the same. -/
theorem Alike.eq (alike : Alike Eq error error') : error' = error := by
  cases alike with
  | unexpected same => rw [same.kind, same.text, same.span]
  | number same => rw [same.text, same.span]

/-- A fault that says something of a token is not one of cutting the text. -/
theorem Alike.ne_lex (alike : Alike place error error') (cut : LexError) : error ≠ .lex cut := by
  cases alike <;> exact ParseError.noConfusion

end ParseError

/-- Each token is like itself. -/
theorem Token.Alike.refl (token : Token) : token.Alike Eq token :=
  ⟨rfl, rfl, rfl⟩

namespace Program

section Sources

variable {σ τ : Type} [TokenSource σ] [TokenSource τ] {place : Span → Span → Prop}
  {failing : Option LexError}

/-- A program is read from a feed with fuel that suffices. -/
theorem ofFeed_eq_ok_or_error (feed : Feed σ) :
    (∃ program behind, Parse.program (feed.remaining + 1) feed = .ok program behind ∧
      ofFeed feed = .ok program) ∨
      ∃ error behind, Parse.program (feed.remaining + 1) feed = .error (.fault error) behind ∧
        ofFeed feed = .error error := by
  unfold ofFeed
  split
  · rename_i program behind outcome
    exact .inl ⟨program, behind, outcome, rfl⟩
  · rename_i error behind outcome
    exact .inr ⟨error, behind, outcome, rfl⟩
  · rename_i behind outcome
    exact absurd outcome (Parse.program_ne_outOfFuel feed behind)

/-- What the parser gives with enough fuel is the program of the feed. -/
theorem ofFeed_eq_ok {feed behind : Feed σ} {result : Program}
    (runs : Parse.program (feed.remaining + 1) feed = .ok result behind) :
    ofFeed feed = .ok result := by
  rcases ofFeed_eq_ok_or_error feed with ⟨program, behind', runs', given⟩ |
    ⟨error, behind', runs', -⟩
  · rw [runs] at runs'
    cases runs'
    exact given
  · rw [runs] at runs'
    cases runs'

/-- The fault that the parser meets with enough fuel is the error of the feed. -/
theorem ofFeed_eq_error {feed behind : Feed σ} {error : ParseError}
    (runs : Parse.program (feed.remaining + 1) feed = .error (.fault error) behind) :
    ofFeed feed = .error error := by
  rcases ofFeed_eq_ok_or_error feed with ⟨program, behind', runs', -⟩ |
    ⟨error', behind', runs', given⟩
  · rw [runs] at runs'
    cases runs'
  · rw [runs] at runs'
    cases runs'
    exact given

/-- Like sources give one program or like faults; or the left source fails, which is reported. -/
theorem ofSource_alike {left : σ} {right : τ} (alike : TokenSource.Alike place failing left right) :
    (∃ program, failing = none ∧ ofSource left = .ok program ∧ ofSource right = .ok program) ∨
      (∃ error error', error.Alike place error' ∧ ofSource left = .error error ∧
        ofSource right = .error error') ∨
        ∃ error, failing = some error ∧ ofSource left = .error (.lex error) := by
  rcases Parse.next_alike alike with ⟨token, token', left', right', here, here', -, feeds⟩ |
    ⟨error, left', fails, here⟩
  · simp only [ofSource, here, here']
    have agree := Parse.agree_program (Feed.remaining ⟨token, none, left'⟩ + 1)
      (Feed.remaining ⟨token', none, right'⟩ + 1) feeds
    rcases ofFeed_eq_ok_or_error ⟨token, none, left'⟩ with ⟨program, behind, outcome, result⟩ |
      ⟨error, behind, outcome, result⟩ <;>
    rcases ofFeed_eq_ok_or_error ⟨token', none, right'⟩ with
      ⟨program', behind', outcome', result'⟩ | ⟨error', behind', outcome', result'⟩ <;>
    rw [outcome, outcome'] at agree <;> rw [result, result'] <;> cases agree
    · exact .inl ⟨_, ‹_›, rfl, rfl⟩
    · exact .inr (.inr ⟨_, ‹_›, rfl⟩)
    · exact .inr (.inl ⟨_, _, ‹_›, rfl, rfl⟩)
    · exact .inr (.inr ⟨_, ‹_›, rfl⟩)
  · exact .inr (.inr ⟨error, fails, by simp [ofSource, here]⟩)

/-- Sources that give the same tokens up to an end token give the same program or fault. -/
theorem ofSource_eq {left : σ} {right : τ} (alike : TokenSource.Alike Eq none left right) :
    ofSource left = ofSource right := by
  rcases ofSource_alike alike with ⟨program, -, here, here'⟩ | ⟨error, error', same, here, here'⟩ |
    ⟨error, fails, -⟩
  · rw [here, here']
  · rw [here, here', same.eq]
  · cases fails

/-- A source that fails makes the parser report this, unless the tokens in front are refused. -/
theorem ofSource_of_failing {left : σ} {right : τ} {error : LexError}
    (alike : TokenSource.Alike Eq (some error) left right) :
    ofSource left = .error (.lex error) ∨
      ∃ fault, (∀ other, fault ≠ .lex other) ∧ ofSource left = .error fault ∧
        ofSource right = .error fault := by
  rcases ofSource_alike alike with ⟨program, never, -⟩ | ⟨fault, fault', same, here, here'⟩ |
    ⟨error', fails, here⟩
  · cases never
  · exact .inr ⟨fault, same.ne_lex, here, same.eq ▸ here'⟩
  · obtain rfl := Option.some.inj fails
    exact .inl here

end Sources

end Program

namespace TokenList

/-- A list gives a token whenever one is pulled. -/
theorem gives (list : TokenList) : TokenSource.Gives list := by
  obtain ⟨tokens, last⟩ := list
  cases tokens with
  | nil => exact ⟨_, _, rfl⟩
  | cons token rest => exact ⟨_, _, rfl⟩

/-- Lists of like tokens up to an end token are alike. -/
theorem alike_of_forall₂ {place : Span → Span → Prop} {eof eof' : Token} {before before' : List Token}
    (same : List.Forall₂ (Token.Alike place) before before') (same' : eof.Alike place eof')
    (ends : eof.kind = .eof) (after after' : List Token) (last last' : Span) :
    TokenSource.Alike place none (⟨before ++ eof :: after, last⟩ : TokenList)
      (⟨before' ++ eof' :: after', last'⟩ : TokenList) := by
  induction same generalizing last last' with
  | nil => exact .ends rfl rfl same' ends (gives _) (gives _)
  | @cons token token' rest rest' first _ ih =>
    by_cases more : token.kind = .eof
    · exact .ends rfl rfl first more (gives _) (gives _)
    · exact .token rfl rfl first more (ih token.span token'.span)

/-- Lists that agree up to an end token are alike. -/
theorem alike_of_eof {eof : Token} (ends : eof.kind = .eof) (before after after' : List Token)
    (last : Span) :
    TokenSource.Alike Eq none (⟨before ++ eof :: after, last⟩ : TokenList)
      (⟨before ++ eof :: after', last⟩ : TokenList) :=
  alike_of_forall₂ (List.forall₂_same.2 fun token _ => .refl token) (.refl eof) ends after after' last last

end TokenList

namespace Cursor

/-- Only at the end of a text does the end token stand. -/
theorem eq_nil_of_lexeme?_eof {text : List Char} {length : Nat}
    (found : Lexeme.lexeme? text = some (.eof, length)) : text = [] := by
  cases text with
  | nil => rfl
  | cons c rest =>
    unfold Lexeme.lexeme? at found
    simp only at found
    split at found
    · simp at found
    · split at found
      · simp at found
      · split at found
        · simp at found
        · split at found
          · simp at found
          · split at found <;> simp at found

/-- Behind the end token the text gives another one. -/
theorem gives_of_eof {cursor behind : Cursor} {token : Token}
    (step : cursor.next = (.ok token, behind)) (last : token.kind = .eof) :
    TokenSource.Gives behind := by
  unfold next at step
  simp only at step
  split at step
  · simp at step
  · rename_i kind length found
    simp only [Prod.mk.injEq, Except.ok.injEq] at step
    obtain ⟨rfl, rfl⟩ := step
    obtain rfl : kind = .eof := last
    have nothing := eq_nil_of_lexeme?_eof found
    have behind : (cursor.skipGap.skip length).rest = [] := by
      simp [skip, nothing]
    generalize cursor.skipGap.skip length = behind' at behind
    obtain ⟨rest, position⟩ := behind'
    obtain rfl : rest = [] := behind
    exact ⟨_, _, rfl⟩

/-- The tokens from the cursor up to the end token or an error. -/
def lexed (cursor : Cursor) : List Token :=
  match _step : cursor.next with
  | (.error _, _) => []
  | (.ok token, behind) => if _more : token.kind ≠ .eof then token :: behind.lexed else []
termination_by cursor.rest.length
decreasing_by exact next_shorter _step _more

/-- A text that can be cut is like the list of its tokens. -/
theorem alike_tokens {cursor : Cursor} {tokens : List Token} (cut : cursor.tokens = .ok tokens)
    (last : Span) : TokenSource.Alike Eq none cursor (⟨tokens, last⟩ : TokenList) := by
  fun_induction Cursor.tokens cursor generalizing tokens last with
  | case1 cursor error behind step => cases cut
  | case2 cursor token behind step more ih =>
    cases rest : behind.tokens with
    | error error => simp [rest, Except.map] at cut
    | ok others =>
      obtain rfl : token :: others = tokens := by simpa [rest, Except.map] using cut
      exact .token step rfl (.refl token) more (ih rest token.span)
  | case3 cursor token behind step more =>
    obtain rfl : [token] = tokens := by simpa using cut
    have ends := Decidable.not_not.1 more
    exact .ends step rfl (.refl token) ends (gives_of_eof step ends) (TokenList.gives _)

/-- A text that cannot be cut is like each list that starts with the tokens in front of the error,
until it fails. -/
theorem alike_lexed {cursor : Cursor} {error : LexError} (cut : cursor.tokens = .error error)
    (rest : List Token) (last : Span) :
    TokenSource.Alike Eq (some error) cursor (⟨cursor.lexed ++ rest, last⟩ : TokenList) := by
  fun_induction Cursor.tokens cursor generalizing last with
  | case1 cursor error' behind step =>
    obtain rfl : error' = error := Except.error.inj cut
    exact .fails step
  | case2 cursor token behind step more ih =>
    have tokens : cursor.lexed = token :: behind.lexed := by
      rw [lexed]
      split
      · rename_i other
        simp [step] at other
      · rename_i token' behind' other
        obtain ⟨rfl, rfl⟩ : token = token' ∧ behind = behind' := by simpa [step] using other
        exact dif_pos more
    rw [tokens]
    cases rest' : behind.tokens with
    | error error' =>
      obtain rfl : error' = error := by simpa [rest', Except.map] using cut
      exact .token step rfl (.refl token) more (ih rest' token.span)
    | ok others => simp [rest', Except.map] at cut
  | case3 cursor token behind step more => cases cut

end Cursor

namespace Program

/-- A text that can be cut into tokens is read as its tokens. -/
theorem ofText_eq_of_tokenize {text : String} {tokens : List Token}
    (cut : tokenize text = .ok tokens) : ofText text = ofTokens tokens :=
  ofSource_eq (Cursor.alike_tokens cut _)

/-- If a text can be cut into tokens then parsing it gives the same program or the same fault as
parsing the tokens. If it cannot, parsing it reports this, or the very fault that stops the parser
on every list that starts with the tokens in front of the error. What stands behind the first end
token of a list is never looked at. -/
theorem ofText_agrees_with_ofTokens :
    (∀ (text : String) (tokens : List Token), tokenize text = .ok tokens →
      ofText text = ofTokens tokens) ∧
      (∀ (text : String) (error : LexError), tokenize text = .error error →
        ∃ fault, ofText text = .error fault ∧
          (fault = .lex error ∨ (∀ other, fault ≠ .lex other) ∧
            ∀ rest, ofTokens ((Cursor.ofText text).lexed ++ rest) = .error fault)) ∧
        ∀ (eof : Token) (before after after' : List Token), eof.kind = .eof →
          ofTokens (before ++ eof :: after) = ofTokens (before ++ eof :: after') := by
  refine ⟨fun text tokens cut => ?_, fun text error cut => ?_,
    fun eof before after after' ends => ?_⟩
  · exact ofSource_eq (Cursor.alike_tokens cut _)
  · have alike (rest : List Token) := Cursor.alike_lexed cut rest (TokenList.ofList []).last
    rcases ofSource_of_failing (alike []) with failed | ⟨fault, syntactic, failed, -⟩
    · exact ⟨.lex error, failed, .inl rfl⟩
    · refine ⟨fault, failed, .inr ⟨syntactic, fun rest => ?_⟩⟩
      rcases ofSource_of_failing (alike rest) with failed' | ⟨fault', -, failed', refused⟩
      · rw [failed] at failed'
        exact absurd (Except.error.inj failed') (syntactic error)
      · rw [failed] at failed'
        exact Except.error.inj failed' ▸ refused
  · exact ofSource_eq (TokenList.alike_of_eof ends before after after' _)

/-- A name, a closing parenthesis in front of a string that is never closed, and a name behind the
end. -/
theorem ofText_agrees_with_ofTokens_name_and_unclosed_string :
    let name : Token := ⟨.identifier, "x", ⟨⟨0, 1, 0⟩, 1⟩⟩
    let eof : Token := ⟨.eof, "EOF", ⟨⟨1, 1, 1⟩, 1⟩⟩
    ofText "x" = ofTokens [name, eof] ∧
      (∃ fault, ofText ") \"x" = .error fault ∧
        (fault = .lex (.unterminatedString 1 2) ∨ (∀ other, fault ≠ .lex other) ∧
          ∀ rest, ofTokens ((Cursor.ofText ") \"x").lexed ++ rest) = .error fault)) ∧
        ofTokens [name, eof, name] = ofTokens [name, eof] := by
  intro name eof
  have cut : tokenize "x" = .ok [name, eof] := by with_unfolding_all rfl
  have unclosed : tokenize ") \"x" = .error (.unterminatedString 1 2) := by with_unfolding_all rfl
  obtain ⟨agrees, fails, ends⟩ := ofText_agrees_with_ofTokens
  exact ⟨agrees _ _ cut, fails _ _ unclosed, ends eof [name] [name] [] rfl⟩

end Program

end ScriptLang

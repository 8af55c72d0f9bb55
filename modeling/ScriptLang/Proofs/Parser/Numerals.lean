import ScriptLang.Proofs.Emit.Rereading
import ScriptLang.Proofs.Parser.Recognition
import ScriptLang.Proofs.Token.Numerals

/-!
# Programs that are one numeral

A text that denotes a word as a numeral is cut into one number, and the program that is read from it
is this number alone, unless it starts with the mark `0X`. Such a numeral is cut behind its zero, and
no program is read from it.
-/

namespace ScriptLang

open Grammar Lexeme Numeral

namespace Program

variable {tokens rest : List Token} {found last : Token} {result : Program}

/-- Tokens of the grammar in front of the end token are read as what they stand for. -/
theorem ofTokens_eq_ok (known : IsProgram tokens result) (nearest : result.ElsesNearest)
    (numbers : Parse.NumbersDenote tokens) (noEnd : ∀ token ∈ tokens, token.kind ≠ .eof)
    (ends : last.kind = .eof) : ofTokens (tokens ++ [last]) = .ok result := by
  have gives := Feed.upcoming_ofTokens noEnd ends
  rw [ofTokens_eq_ofFeed]
  generalize Feed.ofTokens (tokens ++ [last]) = feed at gives
  subst gives
  rcases Parse.program_eq_ok_or_outOfFuel known nearest numbers (feed.remaining + 1) with
    ⟨behind, runs⟩ | ⟨behind, runs⟩
  · exact ofFeed_eq_ok runs
  · exact absurd runs (Parse.program_ne_outOfFuel feed behind)

/-- A token behind the statements of a program is refused. -/
theorem ofTokens_eq_error
    (reads : ∀ fuel, Parse.Yields (Parse.contents fuel) tokens result (found :: rest))
    (more : found.kind ≠ .eof) (noEnd : ∀ token ∈ tokens, token.kind ≠ .eof)
    (ends : last.kind = .eof) : ofTokens (tokens ++ [last]) = .error (.unexpectedToken .eof
      found.kind found.text found.span.start.line found.span.start.column) := by
  have gives := Feed.upcoming_ofTokens noEnd ends
  rw [ofTokens_eq_ofFeed]
  generalize Feed.ofTokens (tokens ++ [last]) = feed at gives
  have runs := @Parse.program_eq TokenList _ (feed.remaining + 1)
  rcases reads (feed.remaining + 1) gives with ⟨middle, outcome, left⟩ | ⟨behind, outcome⟩
  · obtain ⟨rfl, -⟩ := Feed.current_of_upcoming left
    refine @ofFeed_eq_error TokenList _ feed middle _ ?_
    rw [runs]
    simp [Bind.bind, EStateM.bind, outcome, Parse.eat, more]
  · refine absurd ?_ (Parse.program_ne_outOfFuel feed behind)
    rw [runs]
    simp only [Bind.bind, EStateM.bind, outcome]

end Program

/-- A number is a statement in front of every token that no expression goes on with. -/
theorem Parse.yields_number_stmt {token : Token} {rest : List Token} {value : Word}
    (isNumber : token.kind = .number) (denotes : value? token.text = some value)
    (ends : 7 < reach (Token.frontKind rest)) (fuel : Nat) :
    Yields (statement fuel) (token :: rest) (.expr (.number token.text value)) rest := by
  cases fuel with
  | zero => exact yields_exhausted
  | succ fuel =>
    have factor : Derives .factor [token] (.number token.text value) := .number isNumber denotes
    have here := readsExpr (factor.operand.lift (by decide)) (fuel + 1) (fuel + 1) rest ends
    rw [ofLevel_seven] at here
    apply (yields_kind _).bind
    rw [Token.frontKind_cons, isNumber]
    exact here.bind (yields_pure _ _)

/-- The contents of a program that is one number are this number. -/
theorem Parse.yields_number_contents {token : Token} {rest : List Token} {value : Word}
    (isNumber : token.kind = .number) (denotes : value? token.text = some value)
    (ends : 7 < reach (Token.frontKind rest)) (inLine : Token.frontKind rest ≠ .lineBreak)
    (fuel : Nat) :
    Yields (contents fuel) (token :: rest) ⟨[], [.expr (.number token.text value)]⟩ rest := by
  have starts : Token.frontKind (token :: rest) = .number := isNumber
  have breaks := @yields_skipLineBreaks (token :: rest) [] nofun (by simp [starts]) fuel
  have imports := @yields_noImports (token :: rest) (by simp [starts]) fuel
  have stmt := yields_number_stmt isNumber denotes ends fuel
  exact breaks.bind (imports.bind ((yields_last stmt inLine fuel).bind (yields_pure _ _)))

/-- Behind a number on the same line no name can stand. -/
theorem Program.ofTokens_number_name {number name last : Token} {value : Word}
    (isNumber : number.kind = .number) (denotes : value? number.text = some value)
    (isName : name.kind = .identifier) (ends : last.kind = .eof) :
    ofTokens [number, name, last] = .error (.unexpectedToken .eof .identifier name.text
      name.span.start.line name.span.start.column) := by
  have front : Token.frontKind [name] = .identifier := isName
  have apart : 7 < reach (Token.frontKind [name]) := by
    rw [front]
    decide
  have reads := Parse.yields_number_contents isNumber denotes apart (by simp [isName])
  have refused := ofTokens_eq_error reads (by simp [isName]) (by simp [isNumber, isName]) ends
  rwa [isName] at refused

/-- The token at the front of a text, and the tokens behind it. -/
theorem Cursor.tokens_of_lexeme {kind : Token.Kind} {text : String} {written rest : List Char}
    {position : Position} {others : List Token} (wrote : IsLexeme kind text written rest)
    (more : kind ≠ .eof) (behind : Cursor.tokens ⟨rest, position.advance written⟩ = .ok others) :
    Cursor.tokens ⟨written ++ rest, position⟩ =
      .ok (⟨kind, text, position, (position.advance written).offset⟩ :: others) := by
  have cuts := @Cuts.behindGap position [] _ _ _ _ (.blanks (by simp)) wrote
  exact (tokens_of_cuts cuts).trans ((if_neg more).trans (congrArg _ behind))

/-- From nothing only the end token is cut. -/
theorem Cursor.tokens_nil (position : Position) :
    Cursor.tokens ⟨[], position⟩ = .ok [⟨.eof, Token.eofText, position, position.offset⟩] :=
  tokens_of_cuts (@Cuts.behindGap position [] [] [] _ _ (.blanks (by simp)) .eof)

namespace Numeral

variable {text : String} {value : Word}

/-- The text is one number, to the scan and to the parser. -/
structure ReadsAlone (text : String) (value : Word) : Prop where
  tokens : ∃ number last, tokenize text = .ok [number, last] ∧ number.kind = .number ∧
    number.text = text ∧ last.kind = .eof
  program : Program.ofText text = .ok ⟨[], [.expr (.number text value)]⟩

/-- The text is a zero and an identifier to the scan, and the parser refuses the identifier. -/
structure ReadsSplit (text word : String) : Prop where
  parts : text = "0" ++ word
  tokens : ∃ zero name last, tokenize text = .ok [zero, name, last] ∧ zero.kind = .number ∧
    zero.text = "0" ∧ name.kind = .identifier ∧ name.text = word ∧ last.kind = .eof
  program : Program.ofText text = .error (.unexpectedToken .eof .identifier word 1 1)

/-- A numeral that is cut as one number is a program. -/
theorem readsAlone_of_isNumeral (numeral : IsNumeral text value) : ReadsAlone text value := by
  have cut := Cursor.tokens_of_lexeme numeral.lexeme nofun
    (Cursor.tokens_nil (Position.start.advance text.toList))
  rw [List.append_nil] at cut
  refine ⟨⟨_, _, cut, rfl, rfl, rfl⟩, (Program.ofText_eq_of_tokenize cut).trans ?_⟩
  generalize number : (⟨.number, text, _, _⟩ : Token) = token
  have factor : Derives .factor [token] (.number text value) := by
    subst number
    exact .number rfl numeral.denotes
  have known : IsProgram [token] ⟨[], [.expr (.number text value)]⟩ :=
    @IsProgram.statements [] [] _ _ _ nofun .none (.last (.expr (factor.operand.lift (by decide))))
  refine @Program.ofTokens_eq_ok [token] _ _ known ⟨trivial, trivial⟩ ?_ ?_ rfl
  · simp [Parse.NumbersDenote, ← number, numeral.denotes]
  · simp [← number]

/-- A numeral behind the mark `0X` is cut behind its zero. -/
theorem exists_readsSplit_of_capital (denotes : value? text = some value)
    (capital : capitalMark <+: text.toList) : ∃ word, ReadsSplit text word := by
  obtain ⟨word, rfl, zero, name⟩ := isLexeme_of_capital denotes capital
  have scan := Cursor.tokens_of_lexeme name nofun
    (Cursor.tokens_nil ((Position.start.advance ['0']).advance word.toList))
  rw [List.append_nil] at scan
  have shown : ("0" ++ word).toList = ['0'] ++ word.toList := String.toList_append
  have cut := Cursor.tokens_of_lexeme zero nofun scan
  rw [← shown] at cut
  refine ⟨word, rfl, ⟨_, _, _, cut, rfl, rfl, rfl, rfl, rfl⟩,
    (Program.ofText_eq_of_tokenize cut).trans ?_⟩
  have none : value? "0" = some 0 := by decide
  exact Program.ofTokens_number_name rfl none rfl rfl

/-- A text that denotes a word is one number to the scan and to the parser exactly if it does not
start with the mark `0X`. If it does, the scan cuts it behind the zero, and the parser refuses what
follows. -/
theorem readsAlone_iff_not_capital (denotes : value? text = some value) :
    (ReadsAlone text value ↔ ¬capitalMark <+: text.toList) ∧
      (capitalMark <+: text.toList → ∃ word, ReadsSplit text word) := by
  have split := exists_readsSplit_of_capital denotes
  refine ⟨⟨fun alone capital => ?_, fun small => ?_⟩, split⟩
  · obtain ⟨word, apart⟩ := split capital
    cases alone.program.symm.trans apart.program
  · exact readsAlone_of_isNumeral (isNumeral_of_not_capital denotes small)

/-- A hexadecimal number with either letter in its mark. -/
theorem readsAlone_iff_not_capital_hexadecimal :
    value? "0x1_f" = some 31 ∧ ReadsAlone "0x1_f" 31 ∧
      value? "0X1F" = some 31 ∧ ∃ word, ReadsSplit "0X1F" word := by
  have small : value? "0x1_f" = some 31 := by decide
  have capital : value? "0X1F" = some 31 := by decide
  exact ⟨small, (readsAlone_iff_not_capital small).1.2 (by decide), capital,
    (readsAlone_iff_not_capital capital).2 (by decide)⟩

/-- Not every text that denotes a word is one number to the scan and to the parser. -/
theorem not_readsAlone :
    ¬∀ (text : String) (value : Word), value? text = some value → ReadsAlone text value := by
  intro alone
  have reads := alone "0X1F" 31 (by decide)
  have refused : Program.ofText "0X1F" = .error (.unexpectedToken .eof .identifier "X1F" 1 1) := by
    with_unfolding_all rfl
  cases reads.program.symm.trans refused

end Numeral

end ScriptLang

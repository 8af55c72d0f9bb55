import ScriptLang.Proofs.Emit.Conditions
import ScriptLang.Proofs.Emit.Numbers
import ScriptLang.Proofs.Parser.Output

/-!
# Operators in front of operands

An operator is printed right in front of its operand, and the operand may start with an operator
too. The target languages read the longest operator that stands at a place, so `-` in front of `-1`
is read as one operator. `Dialect.Fuses` lists the operators of which this is true: a chain of them is
read as it was meant exactly if no two neighbours in it fuse.
-/

namespace ScriptLang

namespace Dialect

/-- The operators and punctuation marks of the language. -/
def operators : Dialect → List String
  | c => ["[", "]", "(", ")", "\x7b", "\x7d", ".", "->", "++", "--", "&", "*", "+", "-", "~", "!",
      "/", "%", "<<", ">>", "<", ">", "<=", ">=", "==", "!=", "^", "|", "&&", "||", "?", ":", ";",
      "...", "=", "*=", "/=", "%=", "+=", "-=", "<<=", ">>=", "&=", "^=", "|=", ",", "#", "##"]
  | go => ["+", "&", "+=", "&=", "&&", "==", "!=", "(", ")", "-", "|", "-=", "|=", "||", "<", "<=",
      "[", "]", "*", "^", "*=", "^=", "<-", ">", ">=", "\x7b", "\x7d", "/", "<<", "/=", "<<=", "++",
      "=", ":=", ",", ";", "%", ">>", "%=", ">>=", "--", "!", "...", ".", ":", "&^", "&^=", "~"]

/-- The text starts with the operator, and with no longer one. -/
structure ReadsOperator (dialect : Dialect) (symbol : String) (text : List Char) : Prop where
  listed : symbol ∈ dialect.operators
  stands : symbol.toList <+: text
  longest : ∀ other ∈ dialect.operators, other.toList <+: text → other.length ≤ symbol.length

/-- The text starts with the operators, each read as the longest one at its place. -/
inductive ReadsChain (dialect : Dialect) : List String → List Char → Prop where
  | nil {text : List Char} : ReadsChain dialect [] text
  | cons {symbol : String} {symbols : List String} {text : List Char} :
      dialect.ReadsOperator symbol (symbol.toList ++ text) → ReadsChain dialect symbols text →
        ReadsChain dialect (symbol :: symbols) (symbol.toList ++ text)

/-- Two operators in front of an operand that are one operator if nothing stands between them. -/
def Fuses (dialect : Dialect) (symbol next : String) : Prop :=
  symbol = next ∧ symbol ∈ ["-", "+", "&"] ∨ dialect = go ∧ symbol = "&" ∧ next = "^"

instance (dialect : Dialect) (symbol next : String) : Decidable (dialect.Fuses symbol next) :=
  inferInstanceAs (Decidable (_ ∨ _))

end Dialect

namespace Expr

/-- The operator in front of the operand of which an expression consists, and the operand. -/
def prefixed? (dialect : Dialect) : Expr → Option (String × Expr)
  | .unary op operand => some (dialect.unarySymbol op, operand)
  | .logicPrefix op right => some (op.symbol, right)
  | _ => none

/-- The operators that the text of an expression starts with. Go has the type of a cast in front. -/
def prefixes (dialect : Dialect) : Expr → List String
  | .unary op operand => dialect.unarySymbol op :: prefixes dialect operand
  | .logicPrefix op right => op.symbol :: prefixes dialect right
  | .cast _ type => if dialect = .go then prefixes dialect type else []
  | _ => []

end Expr

namespace Dialect

/-- The operators that stand in front of an operand in either language. -/
def prefixSymbols : List String :=
  ["-", "+", "*", "&", "!", "~", "^"]

/-- The characters that can go on with an operator in front of an operand. -/
def secondCharacters : List Char :=
  ['-', '+', '&', '^', '=', '>']

variable {dialect : Dialect} {symbol next : String} {text : List Char} {front : Option String}

/-- Every unary operator is written as one of the symbols that stand in front of an operand. -/
theorem unarySymbol_mem (dialect : Dialect) (op : UnaryOp) :
    dialect.unarySymbol op ∈ prefixSymbols := by
  cases dialect <;> cases op <;> decide

/-- The symbols in front of operands are operators of both languages. -/
theorem mem_operators_of_mem_prefixSymbols (dialect : Dialect) :
    ∀ symbol ∈ prefixSymbols, symbol ∈ dialect.operators := by
  cases dialect <;> decide

/-- Operators fuse if together they are an operator. -/
theorem fuses_iff (dialect : Dialect) : ∀ symbol ∈ prefixSymbols, ∀ next ∈ prefixSymbols,
    (dialect.Fuses symbol next ↔ symbol ++ next ∈ dialect.operators) := by
  cases dialect <;> decide

/-- What goes on with an operator is one of few characters, and if it is an operator in front of an
operand too then the two fuse. -/
theorem secondCharacter_of_longer (dialect : Dialect) : ∀ symbol ∈ prefixSymbols,
    ∀ other ∈ dialect.operators, symbol.toList <+: other.toList → symbol.length < other.length →
      ∃ c ∈ secondCharacters, symbol.toList ++ [c] <+: other.toList ∧
        ∀ next ∈ prefixSymbols, next.toList = [c] → dialect.Fuses symbol next := by
  have table : ∀ symbol ∈ prefixSymbols, ∀ other ∈ dialect.operators,
      symbol.toList <+: other.toList → symbol.length < other.length →
        secondCharacters.any (fun c => symbol.toList ++ [c] <+: other.toList ∧
          ∀ next ∈ prefixSymbols, next.toList = [c] → dialect.Fuses symbol next) = true := by
    cases dialect <;> decide +kernel
  intro symbol listed other listed' within longer
  obtain ⟨c, second, goesOn⟩ := List.any_eq_true.1 (table symbol listed other listed' within longer)
  exact ⟨c, second, of_decide_eq_true goesOn⟩

/-- A text starts with the operator, or else with a character that goes on with none. -/
def StartsWith : Option String → List Char → Prop
  | some symbol, text => symbol ∈ prefixSymbols ∧ symbol.toList <+: text
  | none, text => ∃ c behind, text = c :: behind ∧ c ∉ secondCharacters

/-- How a text starts does not depend on what stands behind it. -/
theorem StartsWith.append (starts : StartsWith front text) (rest : List Char) :
    StartsWith front (text ++ rest) := by
  cases front with
  | none =>
    obtain ⟨c, behind, rfl, apart⟩ := starts
    exact ⟨c, behind ++ rest, rfl, apart⟩
  | some next => exact ⟨starts.1, starts.2.trans (List.prefix_append _ _)⟩

/-- The symbols in front of operands have one character each. -/
theorem length_of_mem_prefixSymbols : ∀ symbol ∈ prefixSymbols, symbol.length = 1 := by
  decide

/-- An operator in front of an operand is read alone unless it fuses with the one that the operand
starts with. -/
theorem readsOperator_iff (listed : symbol ∈ prefixSymbols) (starts : StartsWith front text) :
    dialect.ReadsOperator symbol (symbol.toList ++ text) ↔
      ∀ next ∈ front, ¬dialect.Fuses symbol next := by
  constructor
  · rintro reads next rfl fuses
    obtain ⟨listed', stands⟩ := starts
    have whole : (symbol ++ next).toList <+: symbol.toList ++ text := by
      rw [String.toList_append]
      exact (List.prefix_append_right_inj _).2 stands
    have longer := reads.longest _ ((fuses_iff dialect symbol listed next listed').1 fuses) whole
    rw [String.length_append, length_of_mem_prefixSymbols next listed'] at longer
    omega
  · intro apart
    refine ⟨mem_operators_of_mem_prefixSymbols dialect symbol listed, List.prefix_append _ _,
      fun other listed' stands => ?_⟩
    by_contra! longer
    have within : symbol.toList <+: other.toList := by
      refine List.prefix_of_prefix_length_le (List.prefix_append _ text) stands ?_
      rw [String.length_toList, String.length_toList]
      exact longer.le
    obtain ⟨c, second, goesOn, fuses⟩ :=
      secondCharacter_of_longer dialect symbol listed other listed' within longer
    -- The character behind the operator is the first one of the text.
    obtain ⟨after, same⟩ := goesOn.trans stands
    rw [List.append_assoc, List.append_cancel_left_eq] at same
    subst same
    cases front with
    | none =>
      obtain ⟨c', behind, same, other⟩ := starts
      obtain ⟨rfl, -⟩ := List.cons.inj same
      exact other second
    | some next =>
      obtain ⟨listed', behind, same⟩ := starts
      have single : next.toList.length = [c].length := by
        rw [String.length_toList, length_of_mem_prefixSymbols next listed']
        rfl
      exact apart next rfl (fuses next listed' (List.append_inj_left same single))

/-- Operators are read one after the other exactly if the first is read and the others are behind
it. -/
theorem readsChain_cons_iff {symbols : List String} :
    dialect.ReadsChain (symbol :: symbols) (symbol.toList ++ text) ↔
      dialect.ReadsOperator symbol (symbol.toList ++ text) ∧ dialect.ReadsChain symbols text := by
  constructor
  · intro reads
    generalize whole : symbol.toList ++ text = text' at reads
    cases reads with
    | cons reads others =>
      obtain rfl := List.append_cancel_left whole
      exact ⟨reads, others⟩
  · rintro ⟨reads, others⟩
    exact .cons reads others

end Dialect

open Dialect

variable {dialect : Dialect} {table : ScopeTable Nat} {printed : String}

/-- No identifier starts with a character that goes on with an operator, which is a mark itself. -/
theorem IsIdentifier.startsWith {word : String} (identifier : IsIdentifier word) :
    StartsWith none word.toList := by
  have table : secondCharacters.all (∃ sign ∈ Mark.longestFirst, sign.spelling.toList = [·]) = true := by
    decide
  unfold IsIdentifier at identifier
  generalize word.toList = written at identifier
  cases identifier with
  | @identifier first run _ isWord =>
    refine ⟨first, run, rfl, fun second => ?_⟩
    obtain ⟨sign, -, spelled⟩ := of_decide_eq_true (List.all_eq_true.1 table first second)
    exact isWord.mark sign ⟨run ++ [], by rw [spelled]; rfl⟩

/-- A proper name starts with a character that goes on with no operator. -/
theorem Name.Proper.startsWith {name : Name} (proper : name.Proper) :
    StartsWith none name.toList := by
  induction proper with
  | word identifier => exact identifier.startsWith
  | dotted _ _ ih =>
    rw [String.toList_append, String.toList_append, List.append_assoc]
    exact ih.append _

/-- A numeral starts with a digit, which goes on with no operator. -/
theorem IsNumeral.startsWith {literal : String} {value : Word} (numeral : IsNumeral literal value) :
    StartsWith none literal.toList := by
  have table : secondCharacters.all (·.isDigit = false) = true := by decide
  obtain ⟨lexeme, -⟩ := numeral
  generalize literal.toList = written at lexeme
  cases lexeme with
  | @number digit run _ isDigit =>
    refine ⟨digit, run, rfl, fun second => ?_⟩
    rw [of_decide_eq_true (List.all_eq_true.1 table digit second)] at isDigit
    cases isDigit

/-- A text in parentheses starts with no operator. -/
theorem startsWith_paren (text : String) : StartsWith none ("(" ++ text).toList :=
  ⟨'(', text.toList, String.toList_append, by decide⟩

namespace Emit

/-- An operator with two operands starts with a parenthesis. -/
theorem startsWith_of_isWrapped {tree : Expr} (proper : tree.Proper) (wrapped : isWrapped tree = true)
    (shown : expr dialect table tree = .ok printed) : StartsWith none printed.toList := by
  obtain ⟨inner, rfl⟩ := expr_of_isWrapped proper wrapped shown
  rw [String.append_assoc]
  exact startsWith_paren (inner ++ ")")

/-- A cast is printed from its value and its type. The type is printed as an expression, but for a
plain name, which is not looked for. -/
theorem cast_eq_ok {value type : Expr} (shown : expr dialect table (.cast value type) = .ok printed) :
    ∃ inner typeText, expr dialect table value = .ok inner ∧ printed = dialect.cast inner typeText ∧
      (type = .variable typeText ∨ expr dialect table type = .ok typeText) := by
  obtain ⟨inner, shownValue, shown⟩ := exists_of_bind_eq_ok shown
  match type with
  | .variable name =>
    cases shown
    exact ⟨inner, name, shownValue, rfl, .inl rfl⟩
  | .number .. | .string _ | .unary .. | .binary .. | .cast .. | .logic .. | .logicPrefix .. | .call .. =>
    obtain ⟨typeText, shownType, ⟨⟩⟩ := exists_of_bind_eq_ok shown
    exact ⟨inner, typeText, shownValue, rfl, .inr shownType⟩

/-- The text of an expression starts with its first operator, or with no operator at all. -/
theorem startsWith_expr : ∀ {tree : Expr} {printed : String}, tree.Proper →
    expr dialect table tree = .ok printed → StartsWith (tree.prefixes dialect).head? printed.toList
  | .number literal value, _, proper, shown => by
    cases shown
    exact (dialect.isNumeral_number (Expr.proper_number.1 proper)).startsWith
  | .string text, _, _, shown => by
    cases shown
    exact ⟨'"', _, by simp; rfl, by decide⟩
  | .variable name, _, proper, shown => by
    obtain ⟨-, -, ⟨⟩⟩ := exists_of_bind_eq_ok shown
    exact (Expr.proper_variable.1 proper).startsWith
  | .unary op operand, _, _, shown => by
    obtain ⟨inner, -, ⟨⟩⟩ := exists_of_bind_eq_ok shown
    refine ⟨unarySymbol_mem dialect op, ?_⟩
    rw [String.toList_append]
    exact List.prefix_append _ _
  | .binary .., _, proper, shown | .logic .., _, proper, shown =>
    startsWith_of_isWrapped proper rfl shown
  | .cast value type, _, proper, shown => by
    obtain ⟨inner, typeText, -, rfl, shownType⟩ := cast_eq_ok shown
    have proper' := (Expr.proper_cast.1 proper).2
    have front : StartsWith (type.prefixes dialect).head? typeText.toList := by
      rcases shownType with rfl | shownType
      · exact (Expr.proper_variable.1 proper').startsWith
      · exact startsWith_expr proper' shownType
    rw [Expr.prefixes]
    cases dialect with
    | c => exact ⟨'(', _, by simp [Dialect.cast]; rfl, by decide⟩
    | go =>
      simp only [Dialect.cast, String.toList_append, List.append_assoc, if_true]
      exact front.append _
  | .logicPrefix op right, _, proper, shown => by
    obtain ⟨rfl, -⟩ := Expr.proper_logicPrefix.1 proper
    obtain ⟨inner, -, ⟨⟩⟩ := exists_of_bind_eq_ok shown
    refine ⟨by decide, ?_⟩
    rw [String.toList_append]
    exact List.prefix_append _ _
  | .call callee args, _, proper, shown => by
    obtain ⟨-, -, shown⟩ := exists_of_bind_eq_ok shown
    obtain ⟨inner, -, ⟨⟩⟩ := exists_of_bind_eq_ok shown
    rw [String.toList_append, String.toList_append, String.toList_append, List.append_assoc,
      List.append_assoc]
    exact (Expr.proper_call.1 proper).1.startsWith.append _

/-- A prefixed expression is printed as its operator and its operand. -/
theorem exists_operand {tree operand : Expr} {symbol : String} (proper : tree.Proper)
    (prefixed : tree.prefixed? dialect = some (symbol, operand))
    (shown : expr dialect table tree = .ok printed) : ∃ inner, expr dialect table operand = .ok inner ∧
      printed = symbol ++ inner ∧ symbol ∈ prefixSymbols ∧ operand.Proper ∧
        tree.prefixes dialect = symbol :: operand.prefixes dialect := by
  unfold Expr.prefixed? at prefixed
  split at prefixed
  · obtain ⟨rfl, rfl⟩ := Prod.mk.inj (Option.some.inj prefixed)
    obtain ⟨inner, shown', ⟨⟩⟩ := exists_of_bind_eq_ok shown
    exact ⟨inner, shown', rfl, unarySymbol_mem _ _, Expr.proper_unary.1 proper, rfl⟩
  · obtain ⟨rfl, rfl⟩ := Prod.mk.inj (Option.some.inj prefixed)
    obtain ⟨rfl, proper'⟩ := Expr.proper_logicPrefix.1 proper
    obtain ⟨inner, shown', ⟨⟩⟩ := exists_of_bind_eq_ok shown
    exact ⟨inner, shown', rfl, by decide, proper', rfl⟩
  · cases prefixed

/-- A prefixed expression starts with an operator that is read as it was printed exactly if it does
not fuse with the first operator of the operand. -/
theorem readsOperator_expr {tree operand : Expr} {symbol : String} (proper : tree.Proper)
    (prefixed : tree.prefixed? dialect = some (symbol, operand))
    (shown : expr dialect table tree = .ok printed) (rest : List Char) :
    dialect.ReadsOperator symbol (printed.toList ++ rest) ↔
      ∀ next ∈ (operand.prefixes dialect).head?, ¬dialect.Fuses symbol next := by
  obtain ⟨inner, shown', rfl, listed, proper', -⟩ := exists_operand proper prefixed shown
  rw [String.toList_append, List.append_assoc]
  exact readsOperator_iff listed ((startsWith_expr proper' shown').append rest)

/-- The operators at the front of a text are read one by one exactly if no two neighbours fuse. -/
theorem readsChain_expr : ∀ {tree : Expr} {printed : String}, tree.Proper →
    expr dialect table tree = .ok printed → ∀ rest : List Char,
      dialect.ReadsChain (tree.prefixes dialect) (printed.toList ++ rest) ↔
        (tree.prefixes dialect).IsChain (¬dialect.Fuses · ·)
  | .number .., _, _, _, _ | .string _, _, _, _, _ | .variable _, _, _, _, _
  | .binary .., _, _, _, _ | .logic .., _, _, _, _ | .call .., _, _, _, _ =>
    iff_of_true .nil .nil
  | .unary op operand, printed, proper, shown, rest => by
    have reads := readsOperator_expr proper rfl shown rest
    obtain ⟨inner, shown', rfl, -, proper', same⟩ := exists_operand proper rfl shown
    rw [String.toList_append, List.append_assoc] at reads ⊢
    rw [same, readsChain_cons_iff, reads, readsChain_expr proper' shown', List.isChain_cons]
  | .logicPrefix op right, printed, proper, shown, rest => by
    have reads := readsOperator_expr proper rfl shown rest
    obtain ⟨inner, shown', rfl, -, proper', same⟩ := exists_operand proper rfl shown
    rw [String.toList_append, List.append_assoc] at reads ⊢
    rw [same, readsChain_cons_iff, reads, readsChain_expr proper' shown', List.isChain_cons]
  | .cast value type, printed, proper, shown, rest => by
    obtain ⟨inner, typeText, -, rfl, shownType⟩ := cast_eq_ok shown
    have proper' := (Expr.proper_cast.1 proper).2
    have front (rest : List Char) : dialect.ReadsChain (type.prefixes dialect)
        (typeText.toList ++ rest) ↔ (type.prefixes dialect).IsChain (¬dialect.Fuses · ·) := by
      rcases shownType with rfl | shownType
      · exact iff_of_true .nil .nil
      · exact readsChain_expr proper' shownType rest
    rw [Expr.prefixes]
    cases dialect with
    | c => exact iff_of_true .nil .nil
    | go =>
      simp only [Dialect.cast, String.toList_append, List.append_assoc, if_true]
      exact front _

end Emit

/-- An expression of a program that was read from a text can be printed with every table that knows
its names. Where an operator is printed in front of an operand it is read alone, as the longest
operator that stands there, exactly if it does not fuse with the operator that the operand starts
with; and the operators at the front of the text are read one by one exactly if no two neighbours
fuse. -/
theorem Program.reads_prefixes_of_emit {text : String} {program : Program}
    (read : ofText text = .ok program) {tree : Expr} (within : tree ∈ program.exprs)
    {table : ScopeTable Nat}
    (declared : ∀ name ∈ tree.names, name.isDotted = false → (table.get? name).isSome)
    (dialect : Dialect) : ∃ printed, Emit.expr dialect table tree = .ok printed ∧
      (∀ symbol operand, tree.prefixed? dialect = some (symbol, operand) →
        ∃ inner, Emit.expr dialect table operand = .ok inner ∧ printed = symbol ++ inner ∧
          ∀ rest, dialect.ReadsOperator symbol (printed.toList ++ rest) ↔
            ∀ next ∈ (operand.prefixes dialect).head?, ¬dialect.Fuses symbol next) ∧
      ∀ rest, dialect.ReadsChain (tree.prefixes dialect) (printed.toList ++ rest) ↔
        (tree.prefixes dialect).IsChain (¬dialect.Fuses · ·) := by
  have proper := proper_of_mem_exprs (allProper_of_ofText read) within
  obtain ⟨printed, shown⟩ := (Emit.expr_eq_ok_iff tree).2 fun name looked => by
    by_cases dotted : name.isDotted = true
    · exact .inl dotted
    · exact .inr (declared name (tree.looked_subset_names looked) (Bool.eq_false_iff.2 dotted))
  refine ⟨printed, shown, fun symbol operand prefixed => ?_, Emit.readsChain_expr proper shown⟩
  obtain ⟨inner, shown', same, -⟩ := Emit.exists_operand proper prefixed shown
  exact ⟨inner, shown', same, Emit.readsOperator_expr proper prefixed shown⟩

/-- The address of a complement: C reads `&~` as two operators, and Go reads `&^` as one. -/
theorem Program.reads_prefixes_of_emit_address_of_complement :
    let tree : Expr := .unary .addressOf (.unary .bitNot (.variable "a"))
    let table : ScopeTable Nat := ⟨[⟨none, [("a", .variable 0)]⟩], 0⟩
    ofText "& ~a" = .ok ⟨[], [.expr tree]⟩ ∧ tree ∈ (⟨[], [.expr tree]⟩ : Program).exprs ∧
      (∀ name ∈ tree.names, name.isDotted = false → (table.get? name).isSome) ∧
      Emit.expr .c table tree = .ok "&~a" ∧ Dialect.c.ReadsChain ["&", "~"] "&~a".toList ∧
      Emit.expr .go table tree = .ok "&^a" ∧ ¬Dialect.go.ReadsOperator "&" "&^a".toList := by
  intro tree table
  have cut : tokenize "& ~a" = .ok
      [⟨.mark .amp, "&", ⟨⟨0, 1, 0⟩, 1⟩⟩, ⟨.mark .tilde, "~", ⟨⟨2, 1, 2⟩, 3⟩⟩,
        ⟨.identifier, "a", ⟨⟨3, 1, 3⟩, 4⟩⟩, ⟨.eof, "EOF", ⟨⟨4, 1, 4⟩, 4⟩⟩] := by
    with_unfolding_all rfl
  have read : ofText "& ~a" = .ok ⟨[], [.expr tree]⟩ := (ofText_eq_of_tokenize cut).trans rfl
  have within : tree ∈ (⟨[], [.expr tree]⟩ : Program).exprs := List.mem_cons_self
  have declared : ∀ name ∈ tree.names, name.isDotted = false → (table.get? name).isSome := by
    decide
  have shownC : Emit.expr .c table tree = .ok "&~a" := rfl
  have shownGo : Emit.expr .go table tree = .ok "&^a" := rfl
  refine ⟨read, within, declared, shownC, ?_, shownGo, fun reads => ?_⟩
  · obtain ⟨printed, shown, -, chain⟩ := reads_prefixes_of_emit read within declared .c
    cases shownC.symm.trans shown
    have apart := (chain []).2 (by decide)
    rwa [List.append_nil] at apart
  · obtain ⟨printed, shown, places, -⟩ := reads_prefixes_of_emit read within declared .go
    cases shownGo.symm.trans shown
    obtain ⟨-, -, -, alone⟩ := places "&" (.unary .bitNot (.variable "a")) rfl
    have apart := (alone []).1 (by rwa [List.append_nil])
    exact apart "^" rfl (by decide)

/-- Not every operator that is printed in front of an operand is read alone. -/
theorem Program.not_reads_prefixes : ¬∀ (text : String) (program : Program),
    ofText text = .ok program → ∀ tree ∈ program.exprs, ∀ (dialect : Dialect) (table : ScopeTable Nat),
      (∀ name ∈ tree.names, name.isDotted = false → (table.get? name).isSome) →
        ∀ symbol operand printed, tree.prefixed? dialect = some (symbol, operand) →
          Emit.expr dialect table tree = .ok printed →
            dialect.ReadsOperator symbol printed.toList := by
  intro alone
  have cut : tokenize "- -1" = .ok
      [⟨.mark .minus, "-", ⟨⟨0, 1, 0⟩, 1⟩⟩, ⟨.mark .minus, "-", ⟨⟨2, 1, 2⟩, 3⟩⟩,
        ⟨.number, "1", ⟨⟨3, 1, 3⟩, 4⟩⟩, ⟨.eof, "EOF", ⟨⟨4, 1, 4⟩, 4⟩⟩] := by
    with_unfolding_all rfl
  have read : ofText "- -1" = .ok ⟨[], [.expr (.unary .negate (.unary .negate (.number "1" 1)))]⟩ :=
    (ofText_eq_of_tokenize cut).trans rfl
  have reads := alone _ _ read _ List.mem_cons_self .c ScopeTable.new (by decide) "-" _ "--1" rfl rfl
  exact absurd (reads.longest "--" (by decide) ⟨['1'], rfl⟩) (by decide)

end ScriptLang

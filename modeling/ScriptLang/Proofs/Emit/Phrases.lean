import ScriptLang.Proofs.Emit.Conditions
import ScriptLang.Proofs.Emit.Numbers
import ScriptLang.Proofs.Emit.Splitting
import ScriptLang.Proofs.Parser.Fronts
import ScriptLang.Proofs.Token.Pieces

/-!
# The phrases that expressions are printed as

A printed expression is cut into tokens that are an operand of the grammar: every operator between
operands brings its parentheses, and one in front of an operand is no part of a longer mark. What the
operand stands for is `Expr.reread`, which is the printed tree but for the word `not` and for the
numbers that the dialect writes in another way.
-/

namespace ScriptLang

open Grammar Lexeme

namespace Expr

section

variable (dialect : Dialect)

mutual

/-- The tree that the text of a tree is read as: the word `not` has become a mark, and a number is
spelled as the dialect spells it. -/
def reread : Expr → Expr
  | .number literal value => .number (dialect.number literal value) value
  | .string text => .string text
  | .variable name => .variable name
  | .unary op operand => .unary op (reread operand)
  | .binary op left right => .binary op (reread left) (reread right)
  | .cast value type => .cast (reread value) (reread type)
  | .logic op left right => .logic op (reread left) (reread right)
  | .logicPrefix .not right => .unary .not (reread right)
  | .logicPrefix op right => .logicPrefix op (reread right)
  | .call callee args => .call callee (rereadAll args)

/-- The trees that the texts of trees are read as. -/
def rereadAll : List Expr → List Expr
  | [] => []
  | first :: rest => reread first :: rereadAll rest

end

/-- A node whose text is read back in the dialect: no cast, no address of an address, and in Go no
complement, which Go writes as another operator. -/
def IsReadable : Expr → Prop
  | .cast .. => False
  | .unary .addressOf (.unary .addressOf _) => False
  | .unary .bitNot _ => dialect ≠ .go
  | _ => True

end

/-- What is an address when it is read again was an address before. -/
theorem eq_addressOf_of_reread {dialect : Dialect} {tree operand : Expr}
    (same : tree.reread dialect = .unary .addressOf operand) :
    ∃ inner, tree = .unary .addressOf inner := by
  unfold reread at same
  split at same <;> cases same
  exact ⟨_, rfl⟩

end Expr

namespace Grammar

/-- An expression of a level is one of each looser level. -/
theorem Derives.lift {low high : Nat} {tokens : List Token} {tree : Expr}
    (derived : Derives (.op low) tokens tree) (looser : low ≤ high) :
    Derives (.op high) tokens tree := by
  induction looser with
  | refl => exact derived
  | @step level _ ih =>
    have longer : Derives (.op (level + 1)) (tokens ++ []) tree := .level ih .alone
    rwa [List.append_nil] at longer

/-- An expression in parentheses is an operand. -/
theorem derives_parens {opening closing : Token} {tokens : List Token} {tree : Expr}
    (opens : opening.kind = .mark .openParen) (derived : Derives (.op 10) tokens tree)
    (closes : closing.kind = .mark .closeParen) :
    Derives (.op 0) (opening :: (tokens ++ [closing])) tree :=
  .operand (.parens opens derived closes)

/-- Two operands with an operator between them. -/
theorem derives_joined {level : Nat} {combine : Expr → Expr → Expr} {token : Token}
    {tokens tokens' : List Token} {left right : Expr}
    (joins : joining? token.kind = some (level + 1, combine)) (low : level + 1 ≤ 10)
    (first : Derives (.op 0) tokens left) (second : Derives (.op 0) tokens' right) :
    Derives (.op 10) (tokens ++ token :: tokens') (combine left right) := by
  have tail : Derives (.tail (level + 1)) (token :: (tokens' ++ [])) fun left => combine left right :=
    .joined joins (second.lift (Nat.zero_le level)) .alone
  have whole := Derives.level (first.lift (Nat.zero_le level)) tail
  rw [List.append_nil] at whole
  exact whole.lift low

end Grammar

/-- Nothing, or one of the characters that stand behind a printed expression. -/
def EndsExpr (rest : List Char) : Prop :=
  ∀ c ∈ rest.head?, c ∈ [' ', ')', ',']

section Pieces

variable {rest written written' : List Char} {tokens : List Token} {tree left right : Expr}

/-- Behind a printed expression no word goes on. -/
theorem EndsExpr.word (ends : EndsExpr rest) : ∀ c ∈ rest.head?, isIdentifierPart c = false := by
  have table : [' ', ')', ','].all (!isIdentifierPart ·) := by decide
  exact fun c front => by simpa using List.all_eq_true.1 table c (ends c front)

/-- Behind a printed expression no number goes on. -/
theorem EndsExpr.number (ends : EndsExpr rest) : ∀ c ∈ rest.head?, isNumberPart c = false := by
  have table : [' ', ')', ','].all (!isNumberPart ·) := by decide
  exact fun c front => by simpa using List.all_eq_true.1 table c (ends c front)

/-- No expression is derived from nothing. -/
theorem not_derives_nil {level : Nat} (low : level ≤ 7) : ¬Derives (.op level) [] tree := by
  intro derived
  exact absurd (derived.fronts.expr low) (by decide)

/-- The mark `&` in front of an operand takes the address of it. -/
theorem exists_addressOf {token : Token} (derived : Derives (.op 0) (token :: tokens) tree)
    (isAmp : token.kind = .mark .amp) : ∃ operand, tree = .unary .addressOf operand := by
  cases derived with
  | operand derived =>
    have fronts := derived.fronts
    rw [Fronts, Token.frontKind_cons, isAmp] at fronts
    exact absurd fronts (by decide)
  | prefixed stands =>
    rw [isAmp] at stands
    cases stands
    exact ⟨_, rfl⟩

/-- Where an expression begins no mark stands that starts with an equals sign, and one that starts
with `&` only if the expression is the address of something. -/
theorem front_of_cutsInto (cut : CutsInto written rest (Derives (.op 0) · tree)) :
    ∀ c ∈ (written ++ rest).head?,
      c ≠ '=' ∧ (c = '&' → ∃ operand, tree = .unary .addressOf operand) := by
  intro c front
  obtain ⟨text, same⟩ : ∃ text, written ++ rest = c :: text := ⟨_, List.eq_cons_of_mem_head? front⟩
  obtain ⟨tokens, behind, reads, derived⟩ := cut Position.start
  rw [same] at reads
  generalize (⟨rest, behind⟩ : Cursor) = final at reads
  cases reads with
  | nil => exact absurd derived (not_derives_nil (by decide))
  | @cons _ _ _ token tokens cuts =>
    have starts : token.kind ∈ exprFronts := derived.fronts.expr (by decide)
    constructor
    · rintro rfl
      obtain ⟨other, isMark, longer⟩ :=
        @Cursor.Cuts.exists_mark _ _ _ cuts .assign ⟨text, rfl⟩ (by decide)
      have table : ∀ other ∈ Mark.longestFirst,
          Mark.assign.spelling.toList <+: other.spelling.toList → .mark other ∉ exprFronts := by
        decide +kernel
      exact absurd (isMark ▸ starts) (table other (Mark.mem_longestFirst other) longer)
    · rintro rfl
      obtain ⟨other, isMark, longer⟩ :=
        @Cursor.Cuts.exists_mark _ _ _ cuts .amp ⟨text, rfl⟩ (by decide)
      have table : ∀ other ∈ Mark.longestFirst, Mark.amp.spelling.toList <+: other.spelling.toList →
          .mark other ∈ exprFronts → other = .amp := by
        decide +kernel
      obtain rfl := table other (Mark.mem_longestFirst other) longer (isMark ▸ starts)
      exact exists_addressOf derived isMark

/-- An operator in front of an operand. -/
theorem cutsInto_prefixed {sign : Mark} {op : UnaryOp} (stands : Prefix (.mark sign) op)
    (apart : op = .addressOf → ∀ operand, tree ≠ .unary .addressOf operand)
    (cut : CutsInto written rest (Derives (.op 0) · tree)) :
    CutsInto (sign.spelling.toList ++ written) rest (Derives (.op 0) · (.unary op tree)) := by
  have front := front_of_cutsInto cut
  have alone : ∀ c ∈ (written ++ rest).head?, c ∉ sign.fusing := by
    intro c first
    obtain ⟨equals, ampersand⟩ := front c first
    cases stands with
    | addressOf =>
      intro fuses
      obtain ⟨operand, same⟩ := ampersand (List.mem_singleton.1 fuses)
      exact apart rfl operand same
    | deref | negate | plus | not => exact fun fuses => equals (List.mem_singleton.1 fuses)
    | bitNot => exact List.not_mem_nil
  refine (cutsInto_mark alone).append cut ?_
  rintro _ tokens ⟨token, rfl, isMark⟩ derived
  exact .prefixed (isMark ▸ stands) derived

/-- What stands in parentheses. -/
theorem cutsInto_parentheses {property final : List Token → Prop}
    (cut : CutsInto written (')' :: rest) property)
    (both : ∀ opening closing : Token, ∀ tokens, opening.kind = .mark .openParen →
      closing.kind = .mark .closeParen → property tokens → final (opening :: (tokens ++ [closing]))) :
    CutsInto ('(' :: (written ++ [')'])) rest final := by
  have opening := @cutsInto_mark (written ++ [')'] ++ rest) .openParen (by simp [Mark.fusing])
  have closing := @cutsInto_mark rest .closeParen (by simp [Mark.fusing])
  have behind : CutsInto (written ++ [')']) rest fun tokens => ∃ inner, ∃ closing : Token,
      tokens = inner ++ [closing] ∧ closing.kind = .mark .closeParen ∧ property inner := by
    refine cut.append closing ?_
    rintro tokens _ holds ⟨closing, rfl, closes⟩
    exact ⟨tokens, closing, rfl, closes, holds⟩
  refine opening.append behind ?_
  rintro _ _ ⟨opening, rfl, opens⟩ ⟨tokens, closing, rfl, closes, holds⟩
  exact both opening closing tokens opens closes holds

/-- An operator between two operands, in parentheses. -/
theorem cutsInto_between {level : Nat} {sign : Mark} {combine : Expr → Expr → Expr}
    {first second : String} (joins : joining? (.mark sign) = some (level + 1, combine))
    (low : level + 1 ≤ 10)
    (cut : ∀ rest, EndsExpr rest → CutsInto first.toList rest (Derives (.op 0) · left))
    (cut' : ∀ rest, EndsExpr rest → CutsInto second.toList rest (Derives (.op 0) · right)) :
    CutsInto (Emit.between sign.spelling first second).toList rest
      (Derives (.op 0) · (combine left right)) := by
  have symbol := @cutsInto_mark (' ' :: second.toList ++ ')' :: rest) sign
    (by simpa using Mark.blank_not_mem_fusing sign)
  have symbol' := symbol.blank (by simp)
  have operand := (cut' (')' :: rest) (by simp [EndsExpr])).blank (not_derives_nil (by decide))
  have behind : CutsInto (' ' :: sign.spelling.toList ++ ' ' :: second.toList) (')' :: rest)
      fun tokens => ∃ token : Token, ∃ tokens', tokens = token :: tokens' ∧ token.kind = .mark sign ∧
        Derives (.op 0) tokens' right := by
    refine symbol'.append operand ?_
    rintro _ tokens ⟨token, rfl, isMark⟩ derived
    exact ⟨token, tokens, rfl, isMark, derived⟩
  have inner : CutsInto (first.toList ++ (' ' :: sign.spelling.toList ++ ' ' :: second.toList))
      (')' :: rest) (Derives (.op 10) · (combine left right)) := by
    refine (cut _ (by simp [EndsExpr])).append behind ?_
    rintro tokens _ derived ⟨token, tokens', rfl, isMark, derived'⟩
    exact derives_joined (isMark ▸ joins) low derived derived'
  have whole : CutsInto
      ('(' :: (first.toList ++ (' ' :: sign.spelling.toList ++ ' ' :: second.toList) ++ [')'])) rest
      (Derives (.op 0) · (combine left right)) :=
    cutsInto_parentheses inner fun _ _ _ opens closes derived => derives_parens opens derived closes
  simpa [Emit.between] using whole

/-- A name with arguments. -/
theorem cutsInto_call {name : Name} {args : List Expr} (proper : name.Proper)
    (cut : CutsInto ('(' :: written) rest (Derives .args · args)) :
    CutsInto (name.toList ++ '(' :: written) rest (Derives (.op 0) · (.call name args)) := by
  refine (cutsInto_name proper (by simp; decide)).append cut fun _ _ known derived => ?_
  exact .operand (.call known derived)

/-- An expression in front of others. -/
theorem cutsInto_listed {first others : String} {trees : List Expr}
    (cut : ∀ rest, EndsExpr rest → CutsInto first.toList rest (Derives (.op 0) · tree))
    (cut' : CutsInto others.toList rest (Derives .exprs · trees)) :
    CutsInto (first ++ ", " ++ others).toList rest (Derives .exprs · (tree :: trees)) := by
  have comma := @cutsInto_mark (' ' :: others.toList ++ rest) .comma (by simp [Mark.fusing])
  have behind : CutsInto (',' :: ' ' :: others.toList) rest fun tokens => ∃ comma : Token, ∃ tokens',
      tokens = comma :: tokens' ∧ comma.kind = .mark .comma ∧ Derives .exprs tokens' trees := by
    have nonempty : ¬Derives .exprs [] trees := fun derived =>
      absurd (show _ ∈ exprFronts from derived.fronts) (by decide)
    refine comma.append (cut'.blank nonempty) ?_
    rintro _ tokens ⟨comma, rfl, isComma⟩ derived
    exact ⟨comma, tokens, rfl, isComma, derived⟩
  have whole : CutsInto (first.toList ++ ',' :: ' ' :: others.toList) rest
      (Derives .exprs · (tree :: trees)) := by
    refine (cut _ (by simp [EndsExpr])).append behind ?_
    rintro tokens _ derived ⟨comma, tokens', rfl, isComma, derived'⟩
    exact .moreExprs (derived.lift (by decide)) isComma derived'
  simpa using whole

end Pieces

namespace Emit

variable {dialect : Dialect} {table : ScopeTable Nat}

/-- The operators in front of operands are printed as marks of the grammar. -/
theorem exists_sign {op : UnaryOp} (readable : op = .bitNot → dialect ≠ .go) :
    ∃ sign, Prefix (.mark sign) op ∧ dialect.unarySymbol op = Mark.spelling sign := by
  cases op with
  | negate => exact ⟨_, .negate, by cases dialect <;> rfl⟩
  | plus => exact ⟨_, .plus, by cases dialect <;> rfl⟩
  | deref => exact ⟨_, .deref, by cases dialect <;> rfl⟩
  | addressOf => exact ⟨_, .addressOf, by cases dialect <;> rfl⟩
  | not => exact ⟨_, .not, by cases dialect <;> rfl⟩
  | bitNot =>
    cases dialect with
    | c => exact ⟨_, .bitNot, rfl⟩
    | go => exact absurd rfl (readable rfl)

/-- The operators on words are printed as marks of the grammar. -/
theorem exists_joining_binary (op : BinaryOp) : ∃ sign level,
    joining? (.mark sign) = some (level + 1, .binary op) ∧ level + 1 ≤ 10 ∧
      op.symbol = Mark.spelling sign := by
  cases op with
  | add => exact ⟨.plus, _, rfl, by decide, rfl⟩
  | sub => exact ⟨.minus, _, rfl, by decide, rfl⟩
  | mul => exact ⟨.star, _, rfl, by decide, rfl⟩
  | div => exact ⟨.slash, _, rfl, by decide, rfl⟩
  | bitAnd => exact ⟨.amp, _, rfl, by decide, rfl⟩
  | bitOr => exact ⟨.pipe, _, rfl, by decide, rfl⟩
  | bitXor => exact ⟨.caret, _, rfl, by decide, rfl⟩

/-- The operators that give a truth value are printed as marks of the grammar, the words `and` and
`or` too. -/
theorem exists_joining_logic {op : LogicOp} (joins : op ≠ .not) : ∃ sign level,
    joining? (.mark sign) = some (level + 1, .logic op) ∧ level + 1 ≤ 10 ∧
      op.symbol = Mark.spelling sign := by
  cases op with
  | and => exact ⟨.ampAmp, _, rfl, by decide, rfl⟩
  | or => exact ⟨.pipePipe, _, rfl, by decide, rfl⟩
  | not => exact absurd rfl joins
  | equal => exact ⟨.equal, _, rfl, by decide, rfl⟩
  | notEqual => exact ⟨.notEqual, _, rfl, by decide, rfl⟩
  | less => exact ⟨.less, _, rfl, by decide, rfl⟩
  | lessEqual => exact ⟨.lessEqual, _, rfl, by decide, rfl⟩
  | greater => exact ⟨.greater, _, rfl, by decide, rfl⟩
  | greaterEqual => exact ⟨.greaterEqual, _, rfl, by decide, rfl⟩

mutual

/-- A printed expression is cut into tokens that stand for the tree that it is read as. -/
theorem cutsInto_expr : ∀ {tree : Expr} {text : String}, tree.Proper →
    (∀ node ∈ tree.nodes, node.IsReadable dialect) → expr dialect table tree = .ok text →
      ∀ rest, EndsExpr rest → CutsInto text.toList rest (Derives (.op 0) · (tree.reread dialect))
  | .number literal value, _, proper, readable, printed, rest, ends => by
      obtain rfl := Except.ok.inj printed
      have numeral := dialect.isNumeral_number (Expr.proper_number.1 proper)
      exact cutsInto_lexeme (isLexeme_number numeral ends.number) (by decide)
        fun _ => .operand (.number rfl numeral.denotes)
  | .string text, _, proper, readable, printed, rest, ends => by
      obtain rfl := Except.ok.inj printed
      have wrote : IsLexeme .string text ('"' :: text.toList ++ ['"']) rest :=
        isLexeme_string (Expr.proper_string.1 proper)
      simpa using cutsInto_lexeme wrote (by decide) fun _ => .operand (.string rfl)
  | .variable name, _, proper, readable, printed, rest, ends => by
      rw [expr] at printed
      obtain ⟨-, -, same⟩ := exists_of_bind_eq_ok printed
      obtain rfl := Except.ok.inj same
      have cut := cutsInto_name (Expr.proper_variable.1 proper) ends.word
      exact cut.weaken fun _ known => .operand (.named known)
  | .unary op operand, _, proper, readable, printed, rest, ends => by
      rw [expr] at printed
      obtain ⟨inner, shown, same⟩ := exists_of_bind_eq_ok printed
      obtain rfl := Except.ok.inj same
      obtain ⟨root, readable⟩ := List.forall_mem_cons.1 readable
      have cut := cutsInto_expr (Expr.proper_unary.1 proper) readable shown rest ends
      obtain ⟨sign, stands, symbol⟩ := @exists_sign dialect op (by rintro rfl; exact root)
      rw [symbol, String.toList_append]
      refine cutsInto_prefixed stands ?_ cut
      -- Two address marks in a row would be read as one mark, so the operand must be no address.
      rintro rfl operand' same
      obtain ⟨inner, rfl⟩ := Expr.eq_addressOf_of_reread same
      exact root
  | .binary op left right, _, proper, readable, printed, rest, ends => by
      rw [expr] at printed
      obtain ⟨first, shown, printed⟩ := exists_of_bind_eq_ok printed
      obtain ⟨second, shown', same⟩ := exists_of_bind_eq_ok printed
      obtain rfl := Except.ok.inj same
      obtain ⟨proper, proper'⟩ := Expr.proper_binary.1 proper
      obtain ⟨readable, readable'⟩ := List.forall_mem_append.1 (List.forall_mem_cons.1 readable).2
      obtain ⟨sign, level, joins, low, symbol⟩ := exists_joining_binary op
      rw [symbol]
      exact cutsInto_between joins low (cutsInto_expr proper readable shown)
        (cutsInto_expr proper' readable' shown')
  | .cast value type, _, _, readable, _, _, _ => (readable _ List.mem_cons_self).elim
  | .logic op left right, _, proper, readable, printed, rest, ends => by
      obtain ⟨operator, proper, proper'⟩ := Expr.proper_logic.1 proper
      rw [expr] at printed
      · obtain ⟨second, shown', printed⟩ := exists_of_bind_eq_ok printed
        obtain ⟨first, shown, same⟩ := exists_of_bind_eq_ok printed
        obtain rfl := Except.ok.inj same
        obtain ⟨readable, readable'⟩ := List.forall_mem_append.1 (List.forall_mem_cons.1 readable).2
        obtain ⟨sign, level, joins, low, symbol⟩ := exists_joining_logic operator
        rw [symbol]
        exact cutsInto_between joins low (cutsInto_expr proper readable shown)
          (cutsInto_expr proper' readable' shown')
      · exact operator
  | .logicPrefix op right, _, proper, readable, printed, rest, ends => by
      obtain ⟨rfl, proper'⟩ := Expr.proper_logicPrefix.1 proper
      rw [expr] at printed
      obtain ⟨inner, shown, same⟩ := exists_of_bind_eq_ok printed
      obtain rfl := Except.ok.inj same
      have cut := cutsInto_expr proper' (List.forall_mem_cons.1 readable).2 shown rest ends
      rw [String.toList_append]
      exact @cutsInto_prefixed _ _ _ .bang .not .not nofun cut
  | .call callee [], _, proper, _, printed, rest, _ => by
      rw [expr] at printed
      obtain ⟨-, -, printed⟩ := exists_of_bind_eq_ok printed
      obtain ⟨inner, shown, same⟩ := exists_of_bind_eq_ok printed
      obtain rfl := Except.ok.inj shown
      obtain rfl := Except.ok.inj same
      have args : CutsInto ('(' :: ([] ++ [')'])) rest
          (Derives .args · (Expr.rereadAll dialect [])) :=
        cutsInto_parentheses (cutsInto_nil _ rfl) fun _ _ _ opens closes none =>
          none ▸ .noArgs opens closes
      simpa [Dialect.listed, Expr.reread] using cutsInto_call (Expr.proper_call.1 proper).1 args
  | .call callee (first :: others), _, proper, readable, printed, rest, _ => by
      rw [expr] at printed
      obtain ⟨-, -, printed⟩ := exists_of_bind_eq_ok printed
      obtain ⟨inner, shown, same⟩ := exists_of_bind_eq_ok printed
      obtain rfl := Except.ok.inj same
      obtain ⟨known, proper⟩ := Expr.proper_call.1 proper
      have cut := cutsInto_exprs (List.cons_ne_nil _ _) proper (List.forall_mem_cons.1 readable).2
        shown (')' :: rest) (by simp [EndsExpr])
      have args : CutsInto ('(' :: ((Dialect.listed inner).toList ++ [')'])) rest
          (Derives .args · (Expr.rereadAll dialect (first :: others))) :=
        cutsInto_parentheses cut fun _ _ _ opens closes derived => .someArgs opens derived closes
      simpa [Expr.reread] using cutsInto_call known args

/-- Printed expressions with commas between them are cut into tokens that stand for the trees that
they are read as. -/
theorem cutsInto_exprs : ∀ {trees : List Expr} {texts : List String}, trees ≠ [] →
    (∀ tree ∈ trees, tree.Proper) → (∀ node ∈ Expr.allNodes trees, node.IsReadable dialect) →
      exprs dialect table trees = .ok texts → ∀ rest, EndsExpr rest →
        CutsInto (Dialect.listed texts).toList rest
          (Derives .exprs · (Expr.rereadAll dialect trees))
  | [], _, more, _, _, _, _, _ => absurd rfl more
  | [tree], _, _, proper, readable, printed, rest, ends => by
      rw [exprs] at printed
      obtain ⟨text, shown, printed⟩ := exists_of_bind_eq_ok printed
      obtain ⟨texts, shown', same⟩ := exists_of_bind_eq_ok printed
      obtain rfl := Except.ok.inj shown'
      obtain rfl := Except.ok.inj same
      have readable' := (List.forall_mem_append.1 readable).1
      have cut := cutsInto_expr (proper tree List.mem_cons_self) readable' shown rest ends
      simpa [Dialect.listed] using cut.weaken fun _ derived => .oneExpr (derived.lift (by decide))
  | tree :: next :: trees, _, _, proper, readable, printed, rest, ends => by
      rw [exprs] at printed
      obtain ⟨text, shown, printed⟩ := exists_of_bind_eq_ok printed
      obtain ⟨texts, shown', same⟩ := exists_of_bind_eq_ok printed
      obtain rfl := Except.ok.inj same
      obtain ⟨readable, readable'⟩ := List.forall_mem_append.1 readable
      obtain ⟨proper, proper'⟩ := List.forall_mem_cons.1 proper
      have others := cutsInto_exprs (List.cons_ne_nil _ _) proper' readable' shown' rest ends
      have more : texts ≠ [] := by
        rintro rfl
        cases forall₂_of_exprs shown'
      rw [Dialect.listed, String.intercalate_cons_of_ne_nil more]
      exact cutsInto_listed (cutsInto_expr proper readable shown) others

end

end Emit

end ScriptLang

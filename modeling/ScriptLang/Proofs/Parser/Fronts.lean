import ScriptLang.Proofs.Parser.Levels
import ScriptLang.Proofs.Parser.Reading

/-!
# How phrases start

The kinds of tokens that a phrase of the grammar can start with. They tell which way the parser goes,
and they tell that one phrase ends where the next one starts.
-/

namespace ScriptLang

/-- Tokens that do not start with the end of the text start alike whatever stands behind them. -/
theorem Token.frontKind_append {tokens : List Token} (more : Token.frontKind tokens ≠ .eof)
    (rest : List Token) : Token.frontKind (tokens ++ rest) = Token.frontKind tokens := by
  cases tokens with
  | nil => exact absurd rfl more
  | cons token tokens => rfl

/-- The kind that tokens start with is the one that they start with in front of others. -/
theorem Token.frontKind_append_eq {tokens : List Token} {kind : Token.Kind}
    (front : Token.frontKind tokens = kind) (more : kind ≠ .eof) (rest : List Token) :
    Token.frontKind (tokens ++ rest) = kind := by
  rw [Token.frontKind_append (front ▸ more), front]

namespace Grammar

/-- The kinds of tokens that an operand without operators can start with. -/
def factorFronts : List Token.Kind :=
  [.number, .string, .identifier, .mark .openParen]

/-- The kinds of tokens that an expression can start with. -/
def exprFronts : List Token.Kind :=
  [.mark .star, .mark .minus, .mark .plus, .mark .amp, .mark .bang, .mark .tilde] ++ factorFronts

/-- The kinds of tokens that a statement can start with unless it is empty. -/
def stmtFronts : List Token.Kind :=
  [.mark .openBrace, .keyword .cond, .keyword .func, .keyword .ret, .keyword .var] ++ exprFronts

/-- The kinds of tokens that stand behind a name in the targets of an assignment but, the dot apart,
never behind one in an expression. -/
def targetMarks : List Token.Kind :=
  [.mark .dot, .mark .comma, .mark .assign, .mark .plusAssign, .mark .minusAssign,
    .mark .starAssign, .mark .slashAssign]

/-- No mark behind a target joins two operands. -/
theorem joining?_of_mem_targetMarks : ∀ kind ∈ targetMarks, joining? kind = none := by
  decide

/-- A comma and the assignment operators are marks that stand behind a target. -/
theorem mem_targetMarks_of_assigns {kind : Token.Kind}
    (assigns : kind = .mark .comma ∨ kind.assigns = true) : kind ∈ targetMarks := by
  rcases assigns with rfl | assigns
  · decide
  · cases kind with
    | mark sign => cases sign <;> first | decide | cases assigns
    | _ => cases assigns

/-- An operator in front of an operand can start an expression. -/
theorem Prefix.mem_exprFronts {kind : Token.Kind} {op : UnaryOp} (stands : Prefix kind op) :
    kind ∈ exprFronts := by
  cases stands <;> decide

/-- No operand starts with an operator that could stand in front of one. -/
theorem unaryOp?_of_mem_factorFronts : ∀ kind ∈ factorFronts, Parse.unaryOp? kind = none := by
  decide

/-- An operand without operators can start an expression. -/
theorem mem_exprFronts {kind : Token.Kind} (starts : kind ∈ factorFronts) : kind ∈ exprFronts :=
  List.mem_append_right _ starts

/-- An expression can start a statement. -/
theorem mem_stmtFronts {kind : Token.Kind} (starts : kind ∈ exprFronts) : kind ∈ stmtFronts :=
  List.mem_append_right _ starts

section Names

variable {tokens : List Token} {name : Name} {names : List Name}

/-- A name starts with an identifier. -/
theorem IsName.front (known : IsName tokens name) : Token.frontKind tokens = .identifier := by
  induction known with
  | word isWord => exact isWord
  | dotted _ _ _ ih => exact Token.frontKind_append_eq ih (by decide) _

/-- Behind the first word of a name stands a dot or nothing. -/
theorem IsName.exists_word (known : IsName tokens name) : ∃ word others, tokens = word :: others ∧
    (others = [] ∨ Token.frontKind others = .mark .dot) := by
  induction known with
  | @word word isWord => exact ⟨word, [], rfl, .inl rfl⟩
  | @dotted _ _ dot token _ isDot _ ih =>
    obtain ⟨word, others, rfl, shape⟩ := ih
    refine ⟨word, others ++ [dot, token], rfl, .inr ?_⟩
    rcases shape with rfl | shape
    · exact isDot
    · exact Token.frontKind_append_eq shape (by decide) _

/-- A list of names starts with an identifier. -/
theorem IsNames.front (known : IsNames tokens names) : Token.frontKind tokens = .identifier := by
  cases known with
  | one known => exact known.front
  | more known => exact Token.frontKind_append_eq known.front (by decide) _

/-- A list of parameters starts with an opening parenthesis. -/
theorem IsParams.front (known : IsParams tokens names) :
    Token.frontKind tokens = .mark .openParen := by
  cases known with
  | none opens => exact opens
  | some opens => exact opens

end Names

/-- How a phrase starts. -/
def Fronts : (phrase : Phrase) → List Token → phrase.Tree → Prop
  | .factor, tokens, _ => Token.frontKind tokens ∈ factorFronts
  | .args, tokens, _ => Token.frontKind tokens = .mark .openParen
  | .op level, tokens, _ =>
      Token.frontKind tokens ∈ exprFronts ∨ 7 < level ∧ Token.frontKind tokens = .keyword .not
  | .tail level, tokens, _ =>
      tokens = [] ∨ ∃ combine, joining? (Token.frontKind tokens) = some (level, combine)
  | .exprs, tokens, _ => Token.frontKind tokens ∈ exprFronts
  | .stmt, tokens, stmt => Token.frontKind tokens ∈ stmtFronts ∨ tokens = [] ∧ stmt = .empty
  | .arm, tokens, _ => Token.frontKind tokens ∈ [.mark .openBrace, .keyword .thenArm]
  | .otherwise, tokens, tree =>
      Token.frontKind tokens = .keyword .elseArm ∧ tree.isSome ∨ tokens = [] ∧ tree = none
  | .stmts, tokens, body =>
      Token.frontKind tokens ∈ .lineBreak :: stmtFronts ∨ tokens = [] ∧ body = []
  | .braced, tokens, _ => Token.frontKind tokens = .mark .openBrace

/-- Tokens whose first kind is one of several, none of them the end, start with one of these in
front of others. -/
theorem frontKind_append_mem {tokens : List Token} {kinds : List Token.Kind}
    (starts : Token.frontKind tokens ∈ kinds) (other : .eof ∉ kinds) (rest : List Token) :
    Token.frontKind (tokens ++ rest) ∈ kinds := by
  rwa [Token.frontKind_append (ne_of_mem_of_not_mem starts other)]

/-- Without words an expression starts with an operand or an operator in front of one. -/
theorem Fronts.expr {level : Nat} {tokens : List Token} {tree : Expr}
    (fronts : Fronts (.op level) tokens tree) (low : level ≤ 7) :
    Token.frontKind tokens ∈ exprFronts := by
  rcases fronts with starts | ⟨high, -⟩
  · exact starts
  · omega

/-- Every phrase of the grammar starts with one of the kinds that are listed for it. -/
theorem Derives.fronts {phrase : Phrase} {tokens : List Token} {tree : phrase.Tree}
    (derived : Derives phrase tokens tree) : Fronts phrase tokens tree := by
  induction derived with
  | number isNumber => simp [Fronts, isNumber, factorFronts]
  | string isString => simp [Fronts, isString, factorFronts]
  | parens opens => simp [Fronts, opens, factorFronts]
  | named known => simp [Fronts, known.front, factorFronts]
  | call known =>
    exact frontKind_append_mem (by simp [known.front, factorFronts]) (by decide) _
  | noArgs opens => exact opens
  | someArgs opens => exact opens
  | operand _ ih => exact .inl (mem_exprFronts ih)
  | prefixed stands => exact .inl stands.mem_exprFronts
  | negated isNot => exact .inr ⟨by decide, isNot⟩
  | level _ _ ih =>
    rcases ih with starts | ⟨high, isNot⟩
    · exact .inl (frontKind_append_mem starts (by decide) _)
    · exact .inr ⟨by omega, Token.frontKind_append_eq isNot (by decide) _⟩
  | alone => exact .inl rfl
  | joined joins => exact .inr ⟨_, joins⟩
  | oneExpr _ ih => exact ih.expr (by decide)
  | moreExprs _ _ _ ih => exact frontKind_append_mem (ih.expr (by decide)) (by decide) _
  | block _ ih => exact .inl (by simp [show _ = _ from ih, stmtFronts])
  | branch branches => exact .inl (by simp [branches, stmtFronts])
  | func defines => exact .inl (by simp [defines, stmtFronts])
  | ret returns => exact .inl (by simp [returns, stmtFronts])
  | declare declares => exact .inl (by simp [declares, stmtFronts])
  | assign names =>
    exact .inl (frontKind_append_mem (by rw [names.front]; decide) (by decide) _)
  | expr _ ih => exact .inl (mem_stmtFronts (ih.expr (by decide)))
  | empty => exact .inr ⟨rfl, rfl⟩
  | bracedArm _ ih => exact List.mem_cons.mpr (.inl ih)
  | thenArm isThen => simp [Fronts, isThen]
  | noElse => exact .inr ⟨rfl, rfl⟩
  | elseArm isElse => exact .inl ⟨isElse, rfl⟩
  | last _ ih =>
    rcases ih with starts | ⟨rfl, rfl⟩
    · exact .inl (List.mem_cons_of_mem _ starts)
    · exact .inr ⟨rfl, rfl⟩
  | next _ isBreak _ ih =>
    refine .inl ?_
    rcases ih with starts | ⟨rfl, rfl⟩
    · exact frontKind_append_mem (List.mem_cons_of_mem _ starts) (by decide) _
    · exact List.mem_cons.mpr (.inl isBreak)
  | braced opens => exact opens

/-- No statements stand in no tokens. -/
theorem Derives.eq_nil {body : List Stmt} (derived : Derives .stmts [] body) : body = [] := by
  rcases derived.fronts with starts | ⟨-, nothing⟩
  · exact absurd starts (by decide)
  · exact nothing

/-- On the level of `not` nothing stands behind the first operand. -/
theorem Derives.eq_nil_of_tail_eight {tokens : List Token} {joins : Expr → Expr}
    (derived : Derives (.tail 8) tokens joins) : tokens = [] ∧ joins = id := by
  cases derived with
  | alone => exact ⟨rfl, rfl⟩
  | joined operator => exact absurd operator joining?_ne_eight

/-- What joins operands is no end of the input. -/
theorem ne_eof_of_joining {kind : Token.Kind} {level : Nat} {combine : Expr → Expr → Expr}
    (operator : joining? kind = some (level, combine)) : kind ≠ .eof := by
  rintro rfl
  cases operator

/-- An expression that ends in front of some tokens has ended there on each tighter level. -/
theorem Derives.lt_reach_append {level inner : Nat} {tokens rest : List Token}
    {joins : Expr → Expr} (derived : Derives (.tail level) tokens joins) (tighter : inner < level)
    (ends : level < reach (Token.frontKind rest)) :
    inner < reach (Token.frontKind (tokens ++ rest)) := by
  rcases derived.fronts with rfl | ⟨combine, operator⟩
  · exact Nat.lt_trans tighter ends
  · rw [Token.frontKind_append (ne_eof_of_joining operator), reach_of_joining operator]
    exact tighter

/-- Operators behind an operand are no targets. -/
theorem Derives.not_mem_targetMarks {level : Nat} {tokens rest : List Token} {joins : Expr → Expr}
    (derived : Derives (.tail level) tokens joins) (other : Token.frontKind rest ∉ targetMarks) :
    Token.frontKind (tokens ++ rest) ∉ targetMarks := by
  rcases derived.fronts with rfl | ⟨combine, operator⟩
  · exact other
  · intro stands
    rw [Token.frontKind_append (ne_eof_of_joining operator)] at stands
    rw [joining?_of_mem_targetMarks _ stands] at operator
    cases operator

end Grammar

end ScriptLang

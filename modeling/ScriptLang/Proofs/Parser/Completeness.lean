import ScriptLang.Proofs.Parser.Fronts

/-!
# The parser reads every expression of the grammar

In front of a token that does not continue it, the parser reads each expression whole and gives the
tree that it stands for. The statement for a level holds in front of every token that no expression of
the level goes on with, so that in a chain of operators each operand ends where the next operator
stands. An expression that starts with a name can be read in two steps, the name first.
-/

namespace ScriptLang

namespace Parse

open Grammar

section Parts

variable {α : Type} {tokens middle rest : List Token}

/-- The last of some items is followed by something else than a comma. -/
theorem yields_commaSeparated_one {item : Parse TokenList α} {value : α}
    (here : Yields item tokens value rest) (other : Token.frontKind rest ≠ .mark .comma)
    (count : Nat) : Yields (commaSeparated item count) tokens [value] rest := by
  cases count with
  | zero => exact yields_exhausted
  | succ count => exact here.bind ((yields_accept_other other).bind (yields_pure _ _))

/-- An item, a comma and further items are read as a list of items. -/
theorem yields_commaSeparated_more {item : Parse TokenList α} {value : α} {values : List α}
    {comma : Token} (here : Yields item tokens value (comma :: middle))
    (isComma : comma.kind = .mark .comma)
    (there : ∀ count, Yields (commaSeparated item count) middle values rest) (count : Nat) :
    Yields (commaSeparated item count) tokens (value :: values) rest := by
  cases count with
  | zero => exact yields_exhausted
  | succ count =>
    exact here.bind ((yields_accept isComma).bind ((there count).bind (yields_pure _ _)))

/-- Where no operator stands the operands on the left are all. -/
theorem yields_leftAssociated_none {operator? : Token.Kind → Option (α → α → α)}
    {operand : Parse TokenList α} (other : operator? (Token.frontKind rest) = none) (left : α)
    (count : Nat) : Yields (leftAssociated operator? operand count left) rest left rest := by
  cases count with
  | zero => exact yields_exhausted
  | succ count => exact (yields_take_none other).bind (yields_pure _ _)

/-- Behind a left operand an operator, its right operand and what goes on behind them are read. -/
theorem yields_leftAssociated_some {operator? : Token.Kind → Option (α → α → α)}
    {operand : Parse TokenList α} {token : Token} {combine : α → α → α} {left right result : α}
    (joins : operator? token.kind = some combine) (here : Yields operand tokens right middle)
    (there : ∀ count,
      Yields (leftAssociated operator? operand count (combine left right)) middle result rest)
    (count : Nat) :
    Yields (leftAssociated operator? operand count left) (token :: tokens) result rest := by
  cases count with
  | zero => exact yields_exhausted
  | succ count => exact (yields_take joins).bind (here.bind (there count))

/-- A name is read word by word: what holds behind its words holds of the name. -/
theorem yields_name_of_nameRest {name whole : Name} (known : IsName tokens name)
    (there : ∀ fuel, Yields (nameRest fuel name) middle whole rest) (fuel : Nat) :
    Yields (Parse.name fuel) (tokens ++ middle) whole rest := by
  induction known generalizing middle with
  | word isWord => exact (yields_eat isWord).bind (there fuel)
  | dotted _ isDot isWord ih =>
    rw [List.append_assoc]
    refine ih fun fuel => ?_
    cases fuel with
    | zero => exact yields_exhausted
    | succ fuel => exact (yields_accept isDot).bind ((yields_eat isWord).bind (there fuel))

/-- A name is read whole if no dot stands behind it. -/
theorem yields_name {name : Name} (known : IsName tokens name)
    (ends : Token.frontKind rest ≠ .mark .dot) (fuel : Nat) :
    Yields (Parse.name fuel) (tokens ++ rest) name rest := by
  refine yields_name_of_nameRest known (fun fuel => ?_) fuel
  cases fuel with
  | zero => exact yields_exhausted
  | succ fuel => exact (yields_accept_other ends).bind (yields_pure _ _)

/-- Names with commas between them are read whole if neither a dot nor a comma stands behind
them. -/
theorem yields_names {names : List Name} (known : IsNames tokens names)
    (ends : Token.frontKind rest ∉ [.mark .dot, .mark .comma]) (fuel count : Nat) :
    Yields (commaSeparated (Parse.name fuel) count) (tokens ++ rest) names rest := by
  simp only [List.mem_cons, List.not_mem_nil, or_false, not_or] at ends
  induction known generalizing count with
  | one known => exact yields_commaSeparated_one (yields_name known ends.1 fuel) ends.2 count
  | more known isComma _ ih =>
    rw [List.append_assoc]
    exact yields_commaSeparated_more (yields_name known (by simp [isComma]) fuel) isComma ih count

/-- A number is read with its text and with the word that it denotes. -/
theorem yields_number {token : Token} {value : Word} (isNumber : token.kind = .number)
    (known : Numeral.value? token.text = some value) (rest : List Token) :
    Yields number (token :: rest) (token.text, value) rest := by
  apply (yields_eat isNumber).bind
  rw [known]
  exact yields_pure _ _

end Parts

/-- The parser reads the phrase whole in front of every token that does not continue it. Phrases
other than expressions and their parts are left out. -/
def ReadsExpr : (phrase : Phrase) → List Token → phrase.Tree → Prop
  | .factor, tokens, tree => ∀ fuel rest, 0 < reach (Token.frontKind rest) →
      Yields (factor (expression fuel) fuel) (tokens ++ rest) tree rest
  | .args, tokens, trees => ∀ fuel name rest,
      Yields (callOrVariable (expression fuel) fuel name) (tokens ++ rest) (.call name trees) rest
  | .op level, tokens, tree => ∀ fuel count rest, level < reach (Token.frontKind rest) →
      Yields (ofLevel fuel count level) (tokens ++ rest) tree rest
  | .tail level, tokens, joins => ∀ fuel left rest, level < reach (Token.frontKind rest) →
      ∀ count, Yields (leftAssociated (operatorsAt level) (ofLevel fuel fuel (level - 1)) count left)
        (tokens ++ rest) (joins left) rest
  | .exprs, tokens, trees => ∀ fuel rest, 7 < reach (Token.frontKind rest) →
      Token.frontKind rest ≠ .mark .comma → ∀ count,
        Yields (commaSeparated (expression fuel) count) (tokens ++ rest) trees rest
  | _, _, _ => True

section Factors

variable {tokens rest : List Token} {fuel : Nat} {name : Name}

/-- A name without arguments is a variable. -/
theorem yields_variable (ends : 0 < reach (Token.frontKind rest)) :
    Yields (callOrVariable (expression fuel) fuel name) rest (.variable name) rest :=
  (yields_accept_other (ne_of_lt_reach ends rfl)).bind (yields_pure _ _)

/-- An operand that starts with a name is what the name is with what stands behind it. -/
theorem yields_factor_of_name {middle : List Token} {tree : Expr} (known : IsName tokens name)
    (ends : Token.frontKind middle ≠ .mark .dot)
    (there : Yields (callOrVariable (expression fuel) fuel name) middle tree rest) :
    Yields (factor (expression fuel) fuel) (tokens ++ middle) tree rest := by
  apply (yields_kind _).bind
  rw [Token.frontKind_append_eq known.front (by decide)]
  exact (yields_name known ends fuel).bind there

/-- A name in front of empty parentheses is read as a call without arguments. -/
theorem yields_noArgs {opening closing : Token} (opens : opening.kind = .mark .openParen)
    (closes : closing.kind = .mark .closeParen) :
    Yields (callOrVariable (expression fuel) fuel name) (opening :: closing :: rest)
      (.call name []) rest := by
  refine (yields_accept opens).bind (Yields.bind ?_ ((yields_eat closes).bind (yields_pure _ _)))
  apply (yields_sees _ _).bind
  simp only [Token.frontKind_cons, closes, decide_true, if_true]
  exact yields_pure _ _

/-- A name in front of arguments in parentheses is read as the call with these arguments. -/
theorem yields_someArgs {opening closing : Token} {trees : List Expr}
    (opens : opening.kind = .mark .openParen) (starts : Token.frontKind tokens ∈ exprFronts)
    (listed : Yields (commaSeparated (expression fuel) fuel) tokens trees (closing :: rest))
    (closes : closing.kind = .mark .closeParen) :
    Yields (callOrVariable (expression fuel) fuel name) (opening :: tokens) (.call name trees)
      rest := by
  refine (yields_accept opens).bind (Yields.bind ?_ ((yields_eat closes).bind (yields_pure _ _)))
  apply (yields_sees _ _).bind
  rw [decide_eq_false (ne_of_mem_of_not_mem starts (by decide))]
  exact listed

/-- An expression in parentheses is read as the expression. -/
theorem yields_parens {opening closing : Token} {tree : Expr}
    (opens : opening.kind = .mark .openParen)
    (inner : Yields (condition (expression fuel) fuel) tokens tree (closing :: rest))
    (closes : closing.kind = .mark .closeParen) :
    Yields (factor (expression fuel) fuel) (opening :: tokens) tree rest := by
  apply (yields_kind _).bind
  rw [Token.frontKind_cons, opens]
  exact (yields_eat opens).bind (inner.bind ((yields_eat closes).bind (yields_pure _ _)))

/-- A condition that starts like an expression is one. -/
theorem yields_negation {tree : Expr} (starts : Token.frontKind tokens ∈ exprFronts)
    (here : Yields (expression fuel) tokens tree rest) (count : Nat) :
    Yields (negation (expression fuel) count) tokens tree rest := by
  cases count with
  | zero => exact yields_exhausted
  | succ count =>
    exact (yields_accept_other (ne_of_mem_of_not_mem starts (by decide))).bind here

end Factors

/-- The parser reads every expression. -/
theorem readsExpr {phrase : Phrase} {tokens : List Token} {tree : phrase.Tree}
    (derived : Derives phrase tokens tree) : ReadsExpr phrase tokens tree := by
  induction derived with
  | number isNumber known =>
    intro fuel rest ends
    apply (yields_kind _).bind
    rw [List.singleton_append, Token.frontKind_cons, isNumber]
    exact (yields_number isNumber known rest).bind (yields_pure _ _)
  | string isString =>
    intro fuel rest ends
    apply (yields_kind _).bind
    rw [List.singleton_append, Token.frontKind_cons, isString]
    exact (yields_eat isString).bind (yields_pure _ _)
  | parens opens _ closes ih =>
    intro fuel rest ends
    rw [List.cons_append, List.append_assoc]
    exact yields_parens opens (ih fuel fuel _ (by simp [closes]; decide)) closes
  | named known =>
    intro fuel rest ends
    exact yields_factor_of_name known (ne_of_lt_reach ends rfl) (yields_variable ends)
  | call known derived ih =>
    intro fuel rest ends
    rw [List.append_assoc]
    refine yields_factor_of_name known ?_ (ih fuel _ rest)
    rw [Token.frontKind_append_eq derived.fronts (by decide)]
    decide
  | noArgs opens closes => exact fun fuel name rest => yields_noArgs opens closes
  | someArgs opens derived closes ih =>
    intro fuel name rest
    have starts : Token.frontKind _ ∈ exprFronts := derived.fronts
    rw [List.cons_append, List.append_assoc]
    refine yields_someArgs opens (frontKind_append_mem starts (by decide) _) ?_ closes
    exact ih fuel _ (by simp [closes]; decide) (by simp [closes]) fuel
  | operand derived ih =>
    intro fuel count rest ends
    have starts : Token.frontKind _ ∈ factorFronts := derived.fronts
    cases fuel with
    | zero => exact yields_exhausted
    | succ fuel =>
      have other := unaryOp?_of_mem_factorFronts _ (frontKind_append_mem starts (by decide) rest)
      exact (yields_take_none other).bind (ih fuel rest ends)
  | prefixed stands _ ih =>
    intro fuel count rest ends
    cases fuel with
    | zero => exact yields_exhausted
    | succ fuel =>
      refine (yields_take (unaryOp?_eq_some_iff.mpr stands)).bind ?_
      exact (ih fuel count rest ends).bind (yields_pure _ _)
  | negated isNot _ ih =>
    intro fuel count rest ends
    cases count with
    | zero => exact yields_exhausted
    | succ count =>
      exact (yields_accept isNot).bind ((ih fuel count rest ends).bind (yields_pure _ _))
  | @level level tokens tokens' first joins derived tail ih ihTail =>
    intro fuel count rest ends
    have ends' := tail.lt_reach_append (Nat.lt_succ_self level) ends
    rw [List.append_assoc]
    -- on the level of `not` the parser calls no chain of operators, and none stands there
    by_cases words : level = 7
    · subst words
      obtain ⟨rfl, rfl⟩ := tail.eq_nil_of_tail_eight
      have starts := frontKind_append_mem (derived.fronts.expr (by decide)) (by decide) rest
      have inner := ih fuel fuel rest ends'
      rw [ofLevel_seven] at inner
      exact yields_negation starts inner count
    · rw [ofLevel_succ (by have := reach_le (Token.frontKind rest); omega) words]
      exact (ih fuel fuel _ ends').bind (ihTail fuel first rest ends fuel)
  | alone =>
    intro fuel left rest ends count
    exact yields_leftAssociated_none (operatorsAt_eq_none ends) left count
  | joined joins _ tail ih ihTail =>
    intro fuel left rest ends count
    rw [List.cons_append, List.append_assoc]
    have ends' := tail.lt_reach_append (Nat.lt_succ_self _) ends
    exact yields_leftAssociated_some (operatorsAt_eq_some_iff.mpr joins) (ih fuel fuel _ ends')
      (ihTail fuel _ rest ends) count
  | oneExpr _ ih =>
    intro fuel rest ends other count
    have here := ih fuel fuel rest ends
    rw [ofLevel_seven] at here
    exact yields_commaSeparated_one here other count
  | @moreExprs _ tokens' _ _ comma _ isComma _ ih ihRest =>
    intro fuel rest ends other count
    rw [List.append_assoc]
    have here := ih fuel fuel (comma :: (tokens' ++ rest)) (by simp [isComma]; decide)
    rw [ofLevel_seven] at here
    exact yields_commaSeparated_more here isComma
      (ihRest fuel rest ends other) count
  | _ => trivial

/-- The parser reads an expression in two steps: the name in front, and with the name as a seed what
stands behind it, which is nothing, an argument list or an operator. -/
structure Splits (level : Nat) (tokens : List Token) (tree : Expr) (before after : List Token)
    (name : Name) : Prop where
  split : tokens = before ++ after
  known : IsName before name
  follows : ∀ rest, Token.frontKind rest ∉ targetMarks → Token.frontKind (after ++ rest) ∉ targetMarks
  reads : ∀ fuel rest, level < reach (Token.frontKind rest) →
    Yields (joined (operand fuel) fuel (levelsUpTo level) (some name)) (after ++ rest) tree rest

/-- An operand that starts with a name is the name or a call. -/
theorem exists_splits_of_factor {tokens : List Token} {tree : Expr}
    (derived : Derives .factor tokens tree) (named : Token.frontKind tokens = .identifier) :
    ∃ before after name, Splits 0 tokens tree before after name := by
  cases derived with
  | number isNumber => simp [isNumber] at named
  | string isString => simp [isString] at named
  | parens opens => simp [opens] at named
  | @named _ name known =>
    refine ⟨tokens, [], name, by simp, known, fun _ => id, fun fuel rest ends => ?_⟩
    cases fuel with
    | zero => exact yields_exhausted
    | succ fuel => exact yields_variable ends
  | @call before after name args known given =>
    have follows (rest : List Token) : Token.frontKind (after ++ rest) ∉ targetMarks := by
      rw [Token.frontKind_append_eq given.fronts (by decide)]
      decide
    refine ⟨before, after, name, rfl, known, fun rest _ => follows rest, fun fuel rest ends => ?_⟩
    cases fuel with
    | zero => exact yields_exhausted
    | succ fuel => exact readsExpr given fuel name rest

/-- An expression that starts with a name can be read in two steps. -/
theorem exists_splits {level : Nat} (low : level ≤ 7) {tokens : List Token} {tree : Expr}
    (derived : Derives (.op level) tokens tree) (named : Token.frontKind tokens = .identifier) :
    ∃ before after name, Splits level tokens tree before after name := by
  induction level generalizing tokens tree with
  | zero =>
    cases derived with
    | operand derived => exact exists_splits_of_factor derived named
    | prefixed stands =>
      rw [Token.frontKind_cons] at named
      rw [named] at stands
      cases stands
  | succ level ih =>
    cases derived with
    | negated => omega
    | @level _ tokens tokens' first joins derived tail =>
      have starts := derived.fronts.expr (by omega)
      rw [Token.frontKind_append (ne_of_mem_of_not_mem starts (by decide))] at named
      obtain ⟨before, after, name, rfl, known, follows, reads⟩ := ih (by omega) derived named
      refine ⟨before, after ++ tokens', name, by simp, known, fun rest other => ?_,
        fun fuel rest ends => ?_⟩
      · rw [List.append_assoc]
        exact follows _ (tail.not_mem_targetMarks other)
      · rw [List.append_assoc]
        apply (reads fuel _ (tail.lt_reach_append (Nat.lt_succ_self level) ends)).bind
        have others := readsExpr tail fuel first rest ends fuel
        rwa [Nat.add_sub_cancel, ofLevel_low (by omega)] at others

end Parse

end ScriptLang

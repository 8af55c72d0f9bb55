import ScriptLang.Proofs.Parser.Completeness

/-!
# The parser reads every statement of the grammar

In front of a token that ends a statement, the parser reads each statement whole and gives the tree
that it stands for, if in the tree each `else` belongs to the nearest `if` that is open. A statement
that ends in an `if` without `else` must not have an `else` behind it: the parser would read that too.
-/

namespace ScriptLang

namespace Parse

open Grammar

/-- The kinds of tokens that end a statement. -/
def stmtEnds : List Token.Kind :=
  [.lineBreak, .eof, .mark .closeBrace, .keyword .elseArm]

/-- The tokens start where a statement can end. If the statement could go on with `else` then they do
not start with it. -/
def Closes (endsOpen : Bool) (rest : List Token) : Prop :=
  Token.frontKind rest ∈ stmtEnds ∧
    (endsOpen = true → Token.frontKind rest ≠ .keyword .elseArm)

/-- The numbers among the tokens denote words. -/
def NumbersDenote (tokens : List Token) : Prop :=
  ∀ token ∈ tokens, token.kind = .number → (Numeral.value? token.text).isSome

/-- Every expression ends in front of what ends a statement. -/
theorem lt_reach_of_mem_stmtEnds : ∀ kind ∈ stmtEnds, 7 < reach kind := by
  decide

/-- What ends a statement does not stand behind a target. -/
theorem not_mem_targetMarks_of_mem_stmtEnds : ∀ kind ∈ stmtEnds, kind ∉ targetMarks := by
  decide

section Parts

variable {tokens middle rest : List Token} {name : Name} {names : List Name} {fuel : Nat}

/-- Parameters are read whole. -/
theorem yields_parameters (known : IsParams tokens names) (rest : List Token) (fuel : Nat) :
    Yields (parameters fuel) (tokens ++ rest) names rest := by
  cases known with
  | none opens closes =>
    rw [List.cons_append, List.singleton_append]
    refine (yields_eat opens).bind (Yields.bind ?_ ((yields_eat closes).bind (yields_pure _ _)))
    apply (yields_sees _ _).bind
    rw [Token.frontKind_cons, closes]
    exact yields_pure _ _
  | @some opening closing tokens _ opens known closes =>
    rw [List.cons_append, List.append_assoc]
    refine (yields_eat opens).bind (Yields.bind ?_ ((yields_eat closes).bind (yields_pure _ _)))
    apply (yields_sees _ _).bind
    rw [Token.frontKind_append_eq known.front (by decide)]
    exact yields_names known (by simp [closes]) fuel fuel

/-- The results of a function are read whole if no parenthesis opens behind them. -/
theorem yields_results (known : IsResults tokens names)
    (ends : Token.frontKind rest ≠ .mark .openParen) (fuel : Nat) :
    Yields (definition.results fuel) (tokens ++ rest) names rest := by
  cases known with
  | none =>
    apply (yields_sees _ _).bind
    rw [List.nil_append, decide_eq_false ends]
    exact yields_pure _ _
  | some known =>
    apply (yields_sees _ _).bind
    rw [Token.frontKind_append_eq known.front (by decide)]
    exact yields_parameters known rest fuel

/-- An error code is read whole if its number denotes a word, and none is read in front of other
tokens. -/
theorem yields_errorCode {code : Option String} (known : IsCode tokens code)
    (numbers : NumbersDenote tokens) (ends : Token.frontKind rest ≠ .mark .colon) :
    Yields errorCode (tokens ++ rest) code rest := by
  cases known with
  | none => exact (yields_accept_other ends).bind (yields_pure _ _)
  | @some _ token isColon isNumber =>
    obtain ⟨value, denotes⟩ := Option.isSome_iff_exists.mp (numbers token (by simp) isNumber)
    exact (yields_accept isColon).bind ((yields_number isNumber denotes rest).bind (yields_pure _ _))

/-- The operator of an assignment; that of a declaration is plain. -/
theorem yields_operator {sign : Token} {op : AssignOp} {declares : Bool}
    (assigns : Assigns sign.kind op) (plain : declares → sign.kind = .mark .assign)
    (rest : List Token) : Yields (assignmentTo.operator declares) (sign :: rest) op rest := by
  have set {sign : Token} (isAssign : sign.kind = .mark .assign) :
      Yields (do let _ ← eat (.mark .assign); return .set) (sign :: rest) AssignOp.set rest :=
    (yields_eat isAssign).bind (yields_pure _ _)
  cases declares with
  | true =>
    have isAssign := plain rfl
    rw [isAssign] at assigns
    cases assigns
    exact set isAssign
  | false =>
    by_cases compound : compoundOp? sign.kind = some op
    · exact (yields_take compound).bind (yields_pure _ _)
    · generalize known : sign.kind = kind at assigns compound
      cases assigns with
      | set => exact (yields_take_none (by rw [Token.frontKind_cons, known]; rfl)).bind (set known)
      | _ => exact absurd rfl compound

/-- What is read of an assignment behind its first target. -/
theorem yields_assignmentTo {sign : Token} {op : AssignOp} {declares : Bool} {first : Name}
    {more : List Name} {values : List Expr} (targets : Yields (moreTargets fuel) tokens more
      (sign :: middle)) (assigns : Assigns sign.kind op)
    (plain : declares → sign.kind = .mark .assign)
    (given : Yields (expressions fuel) middle values rest) :
    Yields (assignmentTo fuel declares first) tokens (.assign declares (first :: more) op values)
      rest :=
  targets.bind ((yields_operator assigns plain middle).bind (given.bind (yields_pure _ _)))

/-- Targets are the first one and the others, which are read up to the operator of the assignment. -/
theorem exists_first_target (known : IsNames tokens names) : ∃ before after first more,
    tokens = before ++ after ∧ names = first :: more ∧ IsName before first ∧
      ∀ (sign : Token) (rest : List Token), sign.kind.assigns = true →
        (Token.frontKind (after ++ sign :: rest) = .mark .comma ∨
          (Token.frontKind (after ++ sign :: rest)).assigns = true) ∧
        ∀ fuel, Yields (moreTargets fuel) (after ++ sign :: rest) more (sign :: rest) := by
  have other {sign : Token} (assigns : sign.kind.assigns = true) :
      sign.kind ∉ [.mark .dot, .mark .comma] := by
    simp only [List.mem_cons, List.not_mem_nil, or_false, not_or]
    constructor <;> intro same <;> simp [same, Token.Kind.assigns, Mark.assigns] at assigns
  cases known with
  | @one _ name known =>
    refine ⟨tokens, [], name, [], by simp, rfl, known, fun sign rest assigns =>
      ⟨.inr assigns, fun fuel => ?_⟩⟩
    have ends := other assigns
    exact (yields_accept_other (by simp_all)).bind (yields_pure _ _)
  | @more tokens tokens' name names comma known isComma others =>
    refine ⟨tokens, comma :: tokens', name, names, rfl, rfl, known, fun sign rest assigns =>
      ⟨.inl isComma, fun fuel => ?_⟩⟩
    have ends : Token.frontKind (sign :: rest) ∉ [.mark .dot, .mark .comma] := other assigns
    exact (yields_accept isComma).bind (yields_names others ends fuel fuel)

/-- What stands behind the last target is no dot. -/
theorem ne_dot_of_assigns {kind : Token.Kind}
    (assigns : kind = .mark .comma ∨ kind.assigns = true) : kind ≠ .mark .dot := by
  rintro rfl
  simp [Token.Kind.assigns, Mark.assigns] at assigns

/-- A statement that starts with a name is an assignment if a comma or the operator of one stands
behind the name. -/
theorem yields_named_assign {stmt : Stmt} (known : IsName tokens name)
    (behind : Token.frontKind middle = .mark .comma ∨ (Token.frontKind middle).assigns = true)
    (there : Yields (assignmentTo fuel false name) middle stmt rest) :
    Yields (named fuel) (tokens ++ middle) stmt rest := by
  have whole := yields_name known (ne_dot_of_assigns behind) fuel
  obtain ⟨word, others, rfl, shape⟩ := known.exists_word
  apply (yields_peek word (others ++ middle)).bind
  rcases shape with rfl | dot
  · rw [List.nil_append, if_pos behind]
    exact whole.bind there
  · rw [Token.frontKind_append_eq dot (by decide), if_neg (by decide), if_pos rfl]
    refine whole.bind ((yields_kind middle).bind ?_)
    rw [if_pos behind]
    exact there

/-- It is an expression otherwise. -/
theorem yields_named_expr {tree : Expr} (derived : Derives (.op 7) tokens tree)
    (starts : Token.frontKind tokens = .identifier) (ends : Token.frontKind rest ∈ stmtEnds)
    (fuel : Nat) : Yields (named fuel) (tokens ++ rest) (.expr tree) rest := by
  have low := lt_reach_of_mem_stmtEnds _ ends
  have straight := readsExpr derived fuel fuel rest low
  rw [ofLevel_seven] at straight
  obtain ⟨before, after, name, rfl, known, follows, reads⟩ :=
    exists_splits (by decide) derived starts
  have other := follows rest (not_mem_targetMarks_of_mem_stmtEnds _ ends)
  have behind : ¬ (Token.frontKind (after ++ rest) = .mark .comma ∨
      (Token.frontKind (after ++ rest)).assigns = true) :=
    fun assigns => other (mem_targetMarks_of_assigns assigns)
  have noDot : Token.frontKind (after ++ rest) ≠ .mark .dot :=
    fun dot => other (dot ▸ by decide)
  rw [List.append_assoc] at straight ⊢
  have whole := yields_name known noDot fuel
  obtain ⟨word, others, rfl, shape⟩ := known.exists_word
  apply (yields_peek word (others ++ (after ++ rest))).bind
  rcases shape with rfl | dot
  · rw [List.nil_append, if_neg behind, if_neg noDot]
    exact straight.bind (yields_pure _ _)
  · rw [Token.frontKind_append_eq dot (by decide), if_neg (by decide), if_pos rfl]
    refine whole.bind ((yields_kind (after ++ rest)).bind ?_)
    rw [if_neg behind, seededExpression, levels_eq]
    exact (reads fuel rest low).bind (yields_pure _ _)

/-- Where a statement ends the empty statement stands. -/
theorem yields_empty (ends : Token.frontKind rest ∈ stmtEnds) (fuel : Nat) :
    Yields (statement fuel) rest .empty rest := by
  cases fuel with
  | zero => exact yields_exhausted
  | succ fuel =>
    apply (yields_kind _).bind
    generalize Token.frontKind rest = kind at ends
    simp only [stmtEnds, List.mem_cons, List.not_mem_nil, or_false] at ends
    rcases ends with rfl | rfl | rfl | rfl <;> exact yields_pure _ _

/-- An expression is a statement. -/
theorem yields_expr {tree : Expr} (derived : Derives (.op 7) tokens tree)
    (ends : Token.frontKind rest ∈ stmtEnds) (fuel : Nat) :
    Yields (statement fuel) (tokens ++ rest) (.expr tree) rest := by
  cases fuel with
  | zero => exact yields_exhausted
  | succ fuel =>
    have starts := derived.fronts.expr (by decide)
    have same := Token.frontKind_append (ne_of_mem_of_not_mem starts (by decide)) rest
    apply (yields_kind _).bind
    rw [same]
    by_cases named : Token.frontKind tokens = .identifier
    · rw [named]
      exact yields_named_expr derived named ends (fuel + 1)
    · have low := lt_reach_of_mem_stmtEnds _ ends
      have here := readsExpr derived (fuel + 1) (fuel + 1) rest low
      rw [ofLevel_seven] at here
      have whole : Yields (expression (fuel + 1) >>= fun value => pure (Stmt.expr value))
          (tokens ++ rest) (.expr tree) rest := here.bind (yields_pure _ _)
      generalize Token.frontKind tokens = kind at starts named
      simp only [exprFronts, factorFronts, List.cons_append, List.nil_append, List.mem_cons,
        List.not_mem_nil, or_false] at starts
      rcases starts with rfl | rfl | rfl | rfl | rfl | rfl | rfl | rfl | rfl | rfl
      case inr.inr.inr.inr.inr.inr.inr.inr.inl => exact absurd rfl named
      all_goals exact whole

end Parts

section Arms

variable {tokens rest : List Token}

/-- A condition ends where an arm starts. -/
theorem lt_reach_of_arm {arm : Stmt} (derived : Derives .arm tokens arm) (rest : List Token) :
    10 < reach (Token.frontKind (tokens ++ rest)) := by
  have ends : ∀ kind ∈ [.mark .openBrace, .keyword .thenArm], 10 < reach kind := by decide
  exact ends _ (frontKind_append_mem derived.fronts (by decide) rest)

/-- An arm can end in front of what stands behind it, if `else` stands only behind an arm that does not
end in an `if` without one. -/
theorem Closes.of_otherwise {thenArm : Stmt} {elseArm : Option Stmt}
    (derived : Derives .otherwise tokens elseArm)
    (closed : elseArm.isSome → thenArm.endsOpen = false)
    (closes : Closes (Stmt.elseEndsOpen elseArm) rest) : Closes thenArm.endsOpen (tokens ++ rest) := by
  rcases derived.fronts with ⟨isElse, found⟩ | ⟨rfl, rfl⟩
  · have same := Token.frontKind_append_eq isElse (by decide) rest
    refine ⟨same ▸ by decide, fun isOpen => ?_⟩
    rw [closed found] at isOpen
    cases isOpen
  · exact ⟨closes.1, fun _ => closes.2 rfl⟩

end Arms

/-- The kinds of tokens that end expressions with commas between them. -/
def exprsEnds : List Token.Kind :=
  .mark .colon :: stmtEnds

/-- A list of expressions is read whole in front of what ends one. -/
theorem yields_expressions {tokens rest : List Token} {values : List Expr}
    (derived : Derives .exprs tokens values) (ends : Token.frontKind rest ∈ exprsEnds)
    (fuel : Nat) : Yields (expressions fuel) (tokens ++ rest) values rest := by
  have low : ∀ kind ∈ exprsEnds, 7 < reach kind := by decide
  exact readsExpr derived fuel rest (low _ ends) (ne_of_mem_of_not_mem ends (by decide)) fuel

/-- In front of an error code, and where there is none, a list of expressions ends. -/
theorem mem_exprsEnds_of_code {tokens rest : List Token} {code : Option String}
    (coded : IsCode tokens code) (ends : Token.frontKind rest ∈ stmtEnds) :
    Token.frontKind (tokens ++ rest) ∈ exprsEnds := by
  cases coded with
  | none => exact List.mem_cons_of_mem _ ends
  | some isColon => exact List.mem_cons.mpr (.inl isColon)

/-- The numbers among fewer tokens denote words too. -/
theorem NumbersDenote.mono {tokens tokens' : List Token} (numbers : NumbersDenote tokens)
    (part : tokens' ⊆ tokens) : NumbersDenote tokens' :=
  fun token member => numbers token (part member)

/-- The parser reads the phrase whole in front of every token where it can end. Expressions and their
parts are left out. -/
def ReadsStmt : (phrase : Phrase) → List Token → phrase.Tree → Prop
  | .stmt, tokens, stmt => stmt.ElsesNearest → ∀ fuel rest, Closes stmt.endsOpen rest →
      Yields (statement fuel) (tokens ++ rest) stmt rest
  | .arm, tokens, arm => arm.ElsesNearest → ∀ fuel rest, Closes arm.endsOpen rest → ∀ count,
      Yields (branch.first (statement fuel) count) (tokens ++ rest) arm rest
  | .otherwise, tokens, arm => Stmt.ElseNearest arm → ∀ fuel rest,
      Closes (Stmt.elseEndsOpen arm) rest →
        Yields (branch.second (statement fuel)) (tokens ++ rest) arm rest
  | .stmts, tokens, body => Stmt.AllElsesNearest body → ∀ fuel rest,
      Token.frontKind rest ∈ [.eof, .mark .closeBrace] → ∀ count,
        Yields (statements (statement fuel) count) (tokens ++ rest) body rest
  | .braced, tokens, body => Stmt.AllElsesNearest body → ∀ fuel rest count,
      Yields (braced (statement fuel) count) (tokens ++ rest) body rest
  | _, _, _ => True

section Statements

variable {tokens middle rest : List Token} {fuel : Nat}

/-- A brace starts a block. -/
theorem yields_block {body : List Stmt} (opens : Token.frontKind tokens = .mark .openBrace)
    (here : ∀ fuel count, Yields (braced (statement fuel) count) tokens body rest) (fuel : Nat) :
    Yields (statement fuel) tokens (.block body) rest := by
  cases fuel with
  | zero => exact yields_exhausted
  | succ fuel =>
    apply (yields_kind _).bind
    rw [opens]
    exact (here fuel fuel).bind (yields_pure _ _)

/-- The word for a branch starts a condition with its arms. -/
theorem yields_branch {token : Token} {tokens' : List Token} {test : Expr} {thenArm : Stmt}
    {elseArm : Option Stmt} (branches : token.kind = .keyword .cond)
    (tests : ∀ fuel, Yields (condition (expression fuel) fuel) tokens test middle)
    (first : ∀ fuel count, Yields (branch.first (statement fuel) count) middle thenArm tokens')
    (second : ∀ fuel, Yields (branch.second (statement fuel)) tokens' elseArm rest) (fuel : Nat) :
    Yields (statement fuel) (token :: tokens) (.branch test thenArm elseArm) rest := by
  cases fuel with
  | zero => exact yields_exhausted
  | succ fuel =>
    apply (yields_kind _).bind
    rw [Token.frontKind_cons, branches]
    exact (yields_eat branches).bind ((tests fuel).bind ((first fuel fuel).bind
      ((second fuel).bind (yields_pure _ _))))

/-- The word for a function starts a definition: the name, the parameters, the results and the
block. -/
theorem yields_definition {token : Token} {tokens' tokens'' : List Token} {title : Name}
    {params returns : List Name} {body : List Stmt} (defines : token.kind = .keyword .func)
    (names : ∀ fuel, Yields (name fuel) tokens title tokens')
    (takes : ∀ fuel, Yields (parameters fuel) tokens' params middle)
    (gives : ∀ fuel, Yields (definition.results fuel) middle returns tokens'')
    (here : ∀ fuel count, Yields (braced (statement fuel) count) tokens'' body rest) (fuel : Nat) :
    Yields (statement fuel) (token :: tokens) (.func title params returns body) rest := by
  cases fuel with
  | zero => exact yields_exhausted
  | succ fuel =>
    apply (yields_kind _).bind
    rw [Token.frontKind_cons, defines]
    exact (yields_eat defines).bind ((names fuel).bind ((takes fuel).bind ((gives fuel).bind
      ((here fuel fuel).bind (yields_pure _ _)))))

/-- The word for `return` starts the values and the error code. -/
theorem yields_returned {token : Token} {values : List Expr} {code : Option String}
    (returns : token.kind = .keyword .ret)
    (given : ∀ fuel, Yields (expressions fuel) tokens values middle)
    (coded : Yields errorCode middle code rest) (fuel : Nat) :
    Yields (statement fuel) (token :: tokens) (.ret values code) rest := by
  cases fuel with
  | zero => exact yields_exhausted
  | succ fuel =>
    apply (yields_kind _).bind
    rw [Token.frontKind_cons, returns]
    exact (yields_eat returns).bind ((given fuel).bind (coded.bind (yields_pure _ _)))

/-- The word that declares starts an assignment which declares its targets. -/
theorem yields_declared {token : Token} {first : Name} {stmt : Stmt}
    (declares : token.kind = .keyword .var) (names : ∀ fuel, Yields (name fuel) tokens first middle)
    (there : ∀ fuel, Yields (assignmentTo fuel true first) middle stmt rest) (fuel : Nat) :
    Yields (statement fuel) (token :: tokens) stmt rest := by
  cases fuel with
  | zero => exact yields_exhausted
  | succ fuel =>
    apply (yields_kind _).bind
    rw [Token.frontKind_cons, declares]
    exact (yields_eat declares).bind ((names fuel).bind (there fuel))

/-- An identifier starts a statement that starts with a name. -/
theorem yields_named {stmt : Stmt} (starts : Token.frontKind tokens = .identifier)
    (here : ∀ fuel, Yields (named fuel) tokens stmt rest) (fuel : Nat) :
    Yields (statement fuel) tokens stmt rest := by
  cases fuel with
  | zero => exact yields_exhausted
  | succ fuel =>
    apply (yields_kind _).bind
    rw [starts]
    exact here (fuel + 1)

/-- The last statement of a list. -/
theorem yields_last {statement : Parse TokenList Stmt} {stmt : Stmt}
    (here : Yields statement tokens stmt rest) (ends : Token.frontKind rest ≠ .lineBreak)
    (count : Nat) :
    Yields (statements statement count) tokens ([stmt].filter (!·.isEmpty)) rest := by
  cases count with
  | zero => exact yields_exhausted
  | succ count =>
    rw [← List.append_nil ([stmt].filter _), ← keep_eq_append]
    exact here.bind ((yields_accept_other ends).bind (yields_pure _ _))

/-- A statement, a line break and further statements are read as a list of statements. -/
theorem yields_next {statement : Parse TokenList Stmt} {stmt : Stmt} {others : List Stmt}
    {lineBreak : Token} (here : Yields statement tokens stmt (lineBreak :: middle))
    (isBreak : lineBreak.kind = .lineBreak)
    (there : ∀ count, Yields (statements statement count) middle others rest) (count : Nat) :
    Yields (statements statement count) tokens ([stmt].filter (!·.isEmpty) ++ others) rest := by
  cases count with
  | zero => exact yields_exhausted
  | succ count =>
    rw [← keep_eq_append]
    exact here.bind ((yields_accept isBreak).bind ((there count).bind (yields_pure _ _)))

end Statements

/-- In a list of statements the first one keeps what the list says of each. -/
theorem elsesNearest_of_filter {stmt : Stmt} {others : List Stmt}
    (nearest : Stmt.AllElsesNearest ([stmt].filter (!·.isEmpty) ++ others)) :
    stmt.ElsesNearest ∧ Stmt.AllElsesNearest others := by
  cases stmt with
  | empty => exact ⟨trivial, nearest⟩
  | _ => exact nearest

/-- The parser reads the phrases of every statement whole, in front of every token where they can
end. -/
theorem readsStmt {phrase : Phrase} {tokens : List Token} {tree : phrase.Tree}
    (derived : Derives phrase tokens tree) (numbers : NumbersDenote tokens) :
    ReadsStmt phrase tokens tree := by
  -- By induction on the derivation. Behind each part of a phrase stands a token at which the part
  -- can end, and the numbers of the part are among those of the phrase.
  induction derived with
  | @block tokens body derived ih =>
    intro nearest fuel rest closes
    have starts := Token.frontKind_append_eq derived.fronts (by decide) rest
    rw [Stmt.ElsesNearest] at nearest
    exact yields_block starts (fun fuel count => ih numbers nearest fuel rest count) fuel
  | @branch token tokens tokens' tokens'' test thenArm elseArm branches derived first second _ ih
      ih' =>
    intro nearest fuel rest closes
    rw [Stmt.ElsesNearest] at nearest
    obtain ⟨nearest, nearest', closed⟩ := nearest
    rw [Stmt.endsOpen] at closes
    have ends := lt_reach_of_arm first (tokens'' ++ rest)
    have numbers' : NumbersDenote tokens' := numbers.mono (by grind)
    have numbers'' : NumbersDenote tokens'' := numbers.mono (by grind)
    rw [List.cons_append, List.append_assoc, List.append_assoc]
    -- The first arm can end in front of an `else` of this branch: it leaves no `if` open then.
    exact yields_branch branches (fun fuel => readsExpr derived fuel fuel _ ends)
      (fun fuel => ih numbers' nearest fuel _ (closes.of_otherwise second closed))
      (fun fuel => ih' numbers'' nearest' fuel rest closes) fuel
  | @func token title takes gives block name params returns body defines known takes' gives' derived
      ih =>
    intro nearest fuel rest closes
    rw [Stmt.ElsesNearest] at nearest
    have starts := Token.frontKind_append_eq derived.fronts (by decide) rest
    have numbers' : NumbersDenote block := numbers.mono (by grind)
    have noDot : Token.frontKind (takes ++ (gives ++ (block ++ rest))) ≠ .mark .dot := by
      rw [Token.frontKind_append_eq takes'.front (by decide)]
      decide
    rw [List.cons_append, List.append_assoc, List.append_assoc, List.append_assoc]
    exact yields_definition defines (yields_name known noDot) (yields_parameters takes' _)
      (yields_results gives' (by simp [starts])) (fun fuel => ih numbers' nearest fuel rest) fuel
  | @ret token tokens tokens' values code returns derived coded ih =>
    intro nearest fuel rest closes
    have numbers' : NumbersDenote tokens' := numbers.mono (by grind)
    have noColon : Token.frontKind rest ≠ .mark .colon :=
      ne_of_mem_of_not_mem closes.1 (by decide)
    have values := yields_expressions derived (mem_exprsEnds_of_code coded closes.1)
    rw [List.cons_append, List.append_assoc]
    exact yields_returned returns values (yields_errorCode coded numbers' noColon) fuel
  | @declare token equals tokens tokens' targets values declares known isAssign derived ih =>
    intro nearest fuel rest closes
    obtain ⟨before, after, first, more, rfl, rfl, known, reads⟩ := exists_first_target known
    have assigns : Assigns equals.kind .set := isAssign ▸ .set
    obtain ⟨behind, others⟩ := reads equals (tokens' ++ rest) assigns.assigns
    have values := yields_expressions derived (List.mem_cons_of_mem _ closes.1)
    have shape : token :: (before ++ after ++ equals :: tokens') ++ rest =
        token :: (before ++ (after ++ equals :: (tokens' ++ rest))) := by simp
    rw [shape]
    exact yields_declared declares (yields_name known (ne_dot_of_assigns behind)) (fun fuel =>
      yields_assignmentTo (others fuel) assigns (fun _ => isAssign) (values fuel)) fuel
  | @assign token op tokens tokens' targets values known assigns derived ih =>
    intro nearest fuel rest closes
    have starts := Token.frontKind_append_eq known.front (by decide) (token :: tokens' ++ rest)
    rw [List.append_assoc]
    refine yields_named starts (fun fuel => ?_) fuel
    obtain ⟨before, after, first, more, rfl, rfl, known, reads⟩ := exists_first_target known
    obtain ⟨behind, others⟩ := reads token (tokens' ++ rest) assigns.assigns
    have values := yields_expressions derived (List.mem_cons_of_mem _ closes.1)
    rw [List.append_assoc, List.cons_append]
    exact yields_named_assign known behind
      (yields_assignmentTo (others fuel) assigns nofun (values fuel))
  | expr derived =>
    intro nearest fuel rest closes
    exact yields_expr derived closes.1 fuel
  | empty =>
    intro nearest fuel rest closes
    exact yields_empty closes.1 fuel
  | @bracedArm tokens body derived ih =>
    intro nearest fuel rest closes count
    rw [Stmt.ElsesNearest] at nearest
    apply (yields_sees _ _).bind
    rw [Token.frontKind_append_eq derived.fronts (by decide)]
    exact (ih numbers nearest fuel rest count).bind (yields_pure _ _)
  | @thenArm token tokens arm isThen derived ih =>
    intro nearest fuel rest closes count
    apply (yields_sees _ _).bind
    rw [List.cons_append, Token.frontKind_cons, isThen]
    exact (yields_eat isThen).bind (ih (numbers.mono (by grind)) nearest fuel rest closes)
  | noElse =>
    intro nearest fuel rest closes
    exact (yields_accept_other (closes.2 rfl)).bind (yields_pure _ _)
  | @elseArm token tokens arm isElse derived ih =>
    intro nearest fuel rest closes
    have here := ih (numbers.mono (by grind)) nearest fuel rest closes
    exact (yields_accept isElse).bind (here.bind (yields_pure _ _))
  | @last tokens stmt derived ih =>
    intro nearest fuel rest ends count
    rw [← List.append_nil ([stmt].filter _)] at nearest
    have nearest' := (elsesNearest_of_filter nearest).1
    have closes : Closes stmt.endsOpen rest :=
      ⟨by grind [stmtEnds], fun _ => ne_of_mem_of_not_mem ends (by decide)⟩
    have here := ih numbers nearest' fuel rest closes
    exact yields_last here (ne_of_mem_of_not_mem ends (by decide)) count
  | @next tokens tokens' stmt others lineBreak derived isBreak _ ih ih' =>
    intro nearest fuel rest ends count
    obtain ⟨nearest, nearest'⟩ := elsesNearest_of_filter nearest
    have closes : Closes stmt.endsOpen (lineBreak :: (tokens' ++ rest)) := by
      rw [Closes, Token.frontKind_cons, isBreak]
      exact ⟨by decide, fun _ => by decide⟩
    have here := ih (numbers.mono (by grind)) nearest fuel _ closes
    have there := ih' (numbers.mono (by grind)) nearest' fuel rest ends
    rw [List.append_assoc]
    exact yields_next here isBreak there count
  | @braced opening closing tokens body opens derived closes ih =>
    intro nearest fuel rest count
    have numbers' : NumbersDenote tokens := numbers.mono (by grind)
    have here := ih numbers' nearest fuel (closing :: rest) (by simp [closes]) count
    rw [List.cons_append, List.append_assoc]
    exact (yields_eat opens).bind (here.bind ((yields_eat closes).bind (yields_pure _ _)))
  | _ => trivial

end Parse

end ScriptLang

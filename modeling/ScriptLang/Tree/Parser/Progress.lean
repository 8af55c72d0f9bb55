import ScriptLang.Tree.Parser.Statement

/-!
# Progress of the parser

Each computation over a feed leaves at most the tokens that it found, and the ones that can repeat
leave fewer. The main statement `program_ne_outOfFuel` follows: with fuel above the number of
tokens before the end token, parsing a program ends with a program or with a fault of the input.
-/

namespace ScriptLang

variable {σ : Type} [TokenSource σ] {α β : Type}

/-- Counts a token unless it is the end token. -/
def Token.weight (token : Token) : Nat :=
  if token.kind = .eof then 0 else 1

/-- Bounds the tokens that a feed can still give before the end token. -/
def Feed.remaining (feed : Feed σ) : Nat :=
  feed.current.weight + feed.peeked.elim 0 Token.weight + TokenSource.remaining feed.source

namespace Parse

/-- The computation did not use its fuel up, and if it gave a result then it left at least `used`
tokens fewer than `limit`. -/
def Leaves (limit used : Nat) : EStateM.Result Stop (Feed σ) α → Prop
  | .ok _ behind => behind.remaining + used ≤ limit
  | .error stop _ => stop ≠ .outOfFuel

/-- From each feed with at most `bound` tokens the computation leaves at least `used` fewer. -/
def Within (bound used : Nat) (computation : Parse σ α) : Prop :=
  ∀ feed, feed.remaining ≤ bound → Leaves feed.remaining used (computation feed)

/-- The bound on the tokens can be lowered, and so can the number of them that are used. -/
theorem Within.weaken {bound used bound' used' : Nat} {computation : Parse σ α}
    (within : Within bound used computation) (lower : bound' ≤ bound)
    (fewer : used' ≤ used) : Within bound' used' computation := by
  intro feed enough
  have result := within feed (Nat.le_trans enough lower)
  cases outcome : computation feed with
  | ok value behind => simp only [outcome, Leaves] at result ⊢; omega
  | error stop behind => simpa [outcome, Leaves] using result

/-- Giving a value uses no tokens. -/
theorem within_pure (bound : Nat) (value : α) : Within bound 0 (pure value : Parse σ α) :=
  fun feed _ => Nat.le_refl feed.remaining

/-- A fault leaves nothing to be bounded. -/
theorem within_fail (bound used : Nat) (error : ParseError) :
    Within bound used (fail error : Parse σ α) :=
  fun _ _ => Stop.noConfusion

/-- What is left behind the first computation bounds the second. -/
theorem Within.bind {bound used used' : Nat} {first : Parse σ α} {second : α → Parse σ β}
    (here : Within bound used first)
    (there : used ≤ bound → ∀ value, Within (bound - used) used' (second value)) :
    Within bound (used + used') (first >>= second) := by
  intro feed enough
  have result := here feed enough
  cases outcome : first feed with
  | ok value behind =>
    simp only [outcome, Leaves] at result
    have final := there (by omega) value behind (by omega)
    simp only [Bind.bind, EStateM.bind, outcome]
    cases next : second value behind with
    | ok value' after => simp only [next, Leaves] at final ⊢; omega
    | error stop after => simpa [next, Leaves] using final
  | error stop behind => simpa [Bind.bind, EStateM.bind, outcome, Leaves] using result

/-- A computation that uses no tokens up keeps the bound. -/
theorem Within.bind_zero {bound used : Nat} {first : Parse σ α} {second : α → Parse σ β}
    (here : Within bound 0 first) (there : ∀ value, Within bound used (second value)) :
    Within bound used (first >>= second) := by
  simpa using here.bind fun _ => there

/-- Behind a computation that uses a token up there is one token less. -/
theorem Within.bind_one {bound : Nat} {first : Parse σ α} {second : α → Parse σ β}
    (here : Within bound 1 first)
    (there : 0 < bound → ∀ value, Within (bound - 1) 0 (second value)) :
    Within bound 1 (first >>= second) :=
  here.bind there

/-- Asking for the current kind uses no tokens. -/
theorem within_kind (bound : Nat) : Within bound 0 (kind : Parse σ Token.Kind) :=
  fun feed _ => Nat.le_refl feed.remaining

/-- Comparing the current kind uses no tokens. -/
theorem within_sees (bound : Nat) (expected : Token.Kind) :
    Within bound 0 (sees expected : Parse σ Bool) :=
  fun feed _ => Nat.le_refl feed.remaining

/-- A token that is pulled uses up its own weight of the source. -/
theorem weight_add_remaining_le {source behind : σ} {token : Token}
    (step : TokenSource.next source = (.ok token, behind)) :
    token.weight + TokenSource.remaining behind ≤ TokenSource.remaining source := by
  have bound := TokenSource.remaining_next_le source
  rw [step] at bound
  by_cases eof : token.kind = .eof
  · simpa [Token.weight, eof] using bound
  · have := TokenSource.remaining_next_lt step eof
    simp only [Token.weight, eof, if_false]
    omega

/-- Moving on uses the current token up. -/
theorem leaves_advance (feed : Feed σ) :
    Leaves feed.remaining feed.current.weight (advance feed) := by
  rcases feed with ⟨current, _ | token, source⟩
  · rcases step : TokenSource.next source with ⟨result, behind⟩
    cases result with
    | ok token =>
      have bound := weight_add_remaining_le step
      simp only [advance, step, Leaves, Feed.remaining, Option.elim]
      omega
    | error error => simp [advance, step, Leaves]
  · simp only [advance, Leaves, Feed.remaining, Option.elim]
    omega

/-- Looking ahead uses no tokens. -/
theorem within_peek (bound : Nat) : Within bound 0 (peek : Parse σ Token.Kind) := by
  rintro ⟨current, _ | token, source⟩ _
  · rcases step : TokenSource.next source with ⟨result, behind⟩
    cases result with
    | ok token =>
      have bound := weight_add_remaining_le step
      simp only [peek, step, Leaves, Feed.remaining, Option.elim]
      omega
    | error error => simp [peek, step, Leaves]
  · simp [peek, Leaves]

/-- The weight of a token that is not the end token. -/
theorem weight_eq_one {token : Token} (more : token.kind ≠ .eof) : token.weight = 1 := by
  simp [Token.weight, more]

/-- Eating a token that is not the end uses it. -/
theorem within_eat {expected : Token.Kind} (bound : Nat) (more : expected ≠ .eof) :
    Within bound 1 (eat expected : Parse σ Token) := by
  intro feed _
  by_cases seen : feed.current.kind = expected
  · have step := leaves_advance feed
    rw [weight_eq_one (seen ▸ more)] at step
    simpa only [eat, seen, if_true] using step
  · simp [eat, seen, Leaves]

/-- Eating the end uses no token. -/
theorem within_eat_eof (bound : Nat) : Within bound 0 (eat .eof : Parse σ Token) := by
  intro feed _
  by_cases seen : feed.current.kind = .eof
  · have step := leaves_advance feed
    rw [show feed.current.weight = 0 by simp [Token.weight, seen]] at step
    simpa only [eat, seen, if_true] using step
  · simp [eat, seen, Leaves]

/-- Behind an operator that is there, there is one token less. -/
theorem within_take {bound used : Nat} {γ : Type} {meaning? : Token.Kind → Option γ}
    {next : Option γ → Parse σ α} (more : meaning? .eof = none)
    (taken : 0 < bound → ∀ meaning, Within (bound - 1) (used - 1) (next (some meaning)))
    (left : Within bound used (next none)) : Within bound used (take? meaning? >>= next) := by
  intro feed enough
  have step := leaves_advance feed
  cases seen : meaning? feed.current.kind with
  | some meaning =>
    have here : feed.current.kind ≠ .eof := by rintro eof; simp [eof, more] at seen
    rw [weight_eq_one here] at step
    simp only [Bind.bind, EStateM.bind, take?, seen]
    cases outcome : advance feed with
    | ok token behind =>
      simp only [outcome, Leaves] at step
      have final := taken (by omega) meaning behind (by omega)
      cases result : next (some meaning) behind with
      | ok value after => simp only [result, Leaves] at final ⊢; omega
      | error stop after => simpa [result, Leaves] using final
    | error stop behind => simpa [outcome, Leaves] using step
  | none => simpa [Bind.bind, EStateM.bind, take?, seen] using left feed enough

/-- Behind a token that is there, there is one token less. -/
theorem within_accept {bound used : Nat} {expected : Token.Kind} {next : Bool → Parse σ α}
    (more : expected ≠ .eof) (taken : 0 < bound → Within (bound - 1) (used - 1) (next true))
    (left : Within bound used (next false)) : Within bound used (accept expected >>= next) := by
  intro feed enough
  have step := leaves_advance feed
  by_cases seen : feed.current.kind = expected
  · rw [weight_eq_one (seen ▸ more)] at step
    simp only [Bind.bind, EStateM.bind, accept, seen, if_true]
    cases outcome : advance feed with
    | ok token behind =>
      simp only [outcome, Leaves] at step
      have final := taken (by omega) behind (by omega)
      cases result : next true behind with
      | ok value after => simp only [result, Leaves] at final ⊢; omega
      | error stop after => simpa [result, Leaves] using final
    | error stop behind => simpa [outcome, Leaves] using step
  · simpa [Bind.bind, EStateM.bind, accept, seen] using left feed enough

/-- A bound may be lowered. -/
theorem Within.smaller {bound used bound' : Nat} {computation : Parse σ α}
    (within : Within bound used computation) (lower : bound' ≤ bound) :
    Within bound' used computation :=
  within.weaken lower (Nat.le_refl used)

/-- What uses a token up also uses none up, from a smaller feed. -/
theorem Within.lower {bound bound' : Nat} {computation : Parse σ α}
    (within : Within bound 1 computation) (lower : bound' ≤ bound) : Within bound' 0 computation :=
  within.weaken lower (Nat.zero_le 1)

/-- Items with commas between them use a token if the item does and the fuel is above the tokens. -/
theorem within_commaSeparated {fuel bound : Nat} {item : Parse σ α} (each : Within bound 1 item)
    (enough : bound < fuel) : Within bound 1 (commaSeparated item fuel) := by
  induction fuel generalizing bound with
  | zero => omega
  | succ fuel ih =>
    refine each.bind_one fun positive first => within_accept (by decide) (fun _ => ?_)
      (within_pure _ _)
    have rest := ih (each.smaller (Nat.sub_le bound 1)) (by omega)
    exact (rest.lower (Nat.sub_le _ _)).bind_zero fun _ => within_pure _ _

/-- Operands with operators between them need no token of their own: the first was read already. -/
theorem within_leftAssociated {fuel bound : Nat} {operator? : Token.Kind → Option (α → α → α)}
    {operand : Parse σ α} (none_eof : operator? .eof = none) (each : Within bound 1 operand)
    (enough : bound < fuel) (left : α) :
    Within bound 0 (leftAssociated operator? operand fuel left) := by
  induction fuel generalizing bound left with
  | zero => omega
  | succ fuel ih =>
    refine within_take none_eof (fun positive combine => ?_) (within_pure _ _)
    have tail (right : α) := ih (each.smaller (Nat.sub_le bound 1)) (by omega) (combine left right)
    exact (each.lower (Nat.sub_le _ _)).bind_zero tail

/-- The dotted rest of a name may use no token. -/
theorem within_nameRest {fuel bound : Nat} (enough : bound < fuel) (name : Name) :
    Within bound 0 (nameRest fuel name : Parse σ Name) := by
  induction fuel generalizing bound name with
  | zero => omega
  | succ fuel ih =>
    refine within_accept (by decide) (fun positive => ?_) (within_pure _ _)
    exact ((within_eat _ (by decide)).lower (Nat.le_refl _)).bind_zero fun word =>
      ih (by omega) _

/-- A name uses a token. -/
theorem within_name {fuel bound : Nat} (enough : bound < fuel) :
    Within bound 1 (name fuel : Parse σ Name) :=
  (within_eat bound (by decide)).bind_one fun _ word => within_nameRest (by omega) word.text

/-- A number uses a token. -/
theorem within_number (bound : Nat) : Within bound 1 (number : Parse σ (String × Word)) := by
  refine (within_eat bound (by decide)).bind_one fun _ token => ?_
  split
  · exact within_pure _ _
  · exact within_fail _ _ _

/-- The end token is no operator of any level. -/
theorem levels_eof : ∀ operator? ∈ levels, operator? .eof = none := by
  simp [levels, level]

/-- Operands that are joined use a token if an operand does. -/
theorem within_joined {fuel bound : Nat} {operand : Option Name → Parse σ Expr}
    {operators : List Level} (none_eof : ∀ operator? ∈ operators, operator? .eof = none)
    (plain : Within bound 1 (operand none)) (enough : bound < fuel) :
    Within bound 1 (joined operand fuel operators none) := by
  induction operators with
  | nil => exact plain
  | cons operator? tighter ih =>
    have operand := ih fun other listed => none_eof other (List.mem_cons_of_mem _ listed)
    exact operand.bind_one fun _ left => within_leftAssociated
      (none_eof operator? List.mem_cons_self) (operand.smaller (Nat.sub_le bound 1)) (by omega) left

/-- Operands that are joined behind a name that was read may use no token. -/
theorem within_joined_seed {fuel bound : Nat} {operand : Option Name → Parse σ Expr}
    {operators : List Level} {seed : Name}
    (none_eof : ∀ operator? ∈ operators, operator? .eof = none)
    (plain : Within bound 1 (operand none)) (seeded : Within bound 0 (operand (some seed)))
    (enough : bound < fuel) : Within bound 0 (joined operand fuel operators (some seed)) := by
  induction operators with
  | nil => exact seeded
  | cons operator? tighter ih =>
    have others : ∀ other ∈ tighter, other .eof = none := fun other listed =>
      none_eof other (List.mem_cons_of_mem _ listed)
    exact (ih others).bind_zero fun left => within_leftAssociated
      (none_eof operator? List.mem_cons_self) (within_joined others plain enough) enough left

/-- A condition behind any number of `not` uses a token. -/
theorem within_negation {fuel bound : Nat} {expression : Parse σ Expr}
    (each : Within bound 1 expression) (enough : bound < fuel) :
    Within bound 1 (negation expression fuel) := by
  induction fuel generalizing bound with
  | zero => omega
  | succ fuel ih =>
    refine within_accept (by decide) (fun positive => ?_) each
    have inner := ih (each.smaller (Nat.sub_le bound 1)) (by omega)
    exact (inner.lower (Nat.le_refl _)).bind_zero fun _ => within_pure _ _

/-- A condition uses a token if an expression does. -/
theorem within_condition {fuel bound : Nat} {expression : Parse σ Expr}
    (each : Within bound 1 expression) (enough : bound < fuel) :
    Within bound 1 (condition expression fuel) := by
  have negations := within_negation each enough
  have conjunctions : Within bound 1 (condition.conjunction expression fuel) :=
    negations.bind_one fun _ first => within_leftAssociated (by decide)
      (negations.smaller (Nat.sub_le bound 1)) (by omega) first
  exact conjunctions.bind_one fun _ first => within_leftAssociated (by decide)
    (conjunctions.smaller (Nat.sub_le bound 1)) (by omega) first

/-- Behind its name a call or a variable may use no token; arguments have one less, the
parenthesis. -/
theorem within_callOrVariable {fuel bound : Nat} {expression : Parse σ Expr}
    (each : 0 < bound → Within (bound - 1) 1 expression) (enough : bound ≤ fuel) (name : Name) :
    Within bound 0 (callOrVariable expression fuel name) := by
  refine within_accept (by decide) (fun positive => ?_) (within_pure _ _)
  have args : Within (bound - 1) 0 (callOrVariable.arguments expression fuel) := by
    refine (within_sees _ _).bind_zero fun seen => ?_
    split
    · exact within_pure _ _
    · exact (within_commaSeparated (each positive) (by omega)).lower (Nat.le_refl _)
  exact args.bind_zero fun _ => ((within_eat _ (by decide)).lower (Nat.le_refl _)).bind_zero
    fun _ => within_pure _ _

/-- An operand without operators uses a token. -/
theorem within_factor {fuel bound : Nat} {expression : Parse σ Expr}
    (each : 0 < bound → Within (bound - 1) 1 expression) (enough : bound ≤ fuel) :
    Within bound 1 (factor expression fuel) := by
  refine (within_kind _).bind_zero fun kind => ?_
  split
  · exact (within_number _).bind_one fun _ _ => within_pure _ _
  · exact (within_eat _ (by decide)).bind_one fun _ _ => within_pure _ _
  · refine (within_eat _ (by decide)).bind_one fun positive _ => ?_
    refine ((within_condition (each positive) (by omega)).lower (Nat.le_refl _)).bind_zero
      fun _ => ?_
    exact ((within_eat _ (by decide)).lower (Nat.le_refl _)).bind_zero fun _ => within_pure _ _
  · refine ((within_eat bound (by decide)).bind_one fun positive word =>
      within_nameRest (by omega) word.text).bind_one fun positive name => ?_
    exact within_callOrVariable
      (fun _ => (each positive).smaller (Nat.sub_le _ _)) (by omega) name

/-- An operand uses a token up, unless it is a name that stands in front of the feed. -/
theorem within_operand {fuel bound : Nat} (enough : bound < fuel) :
    Within bound 1 (operand fuel none : Parse σ Expr) ∧
      ∀ seed, Within bound 0 (operand fuel (some seed) : Parse σ Expr) := by
  induction fuel generalizing bound with
  | zero => omega
  | succ fuel ih =>
    have inner (positive : 0 < bound) :
        Within (bound - 1) 1 (joined (operand fuel) fuel levels none : Parse σ Expr) :=
      within_joined levels_eof (ih (by omega)).1 (by omega)
    constructor
    · refine within_take (by decide) (fun positive op => ?_) (within_factor inner (by omega))
      exact ((ih (by omega)).1.lower (Nat.le_refl _)).bind_zero fun _ => within_pure _ _
    · exact within_callOrVariable inner (by omega)

/-- An expression uses a token, and never runs out of fuel above the number of tokens. -/
theorem within_expression {fuel bound : Nat} (enough : bound < fuel) :
    Within bound 1 (expression fuel : Parse σ Expr) :=
  within_joined levels_eof (within_operand enough).1 enough

/-- An expression behind a name that was read may use no token. -/
theorem within_seededExpression {fuel bound : Nat} (enough : bound < fuel) (seed : Name) :
    Within bound 0 (seededExpression fuel (some seed) : Parse σ Expr) :=
  within_joined_seed levels_eof (within_operand enough).1 ((within_operand enough).2 seed) enough

/-- A list of expressions uses a token. -/
theorem within_expressions {fuel bound : Nat} (enough : bound < fuel) :
    Within bound 1 (expressions fuel : Parse σ (List Expr)) :=
  within_commaSeparated (within_expression enough) enough

/-- An assignment operator does not run out of fuel. -/
theorem within_assignOp (bound : Nat) : Within bound 0 (assignOp : Parse σ AssignOp) :=
  within_take (by decide) (fun _ _ => within_pure _ _)
    (((within_eat _ (by decide)).lower (Nat.le_refl _)).bind_zero fun _ => within_pure _ _)

/-- An assignment behind its first target does not run out of fuel. -/
theorem within_assignmentTo {fuel bound : Nat} (enough : bound < fuel) (declares : Bool)
    (first : Name) : Within bound 0 (assignmentTo fuel declares first : Parse σ Stmt) := by
  have more : Within bound 0 (moreTargets fuel : Parse σ (List Name)) := by
    refine within_accept (by decide) (fun positive => ?_) (within_pure _ _)
    exact (within_commaSeparated (within_name (by omega)) (by omega)).lower (Nat.le_refl _)
  have operator : Within bound 0 (assignmentTo.operator declares : Parse σ AssignOp) := by
    unfold assignmentTo.operator
    split
    · exact ((within_eat _ (by decide)).lower (Nat.le_refl _)).bind_zero fun _ => within_pure _ _
    · exact within_assignOp _
  exact more.bind_zero fun _ => operator.bind_zero fun _ =>
    ((within_expressions enough).lower (Nat.le_refl _)).bind_zero fun _ => within_pure _ _

/-- An assignment uses a token. -/
theorem within_assignment {fuel bound : Nat} (enough : bound < fuel) (declares : Bool) :
    Within bound 1 (assignment fuel declares : Parse σ Stmt) :=
  (within_name enough).bind_one fun _ first => within_assignmentTo (by omega) declares first

/-- A statement that starts with a name does not run out of fuel. -/
theorem within_named {fuel bound : Nat} (enough : bound < fuel) :
    Within bound 0 (named fuel : Parse σ Stmt) := by
  refine (within_peek _).bind_zero fun next => ?_
  split
  · exact (within_assignment enough false).lower (Nat.le_refl _)
  · split
    · refine ((within_name enough).lower (Nat.le_refl _)).bind_zero fun first => ?_
      refine (within_kind _).bind_zero fun behind => ?_
      split
      · exact within_assignmentTo enough false first
      · exact (within_seededExpression enough first).bind_zero fun _ => within_pure _ _
    · exact ((within_expression enough).lower (Nat.le_refl _)).bind_zero fun _ => within_pure _ _

/-- Parameters use a token. -/
theorem within_parameters {fuel bound : Nat} (enough : bound ≤ fuel) :
    Within bound 1 (parameters fuel : Parse σ (List Name)) := by
  refine (within_eat bound (by decide)).bind_one fun positive _ => ?_
  have listed : Within (bound - 1) 0 (parameters.listed fuel : Parse σ (List Name)) := by
    refine (within_sees _ _).bind_zero fun seen => ?_
    split
    · exact within_pure _ _
    · exact (within_commaSeparated (within_name (by omega)) (by omega)).lower (Nat.le_refl _)
  exact listed.bind_zero fun _ => ((within_eat _ (by decide)).lower (Nat.le_refl _)).bind_zero
    fun _ => within_pure _ _

/-- An error code may use no token. -/
theorem within_errorCode (bound : Nat) : Within bound 0 (errorCode : Parse σ (Option String)) :=
  within_accept (by decide)
    (fun _ => ((within_number _).lower (Nat.le_refl _)).bind_zero fun _ => within_pure _ _)
    (within_pure _ _)

/-- A return uses the token that it starts with. -/
theorem within_returned {fuel bound : Nat} (enough : bound ≤ fuel) :
    Within bound 1 (returned fuel : Parse σ Stmt) := by
  refine (within_eat bound (by decide)).bind_one fun positive _ => ?_
  refine ((within_expressions (by omega)).lower (Nat.le_refl _)).bind_zero fun _ => ?_
  exact (within_errorCode _).bind_zero fun _ => within_pure _ _

/-- The statements of a body may use no token, but do not run out of fuel. -/
theorem within_statements {fuel bound : Nat} {statement : Parse σ Stmt}
    (each : Within bound 0 statement) (enough : bound < fuel) :
    Within bound 0 (statements statement fuel) := by
  induction fuel generalizing bound with
  | zero => omega
  | succ fuel ih =>
    refine each.bind_zero fun first => within_accept (by decide) (fun positive => ?_)
      (within_pure _ _)
    exact (ih (each.smaller (Nat.sub_le _ _)) (by omega)).bind_zero fun _ => within_pure _ _

/-- A block uses its braces, so the statements in it have a token less. -/
theorem within_braced {fuel bound : Nat} {statement : Parse σ Stmt}
    (each : 0 < bound → Within (bound - 1) 0 statement) (enough : bound ≤ fuel) :
    Within bound 1 (braced statement fuel) := by
  refine (within_eat bound (by decide)).bind_one fun positive _ => ?_
  refine (within_statements (each positive) (by omega)).bind_zero fun _ => ?_
  exact ((within_eat _ (by decide)).lower (Nat.le_refl _)).bind_zero fun _ => within_pure _ _

/-- A branch uses the token that it starts with, so its arms have a token less. -/
theorem within_branch {fuel bound : Nat} {statement : Parse σ Stmt}
    (each : 0 < bound → Within (bound - 1) 0 statement) (enough : bound ≤ fuel) :
    Within bound 1 (branch statement fuel) := by
  refine (within_eat bound (by decide)).bind_one fun positive _ => ?_
  have test : Within (bound - 1) 1 (condition (expression fuel : Parse σ Expr) fuel) :=
    within_condition (within_expression (by omega)) (by omega)
  have first : Within (bound - 1) 0 (branch.first statement fuel) := by
    refine (within_sees _ _).bind_zero fun seen => ?_
    split
    · exact ((within_braced (fun _ => (each positive).smaller (Nat.sub_le _ _))
        (by omega)).lower (Nat.le_refl _)).bind_zero fun _ => within_pure _ _
    · exact ((within_eat _ (by decide)).lower (Nat.le_refl _)).bind_zero fun _ => each positive
  have second : Within (bound - 1) 0 (branch.second statement) := by
    refine within_accept (by decide) (fun _ => ?_) (within_pure _ _)
    exact ((each positive).smaller (Nat.sub_le _ _)).bind_zero fun _ =>
      within_pure _ _
  exact (test.lower (Nat.le_refl _)).bind_zero fun _ => first.bind_zero fun _ =>
    second.bind_zero fun _ => within_pure _ _

/-- A function uses the token that it starts with, so its body has a token less. -/
theorem within_definition {fuel bound : Nat} {statement : Parse σ Stmt}
    (each : 0 < bound → Within (bound - 1) 0 statement) (enough : bound ≤ fuel) :
    Within bound 1 (definition statement fuel) := by
  refine (within_eat bound (by decide)).bind_one fun positive _ => ?_
  have params : Within (bound - 1) 0 (parameters fuel : Parse σ (List Name)) :=
    (within_parameters (by omega)).lower (Nat.le_refl _)
  have results : Within (bound - 1) 0 (definition.results fuel : Parse σ (List Name)) := by
    refine (within_sees _ _).bind_zero fun seen => ?_
    split
    · exact params
    · exact within_pure _ _
  have body : Within (bound - 1) 0 (braced statement fuel) :=
    (within_braced (fun _ => (each positive).smaller (Nat.sub_le _ _))
      (by omega)).lower (Nat.le_refl _)
  exact ((within_name (by omega)).lower (Nat.le_refl _)).bind_zero fun _ => params.bind_zero
    fun _ => results.bind_zero fun _ => body.bind_zero fun _ => within_pure _ _

/-- A statement leaves no more tokens than it finds. -/
theorem within_statement {fuel bound : Nat} (enough : bound < fuel) :
    Within bound 0 (statement fuel : Parse σ Stmt) := by
  induction fuel generalizing bound with
  | zero => omega
  | succ fuel ih =>
    have inner (positive : 0 < bound) : Within (bound - 1) 0 (statement fuel : Parse σ Stmt) :=
      ih (by omega)
    refine (within_kind _).bind_zero fun kind => ?_
    split
    · exact ((within_braced inner (by omega)).lower (Nat.le_refl _)).bind_zero fun _ =>
        within_pure _ _
    · exact (within_branch inner (by omega)).lower (Nat.le_refl _)
    · exact (within_definition inner (by omega)).lower (Nat.le_refl _)
    · exact (within_returned (by omega)).lower (Nat.le_refl _)
    · refine ((within_eat bound (by decide)).bind_one fun positive _ => ?_).lower (Nat.le_refl _)
      exact (within_assignment (by omega) true).lower (Nat.le_refl _)
    · exact within_named (by omega)
    · exact within_pure _ _
    · exact within_pure _ _
    · exact within_pure _ _
    · exact within_pure _ _
    · exact ((within_expression (by omega)).lower (Nat.le_refl _)).bind_zero fun _ =>
        within_pure _ _

/-- Skipping line breaks does not run out of fuel above the number of tokens. -/
theorem within_skipLineBreaks {fuel bound : Nat} (enough : bound < fuel) :
    Within bound 0 (skipLineBreaks fuel : Parse σ Unit) := by
  induction fuel generalizing bound with
  | zero => omega
  | succ fuel ih =>
    exact within_accept (by decide) (fun positive => ih (by omega)) (within_pure _ _)

/-- The imports may use no token, but do not run out of fuel. -/
theorem within_imports {fuel bound : Nat} (enough : bound < fuel) :
    Within bound 0 (imports fuel : Parse σ (List String)) := by
  induction fuel generalizing bound with
  | zero => omega
  | succ fuel ih =>
    refine within_accept (by decide) (fun positive => ?_) (within_pure _ _)
    refine ((within_eat _ (by decide)).lower (Nat.le_refl _)).bind_zero fun path => ?_
    refine (within_sees _ _).bind_zero fun seen => ?_
    split
    · exact within_pure _ _
    · refine ((within_eat _ (by decide)).lower (Nat.le_refl _)).bind_zero fun _ => ?_
      exact (ih (by omega)).bind_zero fun _ => within_pure _ _

/-- A program does not run out of fuel above the number of tokens. -/
theorem within_program {fuel bound : Nat} (enough : bound < fuel) :
    Within bound 0 (program fuel : Parse σ Program) :=
  (within_skipLineBreaks enough).bind_zero fun _ => (within_imports enough).bind_zero fun _ =>
    (within_statements (within_statement enough) enough).bind_zero fun _ =>
      (within_eat_eof bound).bind_zero fun _ => within_pure _ _

/-- Fuel above the number of tokens is enough to parse a program. -/
theorem program_ne_outOfFuel (feed behind : Feed σ) :
    program (feed.remaining + 1) feed ≠ .error .outOfFuel behind := by
  intro outcome
  have result := within_program (Nat.lt_succ_self feed.remaining) feed (Nat.le_refl _)
  rw [outcome] at result
  exact result rfl

end Parse

end ScriptLang

import ScriptLang.Tree.Parser

/-!
# Parsers in lockstep

Two sources that give like tokens up to the first end token cannot be told apart by a parser: it
goes the same way on both sides, to the same result or to faults that say the same. Tokens are like
if their kinds and texts are the same and their places are related. The left source may fail instead
of coming to an end, and then the left side stops there, if not before.

The two sides may run on different amounts of fuel, and nothing is said if one of them uses its fuel
up.
-/

namespace ScriptLang

/-- The tokens have one kind and one text, and their places are related. -/
structure Token.Alike (place : Span → Span → Prop) (token token' : Token) : Prop where
  kind : token'.kind = token.kind
  text : token'.text = token.text
  span : place token.span token'.span

/-- The faults say the same of tokens that are alike. -/
inductive ParseError.Alike (place : Span → Span → Prop) : ParseError → ParseError → Prop where
  | unexpected {expected : Token.Kind} {token token' : Token} : token.Alike place token' →
      Alike place
        (.unexpectedToken expected token.kind token.text token.span.start.line
          token.span.start.column)
        (.unexpectedToken expected token'.kind token'.text token'.span.start.line
          token'.span.start.column)
  | number {token token' : Token} : token.Alike place token' →
      Alike place (.invalidNumber token.text token.span.start.line token.span.start.column)
        (.invalidNumber token'.text token'.span.start.line token'.span.start.column)

variable {σ τ : Type} [TokenSource σ] [TokenSource τ]

/-- The next pull gives a token. -/
def TokenSource.Gives (source : σ) : Prop :=
  ∃ token behind, TokenSource.next source = (.ok token, behind)

/-- Two sources give like tokens up to an end token, behind which a token can be pulled once more; or,
if the left one is to fail, up to its error. -/
inductive TokenSource.Alike (place : Span → Span → Prop) : Option LexError → σ → τ → Prop where
  | ends {left left' : σ} {right right' : τ} {token token' : Token} :
      TokenSource.next left = (.ok token, left') → TokenSource.next right = (.ok token', right') →
        token.Alike place token' → token.kind = .eof → TokenSource.Gives left' →
          TokenSource.Gives right' → Alike place none left right
  | token {failing : Option LexError} {left left' : σ} {right right' : τ} {token token' : Token} :
      TokenSource.next left = (.ok token, left') → TokenSource.next right = (.ok token', right') →
        token.Alike place token' → token.kind ≠ .eof → Alike place failing left' right' →
          Alike place failing left right
  | fails {error : LexError} {left left' : σ} {right : τ} :
      TokenSource.next left = (.error error, left') → Alike place (some error) left right

/-- Two feeds hold like tokens. Behind an end token nothing is compared any more, and nothing was
looked at. -/
inductive Feed.Alike (place : Span → Span → Prop) : Option LexError → Feed σ → Feed τ → Prop where
  | ended {token token' : Token} {left : σ} {right : τ} :
      token.Alike place token' → token.kind = .eof → TokenSource.Gives left →
        TokenSource.Gives right → Alike place none ⟨token, none, left⟩ ⟨token', none, right⟩
  | fresh {failing : Option LexError} {token token' : Token} {left : σ} {right : τ} :
      token.Alike place token' → token.kind ≠ .eof → TokenSource.Alike place failing left right →
        Alike place failing ⟨token, none, left⟩ ⟨token', none, right⟩
  | peeked {failing : Option LexError} {token token' behind behind' : Token} {left : σ} {right : τ} :
      token.Alike place token' → token.kind ≠ .eof →
        Alike place failing ⟨behind, none, left⟩ ⟨behind', none, right⟩ →
          Alike place failing ⟨token, some behind, left⟩ ⟨token', some behind', right⟩

variable {place : Span → Span → Prop} {failing : Option LexError}

/-- The current tokens of like feeds are alike. -/
theorem Feed.Alike.current {left : Feed σ} {right : Feed τ} (alike : left.Alike place failing right) :
    left.current.Alike place right.current := by
  cases alike with
  | ended same _ _ _ => exact same
  | fresh same _ _ => exact same
  | peeked same _ _ => exact same

namespace Parse

/-- The outcomes of two sides agree: one result and feeds as required behind it, or like faults; or
the left source has failed, or the fuel of a side was used up. -/
inductive Agree (place : Span → Span → Prop) (failing : Option LexError)
    (behind : Feed σ → Feed τ → Prop) {α : Type} :
    EStateM.Result Stop (Feed σ) α → EStateM.Result Stop (Feed τ) α → Prop where
  | ok {value : α} {left : Feed σ} {right : Feed τ} : behind left right →
      Agree place failing behind (.ok value left) (.ok value right)
  | fault {error error' : ParseError} {left : Feed σ} {right : Feed τ} :
      error.Alike place error' →
        Agree place failing behind (.error (.fault error) left) (.error (.fault error') right)
  | lex {error : LexError} {left : Feed σ} {result : EStateM.Result Stop (Feed τ) α} :
      failing = some error → Agree place failing behind (.error (.fault (.lex error)) left) result
  | leftExhausted {left : Feed σ} {result : EStateM.Result Stop (Feed τ) α} :
      Agree place failing behind (.error .outOfFuel left) result
  | rightExhausted {right : Feed τ} {result : EStateM.Result Stop (Feed σ) α} :
      Agree place failing behind result (.error .outOfFuel right)

/-- From like feeds the outcomes of the two sides agree, and the feeds behind them are alike. -/
def Lockstep (place : Span → Span → Prop) (failing : Option LexError) {α : Type}
    (first : Parse σ α) (second : Parse τ α) : Prop :=
  ∀ ⦃left : Feed σ⦄ ⦃right : Feed τ⦄, left.Alike place failing right →
    Agree place failing (Feed.Alike place failing) (first left) (second right)

variable {α β : Type}

section Steps

/-- Both sides can give a value without moving. -/
theorem lockstep_pure (value : α) :
    Lockstep place failing (pure value : Parse σ α) (pure value : Parse τ α) :=
  fun _ _ alike => .ok alike

/-- Both sides can fail alike without moving. -/
theorem lockstep_fail {error error' : ParseError} (same : error.Alike place error') :
    Lockstep place failing (fail error : Parse σ α) (fail error' : Parse τ α) :=
  fun _ _ _ => .fault same

/-- A left side that runs out of fuel agrees with everything. -/
theorem lockstep_exhausted {second : Parse τ α} :
    Lockstep place failing (exhausted : Parse σ α) second :=
  fun _ _ _ => .leftExhausted

/-- A right side that runs out of fuel agrees with everything. -/
theorem lockstep_exhausted' {first : Parse σ α} :
    Lockstep place failing first (exhausted : Parse τ α) :=
  fun _ _ _ => .rightExhausted

/-- Outcomes agree behind a step if they do from like feeds with whichever result it gives. -/
theorem Agree.bind {first : Parse σ α} {second : Parse τ α} {next : α → Parse σ β}
    {next' : α → Parse τ β} {behind : Feed σ → Feed τ → Prop} {left : Feed σ} {right : Feed τ}
    (here : Agree place failing (Feed.Alike place failing) (first left) (second right))
    (there : ∀ value, ∀ ⦃left : Feed σ⦄ ⦃right : Feed τ⦄, left.Alike place failing right →
      Agree place failing behind (next value left) (next' value right)) :
    Agree place failing behind ((first >>= next) left) ((second >>= next') right) := by
  simp only [Bind.bind, EStateM.bind]
  generalize first left = result, second right = result' at here
  cases here with
  | ok alike => exact there _ alike
  | fault same => exact .fault same
  | lex fails => exact .lex fails
  | leftExhausted => exact .leftExhausted
  | rightExhausted => exact .rightExhausted

/-- Two steps are in lockstep if the first are and the second are behind every value. -/
theorem Lockstep.bind {first : Parse σ α} {second : Parse τ α} {next : α → Parse σ β}
    {next' : α → Parse τ β} (here : Lockstep place failing first second)
    (there : ∀ value, Lockstep place failing (next value) (next' value)) :
    Lockstep place failing (first >>= next) (second >>= next') :=
  fun _ _ alike => (here alike).bind there

/-- The current kinds of like feeds are the same. -/
theorem lockstep_kind : Lockstep place failing (kind : Parse σ Token.Kind) (kind : Parse τ Token.Kind) := by
  intro left right alike
  unfold kind
  rw [alike.current.kind]
  exact .ok alike

/-- Like feeds give one answer on the current kind. -/
theorem lockstep_sees (expected : Token.Kind) :
    Lockstep place failing (sees expected : Parse σ Bool) (sees expected : Parse τ Bool) := by
  intro left right alike
  unfold sees
  rw [alike.current.kind]
  exact .ok alike

/-- A pull gives like tokens, with like feeds behind them, or the left source fails. -/
theorem next_alike {left : σ} {right : τ} (alike : TokenSource.Alike place failing left right) :
    (∃ token token' left' right', TokenSource.next left = (.ok token, left') ∧
      TokenSource.next right = (.ok token', right') ∧ token.Alike place token' ∧
        Feed.Alike place failing ⟨token, none, left'⟩ ⟨token', none, right'⟩) ∨
      ∃ error left', failing = some error ∧ TokenSource.next left = (.error error, left') := by
  cases alike with
  | ends here here' same last gives gives' =>
    exact .inl ⟨_, _, _, _, here, here', same, .ended same last gives gives'⟩
  | token here here' same more rest =>
    exact .inl ⟨_, _, _, _, here, here', same, .fresh same more rest⟩
  | fails here => exact .inr ⟨_, _, rfl, here⟩

/-- In front of the end both sides move on alike, or the left source fails. -/
theorem advance_alike {left : Feed σ} {right : Feed τ} (alike : left.Alike place failing right)
    (more : left.current.kind ≠ .eof) :
    (∃ left' right', advance left = .ok left.current left' ∧
      advance right = .ok right.current right' ∧ left'.Alike place failing right') ∨
      ∃ error left', failing = some error ∧ advance left = .error (.fault (.lex error)) left' := by
  cases alike with
  | ended _ last _ _ => exact absurd last more
  | fresh _ _ sources =>
    rcases next_alike sources with ⟨token, token', left', right', here, here', -, rest⟩ |
      ⟨error, left', fails, here⟩
    · exact .inl ⟨⟨token, none, left'⟩, ⟨token', none, right'⟩, by simp [advance, here],
        by simp [advance, here'], rest⟩
    · exact .inr ⟨error, _, fails, by simp [advance, here]; rfl⟩
  | peeked _ _ rest => exact .inl ⟨_, _, rfl, rfl, rest⟩

/-- In front of the end both sides look ahead alike. -/
theorem agree_peek {left : Feed σ} {right : Feed τ} (alike : left.Alike place failing right)
    (more : left.current.kind ≠ .eof) :
    Agree place failing (Feed.Alike place failing) (peek left) (peek right) := by
  cases alike with
  | ended _ last _ _ => exact absurd last more
  | fresh same more sources =>
    rcases next_alike sources with ⟨token, token', left', right', here, here', like, rest⟩ |
      ⟨error, left', fails, here⟩
    · simp only [peek, here, here', like.kind]
      exact .ok (.peeked same more rest)
    · simp only [peek, here]
      exact .lex fails
  | peeked same more rest =>
    have like := rest.current.kind
    simp only at like
    simp only [peek, like]
    exact .ok (.peeked same more rest)

/-- A token that is not the end token is eaten or refused alike. -/
theorem lockstep_eat {expected : Token.Kind} (more : expected ≠ .eof)
    {next : Token → Parse σ α} {next' : Token → Parse τ α}
    (there : ∀ {token token' : Token}, token.Alike place token' →
      Lockstep place failing (next token) (next' token')) :
    Lockstep place failing (eat expected >>= next) (eat expected >>= next') := by
  intro left right alike
  have same := alike.current
  simp only [Bind.bind, EStateM.bind, eat, same.kind]
  by_cases seen : left.current.kind = expected
  · rw [if_pos seen, if_pos seen]
    rcases advance_alike alike (seen ▸ more) with ⟨left', right', here, here', rest⟩ |
      ⟨error, left', fails, here⟩
    · rw [here, here']
      exact there same rest
    · rw [here]
      exact .lex fails
  · have refused := @ParseError.Alike.unexpected place expected _ _ same
    rw [same.kind] at refused
    rw [if_neg seen, if_neg seen]
    exact .fault refused

/-- An operator is taken alike. -/
theorem lockstep_take {meaning? : Token.Kind → Option α} (more : meaning? .eof = none) :
    Lockstep place failing (take? meaning? : Parse σ (Option α))
      (take? meaning? : Parse τ (Option α)) := by
  intro left right alike
  simp only [take?, alike.current.kind]
  cases seen : meaning? left.current.kind with
  | none => exact .ok alike
  | some meaning =>
    have here : left.current.kind ≠ .eof := by
      rintro last
      simp [last, more] at seen
    rcases advance_alike alike here with ⟨left', right', here, here', rest⟩ |
      ⟨error, left', fails, here⟩
    · simp only [here, here']
      exact .ok rest
    · simp only [here]
      exact .lex fails

/-- A token that may be there is passed over alike. -/
theorem lockstep_accept {expected : Token.Kind} (more : expected ≠ .eof) :
    Lockstep place failing (accept expected : Parse σ Bool) (accept expected : Parse τ Bool) := by
  intro left right alike
  simp only [accept, alike.current.kind]
  by_cases seen : left.current.kind = expected
  · rw [if_pos seen, if_pos seen]
    rcases advance_alike alike (seen ▸ more) with ⟨left', right', here, here', rest⟩ |
      ⟨error, left', fails, here⟩
    · simp only [here, here']
      exact .ok rest
    · simp only [here]
      exact .lex fails
  · rw [if_neg seen, if_neg seen]
    exact .ok alike

end Steps

section Lists

/-- Items with commas between them are read in lockstep if the items are. -/
theorem lockstep_commaSeparated {item : Parse σ α} {item' : Parse τ α}
    (each : Lockstep place failing item item') (fuel fuel' : Nat) :
    Lockstep place failing (commaSeparated item fuel) (commaSeparated item' fuel') := by
  induction fuel generalizing fuel' with
  | zero => exact lockstep_exhausted
  | succ fuel ih =>
    cases fuel' with
    | zero => exact lockstep_exhausted'
    | succ fuel' =>
      refine each.bind fun first => (lockstep_accept (by decide)).bind fun more => ?_
      split
      · exact (ih fuel').bind fun rest => lockstep_pure _
      · exact lockstep_pure _

/-- Operands with operators between them are read in lockstep if the operands are. -/
theorem lockstep_leftAssociated {operator? : Token.Kind → Option (α → α → α)}
    (none_eof : operator? .eof = none) {operand : Parse σ α} {operand' : Parse τ α}
    (each : Lockstep place failing operand operand') (fuel fuel' : Nat) (left : α) :
    Lockstep place failing (leftAssociated operator? operand fuel left)
      (leftAssociated operator? operand' fuel' left) := by
  induction fuel generalizing fuel' left with
  | zero => exact lockstep_exhausted
  | succ fuel ih =>
    cases fuel' with
    | zero => exact lockstep_exhausted'
    | succ fuel' =>
      refine (lockstep_take none_eof).bind fun operator => ?_
      split
      · exact each.bind fun right => ih fuel' _
      · exact lockstep_pure _

end Lists

section Expressions

/-- The dotted rest of a name is read in lockstep. -/
theorem lockstep_nameRest (fuel fuel' : Nat) (name : Name) :
    Lockstep place failing (nameRest fuel name : Parse σ Name) (nameRest fuel' name : Parse τ Name) := by
  induction fuel generalizing fuel' name with
  | zero => exact lockstep_exhausted
  | succ fuel ih =>
    cases fuel' with
    | zero => exact lockstep_exhausted'
    | succ fuel' =>
      refine (lockstep_accept (by decide)).bind fun dotted => ?_
      split
      · refine lockstep_eat (by decide) fun same => ?_
        rw [same.text]
        exact ih fuel' _
      · exact lockstep_pure name

/-- A name is read in lockstep. -/
theorem lockstep_name (fuel fuel' : Nat) :
    Lockstep place failing (name fuel : Parse σ Name) (name fuel' : Parse τ Name) := by
  refine lockstep_eat (by decide) fun same => ?_
  rw [same.text]
  exact lockstep_nameRest fuel fuel' _

/-- A number is read in lockstep: its text is the same on both sides, and so is what it denotes. -/
theorem lockstep_number :
    Lockstep place failing (number : Parse σ (String × Word)) (number : Parse τ (String × Word)) := by
  refine lockstep_eat (by decide) fun {token token'} same => ?_
  have refused := ParseError.Alike.number same
  rw [same.text] at refused ⊢
  cases Numeral.value? token.text with
  | some value => exact lockstep_pure _
  | none => exact lockstep_fail refused

/-- Operands are read in lockstep through several levels of operators if they are themselves. -/
theorem lockstep_joined {first : Option Name → Parse σ Expr} {second : Option Name → Parse τ Expr}
    (each : ∀ seed, Lockstep place failing (first seed) (second seed)) (fuel fuel' : Nat)
    {operators : List Level} (none_eof : ∀ operator? ∈ operators, operator? .eof = none)
    (seed : Option Name) :
    Lockstep place failing (joined first fuel operators seed) (joined second fuel' operators seed) := by
  induction operators generalizing seed with
  | nil => exact each seed
  | cons operator? tighter ih =>
    have operand := ih fun other listed => none_eof other (List.mem_cons_of_mem _ listed)
    exact (operand seed).bind fun left => lockstep_leftAssociated
      (none_eof operator? List.mem_cons_self) (operand none) fuel fuel' left

variable {first : Parse σ Expr} {second : Parse τ Expr}

/-- A condition behind any number of `not` is read in lockstep. -/
theorem lockstep_negation (each : Lockstep place failing first second) (fuel fuel' : Nat) :
    Lockstep place failing (negation first fuel) (negation second fuel') := by
  induction fuel generalizing fuel' with
  | zero => exact lockstep_exhausted
  | succ fuel ih =>
    cases fuel' with
    | zero => exact lockstep_exhausted'
    | succ fuel' =>
      refine (lockstep_accept (by decide)).bind fun negated => ?_
      split
      · exact (ih fuel').bind fun inner => lockstep_pure _
      · exact each

/-- A condition is read in lockstep. -/
theorem lockstep_condition (each : Lockstep place failing first second) (fuel fuel' : Nat) :
    Lockstep place failing (condition first fuel) (condition second fuel') := by
  have negations := lockstep_negation each fuel fuel'
  have conjunctions : Lockstep place failing (condition.conjunction first fuel)
      (condition.conjunction second fuel') :=
    negations.bind fun left => lockstep_leftAssociated (by decide) negations fuel fuel' left
  exact conjunctions.bind fun left => lockstep_leftAssociated (by decide) conjunctions fuel fuel' left

/-- A call, or the variable that stands in its place, is read in lockstep. -/
theorem lockstep_callOrVariable (each : Lockstep place failing first second) (fuel fuel' : Nat)
    (name : Name) :
    Lockstep place failing (callOrVariable first fuel name) (callOrVariable second fuel' name) := by
  have args : Lockstep place failing (callOrVariable.arguments first fuel)
      (callOrVariable.arguments second fuel') := by
    refine (lockstep_sees _).bind fun closed => ?_
    split
    · exact lockstep_pure _
    · exact lockstep_commaSeparated each fuel fuel'
  refine (lockstep_accept (by decide)).bind fun called => ?_
  split
  · exact args.bind fun args => lockstep_eat (by decide) fun _ => lockstep_pure _
  · exact lockstep_pure _

/-- An operand without operators is read in lockstep. -/
theorem lockstep_factor (each : Lockstep place failing first second) (fuel fuel' : Nat) :
    Lockstep place failing (factor first fuel) (factor second fuel') := by
  refine lockstep_kind.bind fun kind => ?_
  split
  · exact lockstep_number.bind fun _ => lockstep_pure _
  · refine lockstep_eat (by decide) fun same => ?_
    rw [same.text]
    exact lockstep_pure _
  · exact lockstep_eat (by decide) fun _ => (lockstep_condition each fuel fuel').bind fun inner =>
      lockstep_eat (by decide) fun _ => lockstep_pure _
  · exact (lockstep_name fuel fuel').bind fun name => lockstep_callOrVariable each fuel fuel' name

/-- An operand is read in lockstep, whatever fuel each side has. -/
theorem lockstep_operand (fuel fuel' : Nat) (seed : Option Name) :
    Lockstep place failing (operand fuel seed : Parse σ Expr) (operand fuel' seed : Parse τ Expr) := by
  induction fuel generalizing fuel' seed with
  | zero => cases seed <;> exact lockstep_exhausted
  | succ fuel ih =>
    cases fuel' with
    | zero => cases seed <;> exact lockstep_exhausted'
    | succ fuel' =>
      have inner : Lockstep place failing (joined (operand fuel) fuel levels none : Parse σ Expr)
          (joined (operand fuel') fuel' levels none : Parse τ Expr) :=
        lockstep_joined (ih fuel') fuel fuel' levels_eof none
      cases seed with
      | some seed => exact lockstep_callOrVariable inner fuel fuel' seed
      | none =>
        refine (lockstep_take (by decide)).bind fun operator => ?_
        split
        · exact (ih fuel' none).bind fun inner => lockstep_pure _
        · exact lockstep_factor inner fuel fuel'

/-- An expression is read alike, whatever name stands in front. -/
theorem lockstep_seededExpression (fuel fuel' : Nat) (seed : Option Name) :
    Lockstep place failing (seededExpression fuel seed : Parse σ Expr)
      (seededExpression fuel' seed : Parse τ Expr) :=
  lockstep_joined (lockstep_operand fuel fuel') fuel fuel' levels_eof seed

/-- An expression is read in lockstep. -/
theorem lockstep_expression (fuel fuel' : Nat) :
    Lockstep place failing (expression fuel : Parse σ Expr) (expression fuel' : Parse τ Expr) :=
  lockstep_seededExpression fuel fuel' none

/-- A list of expressions is read in lockstep. -/
theorem lockstep_expressions (fuel fuel' : Nat) :
    Lockstep place failing (expressions fuel : Parse σ (List Expr))
      (expressions fuel' : Parse τ (List Expr)) :=
  lockstep_commaSeparated (lockstep_expression fuel fuel') fuel fuel'

end Expressions

section Statements

/-- An assignment operator is read in lockstep. -/
theorem lockstep_assignOp :
    Lockstep place failing (assignOp : Parse σ AssignOp) (assignOp : Parse τ AssignOp) := by
  refine (lockstep_take (by decide)).bind fun compound => ?_
  split
  · exact lockstep_pure _
  · exact lockstep_eat (by decide) fun _ => lockstep_pure _

/-- An assignment is read in lockstep behind its first target. -/
theorem lockstep_assignmentTo (fuel fuel' : Nat) (declares : Bool) (first : Name) :
    Lockstep place failing (assignmentTo fuel declares first : Parse σ Stmt)
      (assignmentTo fuel' declares first : Parse τ Stmt) := by
  have more : Lockstep place failing (moreTargets fuel : Parse σ (List Name))
      (moreTargets fuel' : Parse τ (List Name)) := by
    refine (lockstep_accept (by decide)).bind fun several => ?_
    split
    · exact lockstep_commaSeparated (lockstep_name fuel fuel') fuel fuel'
    · exact lockstep_pure _
  have operator : Lockstep place failing (assignmentTo.operator declares : Parse σ AssignOp)
      (assignmentTo.operator declares : Parse τ AssignOp) := by
    unfold assignmentTo.operator
    split
    · exact lockstep_eat (by decide) fun _ => lockstep_pure _
    · exact lockstep_assignOp
  exact more.bind fun _ => operator.bind fun _ => (lockstep_expressions fuel fuel').bind fun _ =>
    lockstep_pure _

/-- An assignment is read in lockstep. -/
theorem lockstep_assignment (fuel fuel' : Nat) (declares : Bool) :
    Lockstep place failing (assignment fuel declares : Parse σ Stmt)
      (assignment fuel' declares : Parse τ Stmt) :=
  (lockstep_name fuel fuel').bind fun first => lockstep_assignmentTo fuel fuel' declares first

/-- A statement that starts with a name is read alike, if the current token is not the end token. -/
theorem agree_named (fuel fuel' : Nat) {left : Feed σ} {right : Feed τ}
    (alike : left.Alike place failing right) (more : left.current.kind ≠ .eof) :
    Agree place failing (Feed.Alike place failing) (named fuel left) (named fuel' right) := by
  refine (agree_peek alike more).bind fun next => ?_
  split
  · exact lockstep_assignment fuel fuel' false
  · split
    · refine (lockstep_name fuel fuel').bind fun first => lockstep_kind.bind fun behind => ?_
      split
      · exact lockstep_assignmentTo fuel fuel' false first
      · exact (lockstep_seededExpression fuel fuel' (some first)).bind fun _ => lockstep_pure _
    · exact (lockstep_expression fuel fuel').bind fun _ => lockstep_pure _

/-- The parameters of a function are read in lockstep. -/
theorem lockstep_parameters (fuel fuel' : Nat) :
    Lockstep place failing (parameters fuel : Parse σ (List Name))
      (parameters fuel' : Parse τ (List Name)) := by
  have listed : Lockstep place failing (parameters.listed fuel : Parse σ (List Name))
      (parameters.listed fuel' : Parse τ (List Name)) := by
    refine (lockstep_sees _).bind fun closed => ?_
    split
    · exact lockstep_pure _
    · exact lockstep_commaSeparated (lockstep_name fuel fuel') fuel fuel'
  exact lockstep_eat (by decide) fun _ => listed.bind fun _ =>
    lockstep_eat (by decide) fun _ => lockstep_pure _

/-- An error code is read in lockstep, if there is one. -/
theorem lockstep_errorCode :
    Lockstep place failing (errorCode : Parse σ (Option String))
      (errorCode : Parse τ (Option String)) := by
  refine (lockstep_accept (by decide)).bind fun coded => ?_
  split
  · exact lockstep_number.bind fun _ => lockstep_pure _
  · exact lockstep_pure _

/-- What is returned is read in lockstep. -/
theorem lockstep_returned (fuel fuel' : Nat) :
    Lockstep place failing (returned fuel : Parse σ Stmt) (returned fuel' : Parse τ Stmt) :=
  lockstep_eat (by decide) fun _ => (lockstep_expressions fuel fuel').bind fun _ =>
    lockstep_errorCode.bind fun _ => lockstep_pure _

variable {first : Parse σ Stmt} {second : Parse τ Stmt}

/-- The statements of a body are read in lockstep if a statement is. -/
theorem lockstep_statements (each : Lockstep place failing first second) (fuel fuel' : Nat) :
    Lockstep place failing (statements first fuel) (statements second fuel') := by
  induction fuel generalizing fuel' with
  | zero => exact lockstep_exhausted
  | succ fuel ih =>
    cases fuel' with
    | zero => exact lockstep_exhausted'
    | succ fuel' =>
      refine each.bind fun stmt => (lockstep_accept (by decide)).bind fun more => ?_
      split
      · exact (ih fuel').bind fun rest => lockstep_pure _
      · exact lockstep_pure _

/-- A block is read in lockstep if a statement is. -/
theorem lockstep_braced (each : Lockstep place failing first second) (fuel fuel' : Nat) :
    Lockstep place failing (braced first fuel) (braced second fuel') :=
  lockstep_eat (by decide) fun _ => (lockstep_statements each fuel fuel').bind fun _ =>
    lockstep_eat (by decide) fun _ => lockstep_pure _

/-- A branch is read in lockstep if a statement is. -/
theorem lockstep_branch (each : Lockstep place failing first second) (fuel fuel' : Nat) :
    Lockstep place failing (branch first fuel) (branch second fuel') := by
  have thenArm : Lockstep place failing (branch.first first fuel) (branch.first second fuel') := by
    refine (lockstep_sees _).bind fun block => ?_
    split
    · exact (lockstep_braced each fuel fuel').bind fun _ => lockstep_pure _
    · exact lockstep_eat (by decide) fun _ => each
  have elseArm : Lockstep place failing (branch.second first) (branch.second second) := by
    refine (lockstep_accept (by decide)).bind fun other => ?_
    split
    · exact each.bind fun _ => lockstep_pure _
    · exact lockstep_pure _
  exact lockstep_eat (by decide) fun _ =>
    (lockstep_condition (lockstep_expression fuel fuel') fuel fuel').bind fun _ =>
      thenArm.bind fun _ => elseArm.bind fun _ => lockstep_pure _

/-- A function is read in lockstep if a statement is. -/
theorem lockstep_definition (each : Lockstep place failing first second) (fuel fuel' : Nat) :
    Lockstep place failing (definition first fuel) (definition second fuel') := by
  have results : Lockstep place failing (definition.results fuel : Parse σ (List Name))
      (definition.results fuel' : Parse τ (List Name)) := by
    refine (lockstep_sees _).bind fun listed => ?_
    split
    · exact lockstep_parameters fuel fuel'
    · exact lockstep_pure _
  exact lockstep_eat (by decide) fun _ => (lockstep_name fuel fuel').bind fun _ =>
    (lockstep_parameters fuel fuel').bind fun _ => results.bind fun _ =>
      (lockstep_braced each fuel fuel').bind fun _ => lockstep_pure _

/-- A statement is read alike. -/
theorem lockstep_statement (fuel fuel' : Nat) :
    Lockstep place failing (statement fuel : Parse σ Stmt) (statement fuel' : Parse τ Stmt) := by
  induction fuel generalizing fuel' with
  | zero => exact lockstep_exhausted
  | succ fuel ih =>
    cases fuel' with
    | zero => exact lockstep_exhausted'
    | succ fuel' =>
      have each := ih fuel'
      intro left right alike
      rw [statement, statement]
      simp only [Bind.bind, EStateM.bind, kind, alike.current.kind]
      generalize known : left.current.kind = seen
      split
      · exact (lockstep_braced each fuel fuel').bind (fun _ => lockstep_pure _) alike
      · exact lockstep_branch each fuel fuel' alike
      · exact lockstep_definition each fuel fuel' alike
      · exact lockstep_returned fuel fuel' alike
      · exact lockstep_eat (by decide) (fun _ => lockstep_assignment fuel fuel' true) alike
      · exact agree_named (fuel + 1) (fuel' + 1) alike (by simp [known])
      · exact .ok alike
      · exact .ok alike
      · exact .ok alike
      · exact .ok alike
      · exact (lockstep_expression (fuel + 1) (fuel' + 1)).bind (fun _ => lockstep_pure _) alike

/-- Line breaks are skipped in lockstep. -/
theorem lockstep_skipLineBreaks (fuel fuel' : Nat) :
    Lockstep place failing (skipLineBreaks fuel : Parse σ Unit)
      (skipLineBreaks fuel' : Parse τ Unit) := by
  induction fuel generalizing fuel' with
  | zero => exact lockstep_exhausted
  | succ fuel ih =>
    cases fuel' with
    | zero => exact lockstep_exhausted'
    | succ fuel' =>
      refine (lockstep_accept (by decide)).bind fun skipped => ?_
      split
      · exact ih fuel'
      · exact lockstep_pure _

/-- The imports are read in lockstep. -/
theorem lockstep_imports (fuel fuel' : Nat) :
    Lockstep place failing (imports fuel : Parse σ (List String))
      (imports fuel' : Parse τ (List String)) := by
  induction fuel generalizing fuel' with
  | zero => exact lockstep_exhausted
  | succ fuel ih =>
    cases fuel' with
    | zero => exact lockstep_exhausted'
    | succ fuel' =>
      refine (lockstep_accept (by decide)).bind fun imported => ?_
      split
      · refine lockstep_eat (by decide) fun same => (lockstep_sees _).bind fun last => ?_
        rw [same.text]
        split
        · exact lockstep_pure _
        · exact lockstep_eat (by decide) fun _ => (ih fuel').bind fun rest => lockstep_pure _
      · exact lockstep_pure _

/-- Programs are read alike, and to their end only if the left source does not fail. -/
theorem agree_program (fuel fuel' : Nat) {left : Feed σ} {right : Feed τ}
    (alike : left.Alike place failing right) :
    Agree place failing (fun _ _ => failing = none) (program fuel left) (program fuel' right) := by
  refine (lockstep_skipLineBreaks fuel fuel' alike).bind fun _ left right alike => ?_
  refine (lockstep_imports fuel fuel' alike).bind fun paths left right alike => ?_
  refine (lockstep_statements (lockstep_statement fuel fuel') fuel fuel' alike).bind
    fun body left right alike => ?_
  simp only [Bind.bind, EStateM.bind, eat]
  cases alike with
  | ended same last gives gives' =>
    obtain ⟨token, left', here⟩ := gives
    obtain ⟨token', right', here'⟩ := gives'
    simp only [same.kind, last, if_true, advance, here, here']
    exact .ok trivial
  | fresh same more _ | peeked same more _ =>
    have refused := @ParseError.Alike.unexpected place .eof _ _ same
    rw [same.kind] at refused
    simp only [same.kind, more, if_false]
    exact .fault refused

end Statements

end Parse

end ScriptLang

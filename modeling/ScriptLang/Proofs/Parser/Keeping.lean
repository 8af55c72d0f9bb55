import ScriptLang.Proofs.Parser.Reading

/-!
# What the parser keeps in front of the end

Up to the end of the input that a program is read from, the parser moves on and looks ahead in front
of tokens that are no end tokens, and it does nothing else to its feed. So a property of feeds that
these two steps keep holds of the feed that it leaves, be it with a result, with a fault, or because
its fuel is used up.
-/

namespace ScriptLang

namespace Parse

variable {σ : Type} {α β : Type}

/-- The feed that a computation leaves, whatever its outcome is. -/
def left : EStateM.Result Stop (Feed σ) α → Feed σ
  | .ok _ behind => behind
  | .error _ behind => behind

/-- A result leaves the feed behind it. -/
@[simp] theorem left_ok (value : α) (behind : Feed σ) : left (.ok value behind) = behind := rfl

/-- A fault leaves the feed where it was met. -/
@[simp] theorem left_error (stop : Stop) (behind : Feed σ) :
    left (.error stop behind : EStateM.Result Stop (Feed σ) α) = behind := rfl

/-- The computation leaves a feed of the property if it starts from one. -/
def Keeps (property : Feed σ → Prop) (computation : Parse σ α) : Prop :=
  ∀ ⦃feed : Feed σ⦄, property feed → property (left (computation feed))

/-- Neither moving on nor looking ahead breaks the property in front of the end token. -/
structure Movable [TokenSource σ] (property : Feed σ → Prop) : Prop where
  advance : ∀ {feed : Feed σ}, property feed → feed.current.kind ≠ .eof →
    property (left (advance feed))
  peek : ∀ {feed : Feed σ}, property feed → feed.current.kind ≠ .eof → property (left (peek feed))

variable {property : Feed σ → Prop}

section Steps

/-- Giving a value moves nothing. -/
theorem keeps_pure (value : α) : Keeps property (pure value) :=
  fun _ holds => holds

/-- A fault moves nothing. -/
theorem keeps_fail (error : ParseError) : Keeps property (fail error : Parse σ α) :=
  fun _ holds => holds

/-- Running out of fuel moves nothing. -/
theorem keeps_exhausted : Keeps property (exhausted : Parse σ α) :=
  fun _ holds => holds

/-- Asking for the current kind moves nothing. -/
theorem keeps_kind : Keeps property (kind : Parse σ Token.Kind) :=
  fun _ holds => holds

/-- Comparing the current kind moves nothing. -/
theorem keeps_sees (expected : Token.Kind) : Keeps property (sees expected : Parse σ Bool) :=
  fun _ holds => holds

/-- What holds behind a step holds behind a computation that goes on from there and keeps it. -/
theorem left_bind {first : Parse σ α} {next : α → Parse σ β} {feed : Feed σ}
    (here : property (left (first feed))) (there : ∀ value, Keeps property (next value)) :
    property (left ((first >>= next) feed)) := by
  simp only [Bind.bind, EStateM.bind]
  cases outcome : first feed with
  | ok value behind =>
    rw [outcome] at here
    exact there value here
  | error stop behind =>
    rw [outcome] at here
    exact here

/-- Two steps keep the property if each does. -/
theorem Keeps.bind {first : Parse σ α} {next : α → Parse σ β} (here : Keeps property first)
    (there : ∀ value, Keeps property (next value)) : Keeps property (first >>= next) :=
  fun _ holds => left_bind (here holds) there

variable [TokenSource σ] (movable : Movable property)
include movable

/-- Eating a token that is not the end is one move in front of the end. -/
theorem keeps_eat {expected : Token.Kind} (more : expected ≠ .eof) :
    Keeps property (eat expected : Parse σ Token) := by
  intro feed holds
  by_cases seen : feed.current.kind = expected
  · simpa [eat, seen] using movable.advance holds (seen ▸ more)
  · simpa [eat, seen] using holds

/-- Accepting a token that is not the end is one move in front of the end, or none. -/
theorem keeps_accept {expected : Token.Kind} (more : expected ≠ .eof) :
    Keeps property (accept expected : Parse σ Bool) := by
  intro feed holds
  by_cases seen : feed.current.kind = expected
  · have moved := movable.advance holds (seen ▸ more)
    simp only [accept, seen, if_true]
    cases outcome : advance feed <;> simpa [outcome] using moved
  · simpa [accept, seen] using holds

/-- Taking a token that means something is one move, if the end means nothing. -/
theorem keeps_take {meaning? : Token.Kind → Option α} (more : meaning? .eof = none) :
    Keeps property (take? meaning? : Parse σ (Option α)) := by
  intro feed holds
  cases seen : meaning? feed.current.kind with
  | none => simpa [take?, seen] using holds
  | some meaning =>
    have here : feed.current.kind ≠ .eof := by
      rintro last
      simp [last, more] at seen
    have moved := movable.advance holds here
    simp only [take?, seen]
    cases outcome : advance feed <;> simpa [outcome] using moved

end Steps

variable [TokenSource σ] (movable : Movable property)
include movable

section Lists

/-- Items with commas between them keep the property if the item does. -/
theorem keeps_commaSeparated {item : Parse σ α} (each : Keeps property item) (fuel : Nat) :
    Keeps property (commaSeparated item fuel) := by
  induction fuel with
  | zero => exact keeps_exhausted
  | succ fuel ih =>
    refine each.bind fun first => (keeps_accept movable (by decide)).bind fun more => ?_
    split
    · exact ih.bind fun rest => keeps_pure _
    · exact keeps_pure _

/-- Operands with operators between them keep the property if the operand does. -/
theorem keeps_leftAssociated {operator? : Token.Kind → Option (α → α → α)} {operand : Parse σ α}
    (none_eof : operator? .eof = none) (each : Keeps property operand) (fuel : Nat) (first : α) :
    Keeps property (leftAssociated operator? operand fuel first) := by
  induction fuel generalizing first with
  | zero => exact keeps_exhausted
  | succ fuel ih =>
    refine (keeps_take movable none_eof).bind fun operator => ?_
    split
    · exact each.bind fun right => ih _
    · exact keeps_pure _

end Lists

section Expressions

/-- Reading the dotted rest of a name keeps the property. -/
theorem keeps_nameRest (fuel : Nat) (name : Name) :
    Keeps property (nameRest fuel name : Parse σ Name) := by
  induction fuel generalizing name with
  | zero => exact keeps_exhausted
  | succ fuel ih =>
    refine (keeps_accept movable (by decide)).bind fun dotted => ?_
    split
    · exact (keeps_eat movable (by decide)).bind fun word => ih _
    · exact keeps_pure name

/-- Reading a name keeps the property. -/
theorem keeps_name (fuel : Nat) : Keeps property (name fuel : Parse σ Name) :=
  (keeps_eat movable (by decide)).bind fun word => keeps_nameRest movable fuel word.text

/-- Reading a number keeps the property. -/
theorem keeps_number : Keeps property (number : Parse σ (String × Word)) := by
  refine (keeps_eat movable (by decide)).bind fun token => ?_
  split
  · exact keeps_pure _
  · exact keeps_fail _

/-- Reading operands through several levels of operators keeps the property if the operand does. -/
theorem keeps_joined {operand : Option Name → Parse σ Expr}
    (each : ∀ seed, Keeps property (operand seed)) (fuel : Nat) {operators : List Level}
    (none_eof : ∀ operator? ∈ operators, operator? .eof = none) (seed : Option Name) :
    Keeps property (joined operand fuel operators seed) := by
  induction operators generalizing seed with
  | nil => exact each seed
  | cons operator? tighter ih =>
    have operands := ih fun other listed => none_eof other (List.mem_cons_of_mem _ listed)
    exact (operands seed).bind fun first => keeps_leftAssociated movable
      (none_eof operator? List.mem_cons_self) (operands none) fuel first

variable {expression : Parse σ Expr}

/-- Reading a condition behind any number of `not` keeps the property. -/
theorem keeps_negation (each : Keeps property expression) (fuel : Nat) :
    Keeps property (negation expression fuel) := by
  induction fuel with
  | zero => exact keeps_exhausted
  | succ fuel ih =>
    refine (keeps_accept movable (by decide)).bind fun negated => ?_
    split
    · exact ih.bind fun inner => keeps_pure _
    · exact each

/-- Reading a condition keeps the property. -/
theorem keeps_condition (each : Keeps property expression) (fuel : Nat) :
    Keeps property (condition expression fuel) := by
  have negations := keeps_negation movable each fuel
  have conjunctions : Keeps property (condition.conjunction expression fuel) :=
    negations.bind fun first => keeps_leftAssociated movable (by decide) negations fuel first
  exact conjunctions.bind fun first =>
    keeps_leftAssociated movable (by decide) conjunctions fuel first

/-- Reading a call, or the variable that stands in its place, keeps the property. -/
theorem keeps_callOrVariable (each : Keeps property expression) (fuel : Nat) (name : Name) :
    Keeps property (callOrVariable expression fuel name) := by
  have args : Keeps property (callOrVariable.arguments expression fuel) := by
    refine (keeps_sees _).bind fun closed => ?_
    split
    · exact keeps_pure _
    · exact keeps_commaSeparated movable each fuel
  refine (keeps_accept movable (by decide)).bind fun called => ?_
  split
  · exact args.bind fun args => (keeps_eat movable (by decide)).bind fun _ => keeps_pure _
  · exact keeps_pure _

/-- Reading an operand without operators keeps the property. -/
theorem keeps_factor (each : Keeps property expression) (fuel : Nat) :
    Keeps property (factor expression fuel) := by
  refine keeps_kind.bind fun kind => ?_
  split
  · exact (keeps_number movable).bind fun _ => keeps_pure _
  · exact (keeps_eat movable (by decide)).bind fun _ => keeps_pure _
  · exact (keeps_eat movable (by decide)).bind fun _ =>
      (keeps_condition movable each fuel).bind fun inner =>
        (keeps_eat movable (by decide)).bind fun _ => keeps_pure _
  · exact (keeps_name movable fuel).bind fun name => keeps_callOrVariable movable each fuel name

/-- Reading an operand keeps the property, by induction on the fuel that its parts have. -/
theorem keeps_operand (fuel : Nat) (seed : Option Name) :
    Keeps property (operand fuel seed : Parse σ Expr) := by
  induction fuel generalizing seed with
  | zero => cases seed <;> exact keeps_exhausted
  | succ fuel ih =>
    have inner : Keeps property (joined (operand fuel) fuel levels none : Parse σ Expr) :=
      keeps_joined movable ih fuel levels_eof none
    cases seed with
    | some seed => exact keeps_callOrVariable movable inner fuel seed
    | none =>
      refine (keeps_take movable rfl).bind fun operator => ?_
      split
      · exact (ih none).bind fun inner => keeps_pure _
      · exact keeps_factor movable inner fuel

/-- Reading an expression behind a name that was read keeps the property. -/
theorem keeps_seededExpression (fuel : Nat) (seed : Option Name) :
    Keeps property (seededExpression fuel seed : Parse σ Expr) :=
  keeps_joined movable (keeps_operand movable fuel) fuel levels_eof seed

/-- Reading an expression keeps the property. -/
theorem keeps_expression (fuel : Nat) : Keeps property (Parse.expression fuel : Parse σ Expr) :=
  keeps_seededExpression movable fuel none

/-- Reading a list of expressions keeps the property. -/
theorem keeps_expressions (fuel : Nat) :
    Keeps property (expressions fuel : Parse σ (List Expr)) :=
  keeps_commaSeparated movable (keeps_expression movable fuel) fuel

end Expressions

section Statements

/-- Reading an assignment operator keeps the property. -/
theorem keeps_assignOp : Keeps property (assignOp : Parse σ AssignOp) := by
  refine (keeps_take movable rfl).bind fun compound => ?_
  split
  · exact keeps_pure _
  · exact (keeps_eat movable (by decide)).bind fun _ => keeps_pure _

/-- Reading an assignment behind its first target keeps the property. -/
theorem keeps_assignmentTo (fuel : Nat) (declares : Bool) (first : Name) :
    Keeps property (assignmentTo fuel declares first : Parse σ Stmt) := by
  have more : Keeps property (moreTargets fuel : Parse σ (List Name)) := by
    refine (keeps_accept movable (by decide)).bind fun several => ?_
    split
    · exact keeps_commaSeparated movable (keeps_name movable fuel) fuel
    · exact keeps_pure _
  have operator : Keeps property (assignmentTo.operator declares : Parse σ AssignOp) := by
    unfold assignmentTo.operator
    split
    · exact (keeps_eat movable (by decide)).bind fun _ => keeps_pure _
    · exact keeps_assignOp movable
  exact more.bind fun _ => operator.bind fun _ => (keeps_expressions movable fuel).bind fun _ =>
    keeps_pure _

/-- Reading an assignment keeps the property. -/
theorem keeps_assignment (fuel : Nat) (declares : Bool) :
    Keeps property (assignment fuel declares : Parse σ Stmt) :=
  (keeps_name movable fuel).bind fun first => keeps_assignmentTo movable fuel declares first

/-- A statement that starts with a name looks behind the current token, which must not be the end
token. -/
theorem left_named (fuel : Nat) {feed : Feed σ} (holds : property feed)
    (more : feed.current.kind ≠ .eof) : property (left (named fuel feed)) := by
  refine left_bind (movable.peek holds more) fun next => ?_
  split
  · exact keeps_assignment movable fuel false
  · split
    · refine (keeps_name movable fuel).bind fun first => keeps_kind.bind fun behind => ?_
      split
      · exact keeps_assignmentTo movable fuel false first
      · exact (keeps_seededExpression movable fuel (some first)).bind fun _ => keeps_pure _
    · exact (keeps_expression movable fuel).bind fun _ => keeps_pure _

/-- Reading the parameters of a function keeps the property. -/
theorem keeps_parameters (fuel : Nat) :
    Keeps property (parameters fuel : Parse σ (List Name)) := by
  have listed : Keeps property (parameters.listed fuel : Parse σ (List Name)) := by
    refine (keeps_sees _).bind fun closed => ?_
    split
    · exact keeps_pure _
    · exact keeps_commaSeparated movable (keeps_name movable fuel) fuel
  exact (keeps_eat movable (by decide)).bind fun _ => listed.bind fun _ =>
    (keeps_eat movable (by decide)).bind fun _ => keeps_pure _

/-- Reading an error code, if there is one, keeps the property. -/
theorem keeps_errorCode : Keeps property (errorCode : Parse σ (Option String)) := by
  refine (keeps_accept movable (by decide)).bind fun coded => ?_
  split
  · exact (keeps_number movable).bind fun _ => keeps_pure _
  · exact keeps_pure _

/-- Reading what is returned keeps the property. -/
theorem keeps_returned (fuel : Nat) : Keeps property (returned fuel : Parse σ Stmt) :=
  (keeps_eat movable (by decide)).bind fun _ => (keeps_expressions movable fuel).bind fun _ =>
    (keeps_errorCode movable).bind fun _ => keeps_pure _

variable {statement : Parse σ Stmt}

/-- Reading the statements of a body keeps the property if reading a statement does. -/
theorem keeps_statements (each : Keeps property statement) (fuel : Nat) :
    Keeps property (statements statement fuel) := by
  induction fuel with
  | zero => exact keeps_exhausted
  | succ fuel ih =>
    refine each.bind fun stmt => (keeps_accept movable (by decide)).bind fun more => ?_
    split
    · exact ih.bind fun rest => keeps_pure _
    · exact keeps_pure _

/-- Reading a block keeps the property if reading a statement does. -/
theorem keeps_braced (each : Keeps property statement) (fuel : Nat) :
    Keeps property (braced statement fuel) :=
  (keeps_eat movable (by decide)).bind fun _ => (keeps_statements movable each fuel).bind fun _ =>
    (keeps_eat movable (by decide)).bind fun _ => keeps_pure _

/-- Reading a branch keeps the property if reading a statement does. -/
theorem keeps_branch (each : Keeps property statement) (fuel : Nat) :
    Keeps property (branch statement fuel) := by
  have thenArm : Keeps property (branch.first statement fuel) := by
    refine (keeps_sees _).bind fun block => ?_
    split
    · exact (keeps_braced movable each fuel).bind fun _ => keeps_pure _
    · exact (keeps_eat movable (by decide)).bind fun _ => each
  have elseArm : Keeps property (branch.second statement) := by
    refine (keeps_accept movable (by decide)).bind fun other => ?_
    split
    · exact each.bind fun _ => keeps_pure _
    · exact keeps_pure _
  exact (keeps_eat movable (by decide)).bind fun _ =>
    (keeps_condition movable (keeps_expression movable fuel) fuel).bind fun _ =>
      thenArm.bind fun _ => elseArm.bind fun _ => keeps_pure _

/-- Reading a function keeps the property if reading a statement does. -/
theorem keeps_definition (each : Keeps property statement) (fuel : Nat) :
    Keeps property (definition statement fuel) := by
  have results : Keeps property (definition.results fuel : Parse σ (List Name)) := by
    refine (keeps_sees _).bind fun listed => ?_
    split
    · exact keeps_parameters movable fuel
    · exact keeps_pure _
  exact (keeps_eat movable (by decide)).bind fun _ => (keeps_name movable fuel).bind fun _ =>
    (keeps_parameters movable fuel).bind fun _ => results.bind fun _ =>
      (keeps_braced movable each fuel).bind fun _ => keeps_pure _

/-- Reading a statement keeps the property, by induction on the fuel. -/
theorem keeps_statement (fuel : Nat) : Keeps property (Parse.statement fuel : Parse σ Stmt) := by
  induction fuel with
  | zero => exact keeps_exhausted
  | succ fuel ih =>
    intro feed holds
    rw [Parse.statement]
    simp only [Bind.bind, EStateM.bind, kind]
    generalize known : feed.current.kind = seen
    split
    · exact (keeps_braced movable ih fuel).bind (fun _ => keeps_pure _) holds
    · exact keeps_branch movable ih fuel holds
    · exact keeps_definition movable ih fuel holds
    · exact keeps_returned movable fuel holds
    · exact (keeps_eat movable (by decide)).bind (fun _ => keeps_assignment movable fuel true) holds
    · exact left_named movable (fuel + 1) holds (by simp [known])
    · exact holds
    · exact holds
    · exact holds
    · exact holds
    · exact (keeps_expression movable (fuel + 1)).bind (fun _ => keeps_pure _) holds

/-- Skipping line breaks keeps the property. -/
theorem keeps_skipLineBreaks (fuel : Nat) :
    Keeps property (skipLineBreaks fuel : Parse σ Unit) := by
  induction fuel with
  | zero => exact keeps_exhausted
  | succ fuel ih =>
    refine (keeps_accept movable (by decide)).bind fun skipped => ?_
    split
    · exact ih
    · exact keeps_pure _

/-- Reading the imports keeps the property. -/
theorem keeps_imports (fuel : Nat) : Keeps property (imports fuel : Parse σ (List String)) := by
  induction fuel with
  | zero => exact keeps_exhausted
  | succ fuel ih =>
    refine (keeps_accept movable (by decide)).bind fun imported => ?_
    split
    · refine (keeps_eat movable (by decide)).bind fun path => (keeps_sees _).bind fun last => ?_
      split
      · exact keeps_pure _
      · exact (keeps_eat movable (by decide)).bind fun _ => ih.bind fun rest => keeps_pure _
    · exact keeps_pure _

/-- Up to the end of the input the parser keeps the property. -/
theorem keeps_contents (fuel : Nat) : Keeps property (contents fuel : Parse σ Program) :=
  (keeps_skipLineBreaks movable fuel).bind fun _ => (keeps_imports movable fuel).bind fun _ =>
    (keeps_statements movable (keeps_statement movable fuel) fuel).bind fun _ => keeps_pure _

end Statements

end Parse

end ScriptLang

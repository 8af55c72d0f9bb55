import ScriptLang.Run.Fault
import ScriptLang.Scope.Table

/-!
# The state of a run

A run keeps a table of open scopes, a registry of the functions that were defined in them, the last
error code and the number of open frames. A function symbol holds an index into the registry.
`withScope` and `withFrame` leave their scope at the end, whether the body gave a result or met a
fault. How a scope is left is a parameter; a program runs with `RunState.recycle`, which closes the
scope and forgets its functions.
-/

namespace ScriptLang

/-- A function that was defined, and the scope of its definition. -/
structure Routine where
  params : List Name
  returns : List Name
  body : List Stmt
  scope : Nat

/-- The state of a run. -/
structure RunState where
  table : ScopeTable Nat
  routines : List Routine
  errorCode : Option Word
  /-- The number of open frames. -/
  depth : Nat

/-- The state in which a program starts. -/
def RunState.new : RunState := ⟨ScopeTable.new, [], none, 0⟩

/-- How a scope is left: the state in front of the scope and the state at its end give the state
behind it. -/
abbrev Leaving : Type := RunState → RunState → RunState

/-- Closes the newest scope, goes back to the scope in front of it and forgets the functions that
were defined in it. -/
def RunState.recycle : Leaving := fun outside final =>
  { final with
    table := final.table.exit outside.table.current
    routines := final.routines.take outside.routines.length }

/-- A computation within a run; a fault keeps the state in which it arose. -/
abbrev Run (α : Type) : Type := EStateM Fault RunState α

namespace Run

/-- Takes the result or stops with the fault. -/
def ofExcept {α : Type} : Except Fault α → Run α
  | .ok value => pure value
  | .error fault => throw fault

/-- Changes the table of scopes. -/
def updateTable (change : ScopeTable Nat → Except NameError (ScopeTable Nat)) : Run Unit :=
  fun state =>
    match change state.table with
    | .ok table => .ok () { state with table }
    | .error error => .error (.name error) state

/-- Declares a variable in the current scope. -/
def declare (name : Name) (value : Word) : Run Unit :=
  updateTable (·.declare name value)

/-- Gives a variable a new value. -/
def assign (name : Name) (value : Word) : Run Unit :=
  updateTable (·.set name value)

/-- The value of a variable. -/
def read (name : Name) : Run Word := fun state =>
  match state.table.value name with
  | .ok word => .ok word state
  | .error error => .error (.name error) state

/-- Defines a function in the current scope and registers it. -/
def define (name : Name) (params returns : List Name) (body : List Stmt) : Run Unit :=
  fun state =>
    match state.table.declareFunction name state.routines.length with
    | .ok table =>
        let routine : Routine := ⟨params, returns, body, table.current⟩
        .ok () { state with table, routines := state.routines ++ [routine] }
    | .error error => .error (.name error) state

/-- The function that a name means. -/
def routine (name : Name) : Run Routine := fun state =>
  match state.table.get? name with
  | none => .error (.name (.undefinedReference name)) state
  | some (.variable _) => .error (.name (.kindMismatch name .func .variable)) state
  | some (.func index) =>
      match state.routines[index]? with
      | some routine => .ok routine state
      | none => .error (.lostRoutine index) state

/-- Keeps the error code of a `return`. -/
def setErrorCode (code : Word) : Run Unit :=
  modify fun state => { state with errorCode := some code }

section

variable (leave : Leaving)

/-- Runs in a new scope within the scope with the given index, then leaves the scope. -/
def withScopeUnder {α : Type} (parent : Nat) (body : Run α) : Run α := fun state =>
  match body { state with table := state.table.enterUnder parent } with
  | .ok value final => .ok value (leave state final)
  | .error fault final => .error fault (leave state final)

/-- Runs in a new scope within the current one. -/
def withScope {α : Type} (body : Run α) : Run α := fun state =>
  withScopeUnder leave state.table.current body state

/-- Runs in a new frame, whose scope lies within the scope with the given index. -/
def withFrame {α : Type} (parent : Nat) (body : Run α) : Run α := fun state =>
  match withScopeUnder leave parent body { state with depth := state.depth + 1 } with
  | .ok value final => .ok value { final with depth := final.depth - 1 }
  | .error fault final => .error fault { final with depth := final.depth - 1 }

end

end Run

end ScriptLang

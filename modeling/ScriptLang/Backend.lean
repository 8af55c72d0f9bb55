import ScriptLang.Emit.Statement
import ScriptLang.Run.Execution
import ScriptLang.Tree.Parser

/-!
# Back-ends

The ways to make use of a program, each under its name: running it, or printing it in a dialect.
-/

namespace ScriptLang

/-- A way to make use of a program. -/
inductive Backend where
  | interpreter
  | emitter (dialect : Dialect)
deriving DecidableEq, Repr

/-- What can stop a back-end. -/
inductive BackendError where
  | run (fault : Fault)
  | emit (error : EmitError)
deriving DecidableEq, Repr

/-- The text that reports the error. -/
def BackendError.message : BackendError → String
  | run fault => fault.message
  | emit error => error.message

namespace Backend

/-- Lists the back-ends. -/
def all : List Backend := [interpreter, emitter .c, emitter .go]

/-- The name of a back-end. -/
def name : Backend → String
  | interpreter => "interpreter"
  | emitter dialect => dialect.name

/-- The back-end with a name. -/
def ofName? (name : String) : Option Backend :=
  all.find? (·.name = name)

/-- Every back-end is listed. -/
theorem mem_all (backend : Backend) : backend ∈ all := by
  rcases backend with _ | ⟨_ | _⟩ <;> decide

/-- A back-end is found by its name. -/
theorem ofName?_name (backend : Backend) : ofName? backend.name = some backend := by
  rcases backend with _ | ⟨_ | _⟩ <;> decide

/-- The text that reports a name without a back-end. -/
def unknownMessage (name : String) : String :=
  "unknown backend '" ++ name ++ "'"

/-- The text that a back-end makes of a program. -/
def apply (backend : Backend) (program : Program) : Except BackendError String :=
  match backend with
  | interpreter =>
      ((program.execute defaultCallLimit).mapError .run).map Execution.render
  | emitter dialect => (program.emit dialect).mapError .emit

end Backend

end ScriptLang

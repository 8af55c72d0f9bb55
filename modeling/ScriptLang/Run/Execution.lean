import ScriptLang.Run.Walk
import ScriptLang.Text.Trimmed

/-!
# Executions

What a program leaves behind when it has run: the variables of the root scope, the results of a
`return` outside of all functions, and the last error code. `Execution.render` writes these down,
one on a line.
-/

namespace ScriptLang

/-- The outcome of a run that met no fault. -/
structure Execution where
  globals : List (Name × Word)
  returned : Option (List Word)
  errorCode : Option Word
deriving DecidableEq, Repr

namespace Execution

/-- The value of a variable of the root scope. -/
def get? (execution : Execution) (name : Name) : Option Word :=
  execution.globals.lookup name

/-- The lines that write an execution down. -/
def lines (execution : Execution) : List String :=
  execution.globals.map (fun (name, value) => name ++ " = " ++ Word.decimal value) ++
    execution.returned.toList.map
      (fun values => "return " ++ ", ".intercalate (values.map Word.decimal)) ++
    execution.errorCode.toList.map (fun code => "error code " ++ Word.decimal code)

/-- The text that writes an execution down, without white space at its end. -/
def render (execution : Execution) : String :=
  Text.trimEnd (String.join (execution.lines.map (· ++ "\n")))

end Execution

/-- The limit of open frames where none is given. -/
def defaultCallLimit : Nat := 256

namespace Program

/-- Runs the statements of a program in the root scope. -/
def walk (leave : Leaving) (limit : Nat) (program : Program) : Run Flow :=
  Run.execAll leave (Run.call limit (Run.enter leave limit limit)) program.body

/-- Runs a program with at most the given number of open frames, and with a way to leave its
scopes. Imports mean nothing to a run. -/
def executeLeaving (leave : Leaving) (limit : Nat) (program : Program) : Except Fault Execution :=
  match program.walk leave limit RunState.new with
  | .ok flow final =>
      let returned := match flow with
        | .returned values => some values
        | .next => none
      .ok ⟨final.table.rootVariables, returned, final.errorCode⟩
  | .error fault _ => .error fault

/-- Runs a program with at most the given number of open frames. -/
def execute (limit : Nat) (program : Program) : Except Fault Execution :=
  program.executeLeaving RunState.recycle limit

end Program

end ScriptLang

import ScriptLang.Scope.Basic

/-!
# Faults of a run

What can stop a program that is running.
-/

namespace ScriptLang

/-- The faults of a run. -/
inductive Fault where
  | name (error : NameError)
  | shapeMismatch (targets values : Nat)
  | unsupportedOperator (symbol : String)
  | missingOperand (op : LogicOp)
  | stringAsNumber (text : String)
  | errorCodeNotNumber (literal : String)
  | divisionByZero
  | overflow (symbol : String)
  | arityMismatch (callee : Name) (expected found : Nat)
  | noValue (callee : Name)
  | callDepthExceeded (limit : Nat)
  /-- A function symbol refers to a routine that is not registered: no program brings this about. -/
  | lostRoutine (index : Nat)
deriving DecidableEq, Repr

/-- The text that reports the fault. -/
def Fault.message : Fault → String
  | name error => error.message
  | shapeMismatch targets values =>
      "Assignment shape mismatch: " ++ toString targets ++ " targets, " ++ toString values ++
        " values"
  | unsupportedOperator symbol =>
      "Operator '" ++ symbol ++ "' is not supported by the interpreter"
  | missingOperand op => "Operator '" ++ op.symbol ++ "' is missing its left operand"
  | stringAsNumber text => "Cannot use string \"" ++ text ++ "\" as an integer"
  | errorCodeNotNumber literal => "Cannot use error code '" ++ literal ++ "' as an integer"
  | divisionByZero => "Division by zero"
  | overflow symbol => "Integer overflow in '" ++ symbol ++ "'"
  | arityMismatch callee expected found =>
      "Function '" ++ callee ++ "' expected " ++ toString expected ++ " arguments, got " ++
        toString found
  | noValue callee => "Function '" ++ callee ++ "' returned no value"
  | callDepthExceeded limit => "Call depth exceeded the limit of " ++ toString limit
  | lostRoutine index => "Routine " ++ toString index ++ " is not registered"

end ScriptLang

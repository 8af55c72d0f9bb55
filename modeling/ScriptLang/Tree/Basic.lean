import ScriptLang.Word

/-!
# Programs as trees

What a script means before anyone runs or prints it: expressions, statements, and a program as a
list of imports and a list of statements. Trees carry no positions.
-/

namespace ScriptLang

/-- A name, possibly of several words joined by dots. -/
abbrev Name := String

/-- Whether a name has several words; such a name refers to a thing outside the program. -/
def Name.isDotted (name : Name) : Bool :=
  name.toList.contains '.'

/-- The operators that stand before their operand. -/
inductive UnaryOp where
  | negate
  | plus
  | deref
  | addressOf
  | not
  | bitNot
deriving DecidableEq, Repr

/-- How an operator before its operand is written. -/
def UnaryOp.symbol : UnaryOp → String
  | negate => "-"
  | plus => "+"
  | deref => "*"
  | addressOf => "&"
  | not => "!"
  | bitNot => "~"

/-- The operators on two words. -/
inductive BinaryOp where
  | add
  | sub
  | mul
  | div
  | bitAnd
  | bitOr
  | bitXor
deriving DecidableEq, Repr

/-- How an operator on two words is written. -/
def BinaryOp.symbol : BinaryOp → String
  | add => "+"
  | sub => "-"
  | mul => "*"
  | div => "/"
  | bitAnd => "&"
  | bitOr => "|"
  | bitXor => "^"

/-- The operators that give a truth value. -/
inductive LogicOp where
  | and
  | or
  | not
  | equal
  | notEqual
  | less
  | lessEqual
  | greater
  | greaterEqual
deriving DecidableEq, Repr

/-- How an operator that gives a truth value is written. -/
def LogicOp.symbol : LogicOp → String
  | and => "&&"
  | or => "||"
  | not => "!"
  | equal => "=="
  | notEqual => "!="
  | less => "<"
  | lessEqual => "<="
  | greater => ">"
  | greaterEqual => ">="

/-- Assignment, plain or with an arithmetic operation on the old value. -/
inductive AssignOp where
  | set
  | add
  | sub
  | mul
  | div
deriving DecidableEq, Repr

/-- How an assignment is written. -/
def AssignOp.symbol : AssignOp → String
  | set => "="
  | add => "+="
  | sub => "-="
  | mul => "*="
  | div => "/="

/-- The operation that a compound assignment applies to the old value; `none` for a plain one. -/
def AssignOp.arithmetic? : AssignOp → Option BinaryOp
  | set => none
  | add => some .add
  | sub => some .sub
  | mul => some .mul
  | div => some .div

/-- An expression. A number keeps its spelling beside its value; a cast names its type on the
right. -/
inductive Expr where
  | number (literal : String) (value : Word)
  | string (text : String)
  | variable (name : Name)
  | unary (op : UnaryOp) (operand : Expr)
  | binary (op : BinaryOp) (left right : Expr)
  | cast (value type : Expr)
  | logic (op : LogicOp) (left right : Expr)
  /-- An operator that gives a truth value and has no left operand. -/
  | logicPrefix (op : LogicOp) (right : Expr)
  | call (callee : Name) (args : List Expr)
deriving Repr

/-- A statement. -/
inductive Stmt where
  /-- Gives each target its value; a single value is for every target. -/
  | assign (declares : Bool) (targets : List Name) (op : AssignOp) (values : List Expr)
  | branch (condition : Expr) (thenArm : Stmt) (elseArm : Option Stmt)
  | func (name : Name) (params returns : List Name) (body : List Stmt)
  /-- Ends the running function; the error code is kept as it is written. -/
  | ret (values : List Expr) (errorCode : Option String)
  | block (body : List Stmt)
  | expr (value : Expr)
  | empty
deriving Repr

/-- A program: the paths that it imports and its statements. -/
structure Program where
  imports : List String
  body : List Stmt
deriving Repr

/-- Whether a statement does nothing and leaves no trace in a list of statements. -/
def Stmt.isEmpty : Stmt → Bool
  | empty => true
  | _ => false

end ScriptLang

import ScriptLang.Emit.Dialect
import ScriptLang.Scope.Table

/-!
# Printing expressions

An expression is printed with all its parentheses, after every plain name in it was found in the
table of scopes. Dotted names refer to things outside the program and are not looked for, and
neither is the name of a type.
-/

namespace ScriptLang

/-- What can stop the printing of a program. -/
inductive EmitError where
  | name (error : NameError)
  /-- A condition has no outer parentheses to take off, which no program that was read brings
  about. -/
  | unwrappedCondition (text : String)
deriving DecidableEq, Repr

/-- The text that reports the error. -/
def EmitError.message : EmitError → String
  | name error => error.message
  | unwrappedCondition text => "Condition '" ++ text ++ "' has no outer parentheses"

namespace Emit

/-- Fails unless a name is dotted or means something. -/
def check (table : ScopeTable Nat) (name : Name) : Except EmitError Unit :=
  if name.isDotted ∨ (table.get? name).isSome then .ok ()
  else .error (.name (.undefinedReference name))

/-- An operator between its operands, in parentheses. -/
def between (symbol left right : String) : String :=
  "(" ++ left ++ " " ++ symbol ++ " " ++ right ++ ")"

/-- The type that a cast names. -/
def typeName? : Expr → Option Name
  | .variable name => some name
  | _ => none

section

variable (dialect : Dialect) (table : ScopeTable Nat)

mutual

/-- The text of an expression. Of an operator that gives a truth value the right operand is
printed first, so an unknown name there is reported first. -/
def expr : Expr → Except EmitError String
  | .number literal value => .ok (dialect.number literal value)
  | .string text => .ok ("\"" ++ text ++ "\"")
  | .variable name => do
      check table name
      return name
  | .unary op operand => do
      let inner ← expr operand
      return dialect.unarySymbol op ++ inner
  | .binary op left right => do
      let first ← expr left
      let second ← expr right
      return between op.symbol first second
  | .cast value type => do
      let inner ← expr value
      let typeText ← match typeName? type with
        | some name => .ok name
        | none => expr type
      return dialect.cast inner typeText
  | .logic .not _ right => do
      let inner ← expr right
      return LogicOp.not.symbol ++ inner
  | .logic op left right => do
      let second ← expr right
      let first ← expr left
      return between op.symbol first second
  | .logicPrefix op right => do
      let inner ← expr right
      return op.symbol ++ inner
  | .call callee args => do
      check table callee
      let inner ← exprs args
      return callee ++ "(" ++ Dialect.listed inner ++ ")"

/-- The texts of expressions, from left to right. -/
def exprs : List Expr → Except EmitError (List String)
  | [] => .ok []
  | first :: rest => do
      let text ← expr first
      let texts ← exprs rest
      return text :: texts

end

/-- Whether an expression is printed in parentheses of its own that a condition does without. -/
def isWrapped : Expr → Bool
  | .binary .. | .logic .. => true
  | _ => false

/-- Takes off the first and the last character, if both take one byte. -/
def stripEnds? (text : String) : Option String :=
  match text.toList with
  | first :: second :: rest =>
      let last := (second :: rest).getLast (List.cons_ne_nil second rest)
      if first.utf8Size = 1 ∧ last.utf8Size = 1 then
        some (String.ofList (second :: rest).dropLast)
      else none
  | _ => none

/-- The text of a condition, without the outer parentheses that the branch supplies. -/
def condition (test : Expr) : Except EmitError String := do
  let text ← expr dialect table test
  if isWrapped test then
    match stripEnds? text with
    | some inner => return inner
    | none => throw (.unwrappedCondition text)
  else
    return text

end

end Emit

end ScriptLang

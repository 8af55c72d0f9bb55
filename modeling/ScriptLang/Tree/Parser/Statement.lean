import ScriptLang.Tree.Parser.Expression

/-!
# Parsing statements and programs

The first token of a statement tells what it is, but for a name: the token behind it tells an
assignment from an expression, and a dotted name is read before the two can be told apart. Where
no statement can start the empty statement stands, which lists of statements drop.
-/

namespace ScriptLang.Parse

/-- The assignment that a compound operator makes. -/
def compoundOp? : Token.Kind → Option AssignOp
  | .mark .plusAssign => some .add
  | .mark .minusAssign => some .sub
  | .mark .starAssign => some .mul
  | .mark .slashAssign => some .div
  | _ => none

variable {σ : Type} [TokenSource σ]

/-- One or more expressions with commas between them. -/
def expressions (fuel : Nat) : Parse σ (List Expr) :=
  commaSeparated (expression fuel) fuel

/-- An assignment operator. -/
def assignOp : Parse σ AssignOp := do
  match ← take? compoundOp? with
  | some op => return op
  | none =>
      let _ ← eat (.mark .assign)
      return .set

/-- The targets of an assignment behind the first. -/
def moreTargets (fuel : Nat) : Parse σ (List Name) := do
  if ← accept (.mark .comma) then
    commaSeparated (name fuel) fuel
  else
    return []

/-- An assignment behind its first target. -/
def assignmentTo (fuel : Nat) (declares : Bool) (first : Name) : Parse σ Stmt := do
  let more ← moreTargets fuel
  let op ← operator
  let values ← expressions fuel
  return .assign declares (first :: more) op values
where
  operator : Parse σ AssignOp := do
    if declares then
      let _ ← eat (.mark .assign)
      return .set
    else
      assignOp

/-- An assignment. -/
def assignment (fuel : Nat) (declares : Bool) : Parse σ Stmt := do
  let first ← name fuel
  assignmentTo fuel declares first

/-- A statement that starts with a name. -/
def named (fuel : Nat) : Parse σ Stmt := do
  let next ← peek
  if next = .mark .comma ∨ next.assigns then
    assignment fuel false
  else if next = .mark .dot then
    let first ← name fuel
    let behind ← kind
    if behind = .mark .comma ∨ behind.assigns then
      assignmentTo fuel false first
    else
      let value ← seededExpression fuel (some first)
      return .expr value
  else
    let value ← expression fuel
    return .expr value

/-- Names in parentheses with commas between them. -/
def parameters (fuel : Nat) : Parse σ (List Name) := do
  let _ ← eat (.mark .openParen)
  let names ← listed
  let _ ← eat (.mark .closeParen)
  return names
where
  listed : Parse σ (List Name) := do
    if ← sees (.mark .closeParen) then
      return []
    else
      commaSeparated (name fuel) fuel

/-- The error code of a `return`: a colon and a number, kept as it is written. -/
def errorCode : Parse σ (Option String) := do
  if ← accept (.mark .colon) then
    let (literal, _) ← number
    return some literal
  else
    return none

/-- A `return` with its values and its error code. -/
def returned (fuel : Nat) : Parse σ Stmt := do
  let _ ← eat (.keyword .ret)
  let values ← expressions fuel
  let code ← errorCode
  return .ret values code

/-- Puts a statement in front of others; the empty statement leaves no trace. -/
def keep (first : Stmt) (rest : List Stmt) : List Stmt :=
  if first.isEmpty then rest else first :: rest

/-- A statement is kept in front of others unless it is empty. -/
theorem keep_eq_append (first : Stmt) (rest : List Stmt) :
    keep first rest = [first].filter (!·.isEmpty) ++ rest := by
  unfold keep
  cases empty : first.isEmpty <;> simp [empty]

/-- Statements with line breaks between them. -/
def statements (statement : Parse σ Stmt) : Nat → Parse σ (List Stmt)
  | 0 => exhausted
  | fuel + 1 => do
      let first ← statement
      if ← accept .lineBreak then
        let rest ← statements statement fuel
        return keep first rest
      else
        return keep first []

/-- Statements in braces. -/
def braced (statement : Parse σ Stmt) (fuel : Nat) : Parse σ (List Stmt) := do
  let _ ← eat (.mark .openBrace)
  let body ← statements statement fuel
  let _ ← eat (.mark .closeBrace)
  return body

/-- A branch: its condition and its arms. -/
def branch (statement : Parse σ Stmt) (fuel : Nat) : Parse σ Stmt := do
  let _ ← eat (.keyword .cond)
  let test ← condition (expression fuel) fuel
  let thenArm ← first
  let elseArm ← second
  return .branch test thenArm elseArm
where
  first : Parse σ Stmt := do
    if ← sees (.mark .openBrace) then
      let body ← braced statement fuel
      return .block body
    else
      let _ ← eat (.keyword .thenArm)
      statement
  second : Parse σ (Option Stmt) := do
    if ← accept (.keyword .elseArm) then
      let arm ← statement
      return some arm
    else
      return none

/-- The definition of a function. -/
def definition (statement : Parse σ Stmt) (fuel : Nat) : Parse σ Stmt := do
  let _ ← eat (.keyword .func)
  let title ← name fuel
  let params ← parameters fuel
  let returns ← results
  let body ← braced statement fuel
  return .func title params returns body
where
  results : Parse σ (List Name) := do
    if ← sees (.mark .openParen) then
      parameters fuel
    else
      return []

/-- A statement. -/
def statement : Nat → Parse σ Stmt
  | 0 => exhausted
  | fuel + 1 => do
      match ← kind with
      | .mark .openBrace =>
          let body ← braced (statement fuel) fuel
          return .block body
      | .keyword .cond => branch (statement fuel) fuel
      | .keyword .func => definition (statement fuel) fuel
      | .keyword .ret => returned fuel
      | .keyword .var =>
          let _ ← eat (.keyword .var)
          assignment fuel true
      | .identifier => named (fuel + 1)
      | .lineBreak | .eof | .mark .closeBrace | .keyword .elseArm => return .empty
      | _ =>
          let value ← expression (fuel + 1)
          return .expr value

/-- Moves over line breaks. -/
def skipLineBreaks : Nat → Parse σ Unit
  | 0 => exhausted
  | fuel + 1 => do
      if ← accept .lineBreak then
        skipLineBreaks fuel
      else
        return ()

/-- The imports at the front of a program. -/
def imports : Nat → Parse σ (List String)
  | 0 => exhausted
  | fuel + 1 => do
      if ← accept (.keyword .use) then
        let path ← eat .string
        if ← sees .eof then
          return [path.text]
        else
          let _ ← eat .lineBreak
          let rest ← imports fuel
          return path.text :: rest
      else
        return []

/-- A program: line breaks, imports, statements, and the end. -/
def program (fuel : Nat) : Parse σ Program := do
  skipLineBreaks fuel
  let paths ← imports fuel
  let body ← statements (statement fuel) fuel
  let _ ← eat .eof
  return ⟨paths, body⟩

end ScriptLang.Parse

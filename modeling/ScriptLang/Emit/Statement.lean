import ScriptLang.Emit.Expression

/-!
# Printing programs

A program is printed statement by statement, while a table of scopes tells which names are
declared. Functions, blocks and arms of branches open a scope of their own. A function is declared
before its body is printed, with the number of its results, and a body that does not end in a
`return` gets one for the declared results.
-/

namespace ScriptLang

/-- Printing with a table of scopes. -/
abbrev Emit (α : Type) : Type := StateT (ScopeTable Nat) (Except EmitError) α

namespace Emit

/-- Asks the table of scopes. -/
def ask {α : Type} (question : ScopeTable Nat → Except EmitError α) : Emit α := do
  question (← get)

/-- Changes the table of scopes. -/
def change (update : ScopeTable Nat → Except NameError (ScopeTable Nat)) : Emit Unit := do
  match update (← get) with
  | .ok table => set table
  | .error error => throw (.name error)

/-- Prints in a new scope and closes it afterwards. -/
def withScope {α : Type} (body : Emit α) : Emit α := do
  let outside ← get
  set outside.enter
  let result ← body
  modify (·.exit outside.current)
  return result

/-- Declares a name as a variable; only the name counts. -/
def declare (name : Name) : Emit Unit :=
  change (·.declare name 0)

/-- Declares a target or finds it declared. -/
def introduce (declares : Bool) (name : Name) : Emit Unit :=
  if declares then declare name else ask (check · name)

/-- The number of results of the function that a name means. -/
def resultCount? (table : ScopeTable Nat) (name : Name) : Option Nat :=
  match table.get? name with
  | some (.func count) => some count
  | _ => none

/-- Whether the only value of a plain assignment to several targets is a call with as many
results. -/
def spreads (table : ScopeTable Nat) (targets : List Name) (op : AssignOp) : List Expr → Bool
  | [.call callee _] =>
      1 < targets.length && op = .set && resultCount? table callee = some targets.length
  | _ => false

/-- The value of each target. A single value is for every target: a plain assignment gives it to
the first, and the first to the others. -/
def sources (targets : List Name) (op : AssignOp) (values : List String) : List (Option String) :=
  match targets, values with
  | first :: _ :: _, [value] =>
      some value :: (targets.drop 1).map fun _ => some (if op = .set then first else value)
  | _, _ => targets.mapIdx fun index _ => values[index]?

section

variable (dialect : Dialect)

/-- Prints an assignment. Its values are printed before any target is declared. -/
def assignment (declares : Bool) (targets : List Name) (op : AssignOp) (values : List Expr) :
    Emit (List Line) := do
  let texts ← ask (exprs dialect · values)
  let spread := spreads (← get) targets op values
  targets.forM (introduce declares)
  if spread then
    return dialect.destructureLines declares targets (Dialect.listed texts)
  else
    return (targets.zip (sources targets op texts)).map fun (name, value) =>
      dialect.assignLine declares op name value

/-- Puts a block in braces; other statements stay as they are. -/
def braced : Stmt → List Line → List Line
  | .block _, lines => Line.enclosed "\x7b" lines
  | _, lines => lines

/-- Prints an arm of a branch in a scope of its own, which a block opens itself. -/
def armScope (arm : Stmt) (lines : Emit (List Line)) : Emit (List Line) :=
  match arm with
  | .block _ => lines
  | _ => withScope lines

/-- Whether a body ends in a `return`. -/
def endsInReturn (body : List Stmt) : Bool :=
  match body.getLast? with
  | some (.ret ..) => true
  | _ => false

/-- The `return` that a body is lacking. -/
def missingReturn (returns : List Name) (body : List Stmt) : List Line :=
  if returns.isEmpty || endsInReturn body then []
  else [Line.outer (dialect.returnLine returns none)]

mutual

/-- The lines of a statement, a block without its braces. -/
def inner : Stmt → Emit (List Line)
  | .assign declares targets op values => assignment dialect declares targets op values
  | .branch test thenArm elseArm => do
      let text ← ask (condition dialect · test)
      let first ← armScope thenArm (inner thenArm)
      let second ← elseLines elseArm
      return Line.outer ("if (" ++ text ++ ") \x7b") :: Line.indent first ++ second ++
        [Line.outer "\x7d"]
  | .func name params returns body => do
      change (·.declareFunction name returns.length)
      withScope do
        (params ++ returns).forM declare
        let lines ← all body
        return Line.enclosed (dialect.functionHeader name params returns)
          (dialect.resultLines returns ++ lines ++ missingReturn dialect returns body)
  | .ret values code => do
      let texts ← ask (exprs dialect · values)
      return [Line.outer (dialect.returnLine texts code)]
  | .block body => withScope (all body)
  | .expr value => do
      let text ← ask (expr dialect · value)
      return [Line.outer (text ++ ";")]
  | .empty => return []

/-- The lines of an arm behind `else`, if there is one. -/
def elseLines : Option Stmt → Emit (List Line)
  | none => return []
  | some arm => do
      let lines ← armScope arm (inner arm)
      return Line.outer "\x7d else \x7b" :: Line.indent lines

/-- The lines of statements. -/
def all : List Stmt → Emit (List Line)
  | [] => return []
  | stmt :: rest => do
      let first ← inner stmt
      let others ← all rest
      return braced stmt first ++ others

end

end

end Emit

namespace Program

/-- The lines of a program in a dialect. -/
def emitLines (dialect : Dialect) (program : Program) : Except EmitError (List Line) := do
  let (lines, _) ← (Emit.all dialect program.body).run ScopeTable.new
  return program.imports.map (fun path => Line.outer (dialect.importLine path)) ++ lines

/-- The text of a program in a dialect. -/
def emit (dialect : Dialect) (program : Program) : Except EmitError String :=
  (program.emitLines dialect).map Line.renderAll

end Program

end ScriptLang

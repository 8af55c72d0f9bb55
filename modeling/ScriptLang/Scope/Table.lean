import ScriptLang.Scope.Basic

/-!
# The table of open scopes

The open scopes stand in the order in which they were opened, the root first, and refer to the
scope around them by index. A name means what the nearest scope binds it to on the way from the
current scope outwards. Only the newest scope can be closed, and never the root.
-/

namespace ScriptLang

/-- The open scopes and the index of the current one. -/
structure ScopeTable (φ : Type) where
  scopes : List (Scope φ)
  current : Nat
deriving DecidableEq, Repr

namespace ScopeTable

variable {φ : Type}

/-- The table with nothing but the root scope. -/
def new : ScopeTable φ := ⟨[Scope.empty none], 0⟩

/-- The number of open scopes. -/
def depth (table : ScopeTable φ) : Nat := table.scopes.length

/-- Looks for a name from a scope outwards, over at most `steps` scopes, and gives the index of the
scope that binds it with the symbol. -/
def locateFrom? (scopes : List (Scope φ)) (name : Name) : Nat → Nat → Option (Nat × Symbol φ)
  | 0, _ => none
  | steps + 1, index =>
      match scopes[index]? with
      | none => none
      | some scope =>
          match scope.lookup? name with
          | some symbol => some (index, symbol)
          | none => scope.parent.bind (locateFrom? scopes name steps)

/-- The nearest scope that binds a name, with the symbol. Every step outwards leads to an older
scope, so no way is longer than the number of scopes. -/
def locate? (table : ScopeTable φ) (name : Name) : Option (Nat × Symbol φ) :=
  locateFrom? table.scopes name table.depth table.current

/-- What a name means in the current scope. -/
def get? (table : ScopeTable φ) (name : Name) : Option (Symbol φ) :=
  (table.locate? name).map (·.2)

/-- Opens a scope within the scope with the given index, and makes it the current one. -/
def enterUnder (table : ScopeTable φ) (parent : Nat) : ScopeTable φ :=
  ⟨table.scopes ++ [Scope.empty (some parent)], table.depth⟩

/-- Opens a scope within the current one. -/
def enter (table : ScopeTable φ) : ScopeTable φ :=
  table.enterUnder table.current

/-- Closes the newest scope, unless it is the root, and goes back to the scope with the given
index. -/
def exit (table : ScopeTable φ) (previous : Nat) : ScopeTable φ :=
  ⟨if 1 < table.depth then table.scopes.dropLast else table.scopes, previous⟩

/-- Binds a name in the current scope, which must not bind it yet. -/
def insert (table : ScopeTable φ) (name : Name) (symbol : Symbol φ) :
    Except NameError (ScopeTable φ) :=
  match (table.scopes[table.current]?).bind (·.lookup? name) with
  | some _ => .error (.redeclaration name)
  | none => .ok { table with scopes := table.scopes.modify table.current (·.insert name symbol) }

/-- Declares a variable in the current scope. -/
def declare (table : ScopeTable φ) (name : Name) (value : Word) :
    Except NameError (ScopeTable φ) :=
  table.insert name (.variable value)

/-- Declares a function in the current scope. -/
def declareFunction (table : ScopeTable φ) (name : Name) (entry : φ) :
    Except NameError (ScopeTable φ) :=
  table.insert name (.func entry)

/-- Gives a variable that a scope binds a new value. -/
def write (table : ScopeTable φ) (name : Name) (value : Word) :
    Nat × Symbol φ → Except NameError (ScopeTable φ)
  | (index, .variable _) =>
      .ok { table with scopes := table.scopes.modify index (·.replace name (.variable value)) }
  | (_, .func _) => .error (.kindMismatch name .variable .func)

/-- Gives the variable that a name means a new value. -/
def set (table : ScopeTable φ) (name : Name) (value : Word) : Except NameError (ScopeTable φ) :=
  match table.locate? name with
  | some found => table.write name value found
  | none => .error (.undefinedReference name)

/-- Gives the variable that a name means a new value, or declares the name if it means nothing. -/
def declareOrSet (table : ScopeTable φ) (name : Name) (value : Word) :
    Except NameError (ScopeTable φ) :=
  match table.locate? name with
  | some found => table.write name value found
  | none => table.declare name value

/-- The value of the variable that a name means. -/
def value (table : ScopeTable φ) (name : Name) : Except NameError Word :=
  match table.get? name with
  | some (.variable word) => .ok word
  | some (.func _) => .error (.kindMismatch name .variable .func)
  | none => .error (.undefinedReference name)

/-- The variables that the root scope binds, in the order of their names. -/
def rootVariables (table : ScopeTable φ) : List (Name × Word) :=
  match table.scopes with
  | root :: _ => root.variableValues
  | [] => []

/-- Opening a scope makes one more. -/
@[simp] theorem depth_enterUnder (table : ScopeTable φ) (parent : Nat) :
    (table.enterUnder parent).depth = table.depth + 1 := by
  simp [depth, enterUnder]

/-- The scope that was opened is the current one. -/
@[simp] theorem current_enterUnder (table : ScopeTable φ) (parent : Nat) :
    (table.enterUnder parent).current = table.depth := rfl

/-- Closing a scope leaves one less, but never none. -/
theorem depth_exit (table : ScopeTable φ) (previous : Nat) :
    (table.exit previous).depth = if 1 < table.depth then table.depth - 1 else table.depth := by
  unfold exit
  split <;> simp_all [depth]

/-- Closing the scope that was just opened gives the table back. -/
theorem exit_enterUnder (table : ScopeTable φ) (parent : Nat) (rooted : 0 < table.depth) :
    (table.enterUnder parent).exit table.current = table := by
  unfold exit
  rw [depth_enterUnder, if_pos (Nat.succ_lt_succ rooted)]
  simp [enterUnder]

end ScopeTable

end ScriptLang

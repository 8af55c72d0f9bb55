import ScriptLang.Tree.Basic

/-!
# Scopes

A scope binds names to symbols: variables with their words, and functions with whatever the one who
keeps the scope wants to remember of a function. Variables and functions share one name space. A
scope is seen through `lookup?`.

Runs remember which routine a function is, and printers how many results it has. Both are bounded
by the length of a list, so a word can store them. A count that comes from elsewhere need not fit a
word, and what is remembered of it is `Word.ofCount`.
-/

namespace ScriptLang

/-- What a symbol is. -/
inductive SymbolKind where
  | variable
  | func
deriving DecidableEq, Repr

/-- How messages name what a symbol is. -/
def SymbolKind.description : SymbolKind → String
  | .variable => "var"
  | .func => "func"

/-- What a name is bound to; `φ` is what is remembered of a function. -/
inductive Symbol (φ : Type) where
  | variable (value : Word)
  | func (entry : φ)
deriving DecidableEq, Repr

/-- What the symbol is. -/
def Symbol.kind {φ : Type} : Symbol φ → SymbolKind
  | .variable _ => .variable
  | .func _ => .func

/-- The ways in which the use of a name can fail. -/
inductive NameError where
  | redeclaration (name : Name)
  | undefinedReference (name : Name)
  | kindMismatch (name : Name) (expected found : SymbolKind)
deriving DecidableEq, Repr

/-- The text that reports the error. -/
def NameError.message : NameError → String
  | redeclaration name => "'" ++ name ++ "' is already declared in this scope"
  | undefinedReference name => "Undefined reference to '" ++ name ++ "'"
  | kindMismatch name expected found =>
      "'" ++ name ++ "' is a " ++ found.description ++ ", expected a " ++ expected.description

/-- The names that one scope binds, and the index of the scope around it. -/
structure Scope (φ : Type) where
  parent : Option Nat
  bindings : List (Name × Symbol φ)
deriving DecidableEq, Repr

namespace Scope

variable {φ : Type}

/-- A scope that binds nothing. -/
def empty (parent : Option Nat) : Scope φ := ⟨parent, []⟩

/-- The symbol that the scope itself binds to a name. -/
def lookup? (scope : Scope φ) (name : Name) : Option (Symbol φ) :=
  scope.bindings.lookup name

/-- Binds a new name. -/
def insert (scope : Scope φ) (name : Name) (symbol : Symbol φ) : Scope φ :=
  { scope with bindings := (name, symbol) :: scope.bindings }

/-- Binds a name that is bound already to another symbol. -/
def replace (scope : Scope φ) (name : Name) (symbol : Symbol φ) : Scope φ :=
  { scope with
    bindings := scope.bindings.map fun (bound, old) =>
      (bound, if bound = name then symbol else old) }

/-- The variables that the scope binds, in the order of their names. -/
def variableValues (scope : Scope φ) : List (Name × Word) :=
  let found := scope.bindings.filterMap fun
    | (name, .variable value) => some (name, value)
    | (_, .func _) => none
  found.mergeSort fun first second => first.1 ≤ second.1

/-- An empty scope binds no name. -/
@[simp] theorem lookup?_empty (parent : Option Nat) (name : Name) :
    (empty parent : Scope φ).lookup? name = none := rfl

/-- Binding a name does not move the scope. -/
@[simp] theorem parent_insert (scope : Scope φ) (name : Name) (symbol : Symbol φ) :
    (scope.insert name symbol).parent = scope.parent := rfl

/-- Binding a name anew does not move the scope. -/
@[simp] theorem parent_replace (scope : Scope φ) (name : Name) (symbol : Symbol φ) :
    (scope.replace name symbol).parent = scope.parent := rfl

/-- A new name is bound to its symbol, and the others as before. -/
theorem lookup?_insert (scope : Scope φ) (name other : Name) (symbol : Symbol φ) :
    (scope.insert name symbol).lookup? other =
      if other = name then some symbol else scope.lookup? other := by
  by_cases same : other = name
  · simp [insert, lookup?, same]
  · simp [insert, lookup?, List.lookup_cons, same, beq_eq_false_iff_ne.2 same]

/-- A bound name is bound to its new symbol, and the others as before. -/
theorem lookup?_replace (scope : Scope φ) (name other : Name) (symbol : Symbol φ) :
    (scope.replace name symbol).lookup? other =
      if other = name then (scope.lookup? other).map fun _ => symbol
      else scope.lookup? other := by
  obtain ⟨parent, bindings⟩ := scope
  simp only [replace, lookup?]
  induction bindings with
  | nil => simp
  | cons binding rest ih =>
    obtain ⟨bound, old⟩ := binding
    by_cases here : other = bound
    · subst here
      by_cases same : other = name <;> simp [same]
    · simpa [List.lookup_cons, beq_eq_false_iff_ne.2 here] using ih

end Scope

end ScriptLang

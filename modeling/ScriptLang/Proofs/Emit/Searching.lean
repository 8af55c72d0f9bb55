import ScriptLang.Proofs.Emit.Names

/-!
# The order in which names are looked for

Printing an expression looks for its names one after the other and stops at the first that is not
known. `Expr.sought` lists them in that order: of an operator that gives a truth value the names on
the right come before those on the left, and everywhere else the text runs from left to right. The
main statement `searches_expr` says that an unknown name which stands first in this list is the one
that is reported, and that without one the expression is printed.
-/

namespace ScriptLang

mutual

/-- The names that printing an expression looks for, the first one first. -/
def Expr.sought : Expr → List Name
  | .number .. => []
  | .string _ => []
  | .variable name => [name]
  | .unary _ operand => operand.sought
  | .binary _ left right => left.sought ++ right.sought
  | .cast value type => value.sought ++ if (Emit.typeName? type).isSome then [] else type.sought
  | .logic op left right => right.sought ++ if op = .not then [] else left.sought
  | .logicPrefix _ right => right.sought
  | .call callee args => callee :: Expr.soughtAll args

/-- The names that printing expressions looks for, the first one first. -/
def Expr.soughtAll : List Expr → List Name
  | [] => []
  | expr :: rest => expr.sought ++ Expr.soughtAll rest

end

namespace Emit

variable {α β : Type} {dialect : Dialect} {table : ScopeTable Nat} {names names' : List Name}

instance (table : ScopeTable Nat) (name : Name) : Decidable (Known table name) :=
  inferInstanceAs (Decidable (_ ∨ _))

/-- The first of the names that is neither dotted nor known to the table. -/
def firstUnknown? (table : ScopeTable Nat) (names : List Name) : Option Name :=
  names.find? (¬Known table ·)

/-- The first unknown name of two lists is that of the first one, or else that of the second. -/
theorem firstUnknown?_append : firstUnknown? table (names ++ names') =
    (firstUnknown? table names).or (firstUnknown? table names') :=
  List.find?_append

/-- Whether there is an unknown name does not depend on the order. -/
theorem firstUnknown?_eq_none_iff (perm : names'.Perm names) :
    firstUnknown? table names' = none ↔ firstUnknown? table names = none := by
  simp only [firstUnknown?, List.find?_eq_none, perm.mem_iff]

/-- The outcome reports the first unknown name, and there is a result if all names are known. -/
def Searches (table : ScopeTable Nat) (names : List Name) (outcome : Except EmitError α) : Prop :=
  match firstUnknown? table names with
  | some name => outcome = .error (.name (.undefinedReference name))
  | none => ∃ result, outcome = .ok result

/-- A result is found without looking for a name. -/
theorem searches_ok (value : α) : Searches table [] (.ok value) :=
  ⟨value, rfl⟩

/-- Two steps look for the names of the first, and then for those of the second. -/
theorem Searches.bind {first : Except EmitError α} {second : α → Except EmitError β}
    (here : Searches table names first) (there : ∀ value, Searches table names' (second value)) :
    Searches table (names ++ names') (first >>= second) := by
  unfold Searches at here ⊢
  rw [firstUnknown?_append]
  cases unknown : firstUnknown? table names with
  | some name =>
    rw [unknown] at here
    rw [here]
    rfl
  | none =>
    rw [unknown] at here
    obtain ⟨value, rfl⟩ := here
    exact there value

/-- What is done with a result looks for no name. -/
theorem Searches.map {first : Except EmitError α} (here : Searches table names first)
    (change : α → β) : Searches table names (change <$> first) := by
  have both := here.bind fun value => searches_ok (change value)
  rwa [List.append_nil] at both

/-- The check of a name looks for this name. -/
theorem searches_check (name : Name) : Searches table [name] (check table name) := by
  unfold Searches
  by_cases known : Known table name
  · rw [show firstUnknown? table [name] = none by simp [firstUnknown?, known]]
    exact ⟨(), if_pos known⟩
  · rw [show firstUnknown? table [name] = some name by simp [firstUnknown?, known]]
    exact if_neg known

mutual

/-- An expression is printed unless a name is unknown, and the first of these is reported. -/
theorem searches_expr : ∀ tree : Expr, Searches table tree.sought (expr dialect table tree)
  | .number .. | .string _ => searches_ok _
  | .variable name => (searches_check name).map _
  | .unary _ operand => (searches_expr operand).map _
  | .binary _ left right => (searches_expr left).bind fun _ => (searches_expr right).map _
  | .cast value type => by
      refine (searches_expr value).bind fun _ => ?_
      cases typeName? type with
      | some name => exact (searches_ok name).map _
      | none => exact (searches_expr type).map _
  | .logic op left right => by
      by_cases negates : op = .not
      · subst negates
        rw [Expr.sought, if_pos rfl, List.append_nil]
        exact (searches_expr right).map _
      · rw [Expr.sought, if_neg negates, expr]
        · exact (searches_expr right).bind fun _ => (searches_expr left).map _
        · exact negates
  | .logicPrefix _ right => (searches_expr right).map _
  | .call callee args => (searches_check callee).bind fun _ => (searches_exprs args).map _

/-- Printing expressions looks for their names, one expression after the other. -/
theorem searches_exprs : ∀ trees : List Expr,
    Searches table (Expr.soughtAll trees) (exprs dialect table trees)
  | [] => searches_ok _
  | tree :: rest => (searches_expr tree).bind fun _ => (searches_exprs rest).map _

end

end Emit

end ScriptLang

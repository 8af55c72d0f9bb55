import ScriptLang.Proofs.Scope.Shape

/-!
# Tables under other indices

A table mirrors another if it holds the same open scopes under other indices, with function entries
under other indices too, and anything besides them. A name then means the same in both, and
declarations and assignments have the same outcome and keep the tables mirrors of each other.
-/

namespace ScriptLang

/-- Other indices for scopes and for function entries. -/
structure Reindexing where
  scopes : Nat → Nat
  entries : Nat → Nat

/-- The symbol with its function entry under the other index. -/
def Symbol.rename (reindex : Reindexing) : Symbol Nat → Symbol Nat
  | .variable word => .variable word
  | .func entry => .func (reindex.entries entry)

namespace Scope

/-- The scope with the scope around it and its function entries under their other indices. -/
def rename (reindex : Reindexing) (scope : Scope Nat) : Scope Nat :=
  ⟨scope.parent.map reindex.scopes,
    scope.bindings.map fun (name, symbol) => (name, symbol.rename reindex)⟩

/-- A renamed scope binds a name to the renamed symbol. -/
theorem lookup?_rename (reindex : Reindexing) (scope : Scope Nat) (name : Name) :
    (scope.rename reindex).lookup? name = (scope.lookup? name).map (·.rename reindex) := by
  simp only [rename, lookup?]
  induction scope.bindings with
  | nil => rfl
  | cons binding rest ih =>
    obtain ⟨bound, symbol⟩ := binding
    by_cases same : name = bound
    · simp [same]
    · simpa [List.lookup_cons, beq_eq_false_iff_ne.2 same] using ih

/-- Binding a name in a renamed scope is renaming the scope in which it was bound. -/
theorem rename_insert (reindex : Reindexing) (scope : Scope Nat) (name : Name)
    (symbol : Symbol Nat) :
    (scope.insert name symbol).rename reindex =
      (scope.rename reindex).insert name (symbol.rename reindex) := rfl

/-- Binding a name anew in a renamed scope is renaming the scope in which it was bound anew. -/
theorem rename_replace (reindex : Reindexing) (scope : Scope Nat) (name : Name)
    (symbol : Symbol Nat) :
    (scope.replace name symbol).rename reindex =
      (scope.rename reindex).replace name (symbol.rename reindex) := by
  simp only [rename, replace, List.map_map, Scope.mk.injEq, List.map_inj_left, true_and]
  intro binding _
  by_cases same : binding.1 = name <;> simp [same]

/-- The values of variables are the same under other indices. -/
theorem variableValues_rename (reindex : Reindexing) (scope : Scope Nat) :
    (scope.rename reindex).variableValues = scope.variableValues := by
  unfold variableValues rename
  dsimp only
  rw [List.filterMap_map]
  congr 2
  funext binding
  obtain ⟨name, word | entry⟩ := binding <;> rfl

/-- Renamings that agree where the scope refers to rename it to the same scope. -/
theorem rename_congr {reindex reindex' : Reindexing} {scope : Scope Nat}
    (parents : ∀ parent, scope.parent = some parent →
      reindex'.scopes parent = reindex.scopes parent)
    (entries : ∀ name entry, (name, Symbol.func entry) ∈ scope.bindings →
      reindex'.entries entry = reindex.entries entry) :
    scope.rename reindex' = scope.rename reindex := by
  have parent : scope.parent.map reindex'.scopes = scope.parent.map reindex.scopes :=
    Option.map_congr parents
  have bindings : ∀ binding ∈ scope.bindings, (binding.1, binding.2.rename reindex') =
      (binding.1, binding.2.rename reindex) := by
    rintro ⟨name, word | entry⟩ member
    · rfl
    · simp [Symbol.rename, entries name entry member]
  simp only [rename, parent, Scope.mk.injEq, true_and]
  exact List.map_congr_left bindings

end Scope

namespace ScopeTable

/-- A table mirrors another: each open scope of the other stands in it under its other index, and
the current scopes match. The mirror may hold more. -/
structure Mirrors (reindex : Reindexing) (table mirror : ScopeTable Nat) : Prop where
  root : reindex.scopes 0 = 0
  injective {first second : Nat} : first < table.depth → second < table.depth →
    reindex.scopes first = reindex.scopes second → first = second
  depth_le : table.depth ≤ mirror.depth
  current : mirror.current = reindex.scopes table.current
  scopes {index : Nat} {scope : Scope Nat} : table.scopes[index]? = some scope →
    mirror.scopes[reindex.scopes index]? = some (scope.rename reindex)

variable {reindex : Reindexing} {table mirror : ScopeTable Nat}

/-- The way outwards leads through the same scopes under their other indices. -/
theorem Mirrors.locateFrom? (mirrors : Mirrors reindex table mirror) (nested : table.Nested)
    (name : Name) {index steps steps' : Nat} (live : index < table.depth) (enough : index < steps)
    (enough' : index < steps') :
    ScopeTable.locateFrom? mirror.scopes name steps' (reindex.scopes index) =
      (ScopeTable.locateFrom? table.scopes name steps index).map fun found =>
        (reindex.scopes found.1, found.2.rename reindex) := by
  induction steps generalizing index steps' with
  | zero => omega
  | succ steps ih =>
    obtain _ | steps' := steps'
    · omega
    · have present := List.getElem?_eq_getElem live
      have present' := mirrors.scopes present
      simp only [ScopeTable.locateFrom?, present, present', Scope.lookup?_rename]
      cases table.scopes[index].lookup? name with
      | some symbol => rfl
      | none =>
        cases within : table.scopes[index].parent with
        | none => simp [Scope.rename, within]
        | some parent =>
          have older := nested.parent_lt present within
          simpa [Scope.rename, within] using
            ih (Nat.lt_trans older live) (by omega) (by omega)

/-- A name is located in the same scope under its other index. -/
theorem Mirrors.locate? (mirrors : Mirrors reindex table mirror) (nested : table.Nested)
    (name : Name) :
    mirror.locate? name = (table.locate? name).map fun found =>
      (reindex.scopes found.1, found.2.rename reindex) := by
  have live := nested.current_lt
  unfold ScopeTable.locate?
  rw [mirrors.current]
  exact mirrors.locateFrom? nested name live live (Nat.lt_of_lt_of_le live mirrors.depth_le)

/-- A name means the same in both tables. -/
theorem Mirrors.get? (mirrors : Mirrors reindex table mirror) (nested : table.Nested)
    (name : Name) : mirror.get? name = (table.get? name).map (·.rename reindex) := by
  simp [ScopeTable.get?, mirrors.locate? nested, Function.comp_def]

/-- A variable has the same value in both tables. -/
theorem Mirrors.value (mirrors : Mirrors reindex table mirror) (nested : table.Nested)
    (name : Name) : mirror.value name = table.value name := by
  unfold ScopeTable.value
  rw [mirrors.get? nested]
  cases table.get? name with
  | none => rfl
  | some symbol => obtain word | entry := symbol <;> rfl

/-- Changing an open scope and its mirror alike keeps the tables mirrors of each other. -/
theorem Mirrors.modify (mirrors : Mirrors reindex table mirror) {index : Nat}
    (live : index < table.depth) {change change' : Scope Nat → Scope Nat}
    (alike : ∀ scope, (change scope).rename reindex = change' (scope.rename reindex)) :
    Mirrors reindex { table with scopes := table.scopes.modify index change }
      { mirror with scopes := mirror.scopes.modify (reindex.scopes index) change' } where
  root := mirrors.root
  injective first second := by
    simp only [depth, List.length_modify] at first second
    exact mirrors.injective first second
  depth_le := by simpa [depth] using mirrors.depth_le
  current := mirrors.current
  scopes {other scope} present := by
    rw [List.getElem?_modify] at present
    obtain ⟨old, present', changed⟩ := Option.map_eq_some_iff.1 present
    have apart : reindex.scopes index = reindex.scopes other ↔ index = other :=
      ⟨mirrors.injective live (List.getElem?_eq_some_iff.1 present').1, congrArg reindex.scopes⟩
    rw [List.getElem?_modify, mirrors.scopes present', Option.map_eq_map, Option.map_some]
    simp only [apart]
    by_cases same : index = other
    · simp [same] at changed ⊢
      rw [← changed, alike]
    · simp [same] at changed ⊢
      rw [changed]

/-- A change of a table and one of its mirror have the same outcome: tables of which one mirrors the
other, or the same error. -/
inductive SameOutcome (reindex : Reindexing) :
    Except NameError (ScopeTable Nat) → Except NameError (ScopeTable Nat) → Prop where
  | ok {table mirror : ScopeTable Nat} : Mirrors reindex table mirror →
      SameOutcome reindex (.ok table) (.ok mirror)
  | error {error : NameError} : SameOutcome reindex (.error error) (.error error)

/-- Declaring a name has the same outcome in both tables. -/
theorem Mirrors.insert (mirrors : Mirrors reindex table mirror) (nested : table.Nested)
    (name : Name) (symbol : Symbol Nat) :
    SameOutcome reindex (table.insert name symbol)
      (mirror.insert name (symbol.rename reindex)) := by
  have live := nested.current_lt
  have present := List.getElem?_eq_getElem live
  have here : mirror.here? name = (table.here? name).map (·.rename reindex) := by
    simp only [here?, mirrors.current, mirrors.scopes present, present, Option.bind_some,
      Scope.lookup?_rename]
  cases bound : table.here? name with
  | some old =>
    rw [insert_eq_error_iff.2 ⟨by simp [bound], rfl⟩,
      insert_eq_error_iff.2 ⟨by simp [here, bound], rfl⟩]
    exact .error
  | none =>
    rw [insert_eq_ok_iff.2 ⟨bound, rfl⟩, insert_eq_ok_iff.2 ⟨by simp [here, bound], rfl⟩]
    have changed : Mirrors reindex
        { table with scopes := table.scopes.modify table.current (·.insert name symbol) }
        { mirror with
          scopes := mirror.scopes.modify (reindex.scopes table.current)
            (·.insert name (symbol.rename reindex)) } :=
      mirrors.modify live fun scope => scope.rename_insert reindex name symbol
    rw [← mirrors.current] at changed
    exact .ok changed

/-- Assigning to a name has the same outcome in both tables. -/
theorem Mirrors.set (mirrors : Mirrors reindex table mirror) (nested : table.Nested)
    (name : Name) (word : Word) :
    SameOutcome reindex (table.set name word) (mirror.set name word) := by
  unfold ScopeTable.set
  rw [mirrors.locate? nested]
  cases located : table.locate? name with
  | none => exact .error
  | some found =>
    obtain ⟨index, old | entry⟩ := found
    · obtain ⟨scope, present, -⟩ := (resolves_of_locateFrom? located).bound
      refine .ok (mirrors.modify (List.getElem?_eq_some_iff.1 present).1 fun scope => ?_)
      exact scope.rename_replace reindex name (.variable word)
    · exact .error

/-- The root scopes bind the same variables. -/
theorem Mirrors.rootVariables (mirrors : Mirrors reindex table mirror) (nested : table.Nested) :
    mirror.rootVariables = table.rootVariables := by
  have rooted := Nat.zero_lt_of_lt nested.current_lt
  obtain ⟨scopes, current⟩ := table
  obtain ⟨root, rest, rfl⟩ := List.exists_cons_of_length_pos rooted
  have present : mirror.scopes[reindex.scopes 0]? = some (root.rename reindex) :=
    mirrors.scopes rfl
  rw [mirrors.root] at present
  obtain ⟨scopes', current'⟩ := mirror
  cases scopes' with
  | nil => simp at present
  | cons root' rest' =>
    obtain rfl : root' = root.rename reindex := by simpa using present
    exact root.variableValues_rename reindex

end ScopeTable

end ScriptLang

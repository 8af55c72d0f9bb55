import ScriptLang.Scope.Table

/-!
# The meaning of a name

`Resolves` says what a name means in a scope without counting steps: what the scope binds it to, or
else what it means in the scope around it. In a table whose scopes all lie within older ones
`ScopeTable.locate?` finds exactly this meaning, since the way outwards is never longer than the
table.
-/

namespace ScriptLang

variable {φ : Type}

/-- A name means a symbol in the scope with an index: the index of the nearest scope that binds the
name, and the symbol that it binds it to. -/
inductive Resolves (scopes : List (Scope φ)) (name : Name) : Nat → Nat × Symbol φ → Prop where
  | here {index : Nat} {scope : Scope φ} {symbol : Symbol φ} :
      scopes[index]? = some scope → scope.lookup? name = some symbol →
        Resolves scopes name index (index, symbol)
  | outward {index parent : Nat} {scope : Scope φ} {found : Nat × Symbol φ} :
      scopes[index]? = some scope → scope.lookup? name = none → scope.parent = some parent →
        Resolves scopes name parent found → Resolves scopes name index found

/-- A name means something in the scope with an index. -/
def Sees (scopes : List (Scope φ)) (name : Name) (index : Nat) : Prop :=
  ∃ found, Resolves scopes name index found

/-- What a name means is bound where it is said to be. -/
theorem Resolves.bound {scopes : List (Scope φ)} {name : Name} {index : Nat}
    {found : Nat × Symbol φ} (resolves : Resolves scopes name index found) :
    ∃ scope, scopes[found.1]? = some scope ∧ scope.lookup? name = some found.2 := by
  induction resolves with
  | here present bound => exact ⟨_, present, bound⟩
  | outward _ _ _ _ ih => exact ih

namespace ScopeTable

/-- The current scope is the newest, and every scope lies within an older one. -/
structure Nested (table : ScopeTable φ) : Prop where
  current_newest : table.current + 1 = table.depth
  parent_lt {index parent : Nat} {scope : Scope φ} :
    table.scopes[index]? = some scope → scope.parent = some parent → parent < index

/-- The table that has nothing but the root scope is nested. -/
theorem nested_new : (new : ScopeTable φ).Nested where
  current_newest := rfl
  parent_lt {index parent scope} present within := by
    have root : index = 0 ∧ Scope.empty none = scope := by
      simpa [new, List.getElem?_singleton] using present
    simp [← root.2, Scope.empty] at within

/-- The way outwards only finds what a name means. -/
theorem resolves_of_locateFrom? {scopes : List (Scope φ)} {name : Name} {steps index : Nat}
    {found : Nat × Symbol φ} (located : locateFrom? scopes name steps index = some found) :
    Resolves scopes name index found := by
  induction steps generalizing index with
  | zero => simp [locateFrom?] at located
  | succ steps ih =>
    unfold locateFrom? at located
    split at located
    · simp at located
    · rename_i scope present
      split at located
      · rename_i symbol bound
        obtain rfl := Option.some.inj located
        exact .here present bound
      · rename_i unbound
        obtain ⟨parent, within, further⟩ := Option.bind_eq_some_iff.1 located
        exact .outward present unbound within (ih further)

/-- With a step for every older scope the way outwards finds what a name means. -/
theorem locateFrom?_of_resolves {scopes : List (Scope φ)} {name : Name}
    (parent_lt : ∀ {index parent : Nat} {scope : Scope φ}, scopes[index]? = some scope →
      scope.parent = some parent → parent < index)
    {index : Nat} {found : Nat × Symbol φ} (resolves : Resolves scopes name index found)
    {steps : Nat} (enough : index < steps) :
    locateFrom? scopes name steps index = some found := by
  induction resolves generalizing steps with
  | here present bound =>
    obtain _ | steps := steps
    · omega
    · simp [locateFrom?, present, bound]
  | outward present unbound within further ih =>
    obtain _ | steps := steps
    · omega
    · have older := parent_lt present within
      simpa [locateFrom?, present, unbound, within] using ih (by omega)

variable {table : ScopeTable φ}

/-- The current scope is in the table. -/
theorem Nested.current_lt (nested : table.Nested) : table.current < table.depth := by
  have := nested.current_newest
  omega

/-- In a nested table a name is located exactly where it resolves to. -/
theorem locate?_eq_some_iff (nested : table.Nested) {name : Name} {found : Nat × Symbol φ} :
    table.locate? name = some found ↔ Resolves table.scopes name table.current found :=
  ⟨resolves_of_locateFrom?,
    fun resolves => locateFrom?_of_resolves nested.parent_lt resolves nested.current_lt⟩

/-- In a nested table a name is seen from the current scope exactly if it is located. -/
theorem sees_current_iff (nested : table.Nested) {name : Name} :
    Sees table.scopes name table.current ↔ (table.locate? name).isSome := by
  rw [Option.isSome_iff_exists]
  exact exists_congr fun _ => (locate?_eq_some_iff nested).symm

end ScopeTable

end ScriptLang

import ScriptLang.Proofs.Scope.Shape

/-!
# What a write changes

A declaration or an assignment changes what the written name means, and every other name keeps its
meaning.
-/

namespace ScriptLang.ScopeTable

variable {φ : Type} {table table' : ScopeTable φ} {name other : Name} {word : Word}

/-- A change of one scope that keeps what the scope binds a name to keeps what the name means. -/
theorem locateFrom?_modify_of_same {change : Scope φ → Scope φ}
    (parent : ∀ scope, (change scope).parent = scope.parent)
    (lookup : ∀ scope, (change scope).lookup? name = scope.lookup? name) (scopes : List (Scope φ))
    (changed steps start : Nat) :
    locateFrom? (scopes.modify changed change) name steps start =
      locateFrom? scopes name steps start := by
  induction steps generalizing start with
  | zero => rfl
  | succ steps ih =>
    have further : locateFrom? (scopes.modify changed change) name steps =
        locateFrom? scopes name steps := funext ih
    simp only [locateFrom?, List.getElem?_modify, further]
    cases scopes[start]? with
    | none => rfl
    | some scope =>
      by_cases here : changed = start
      · simp [here, parent, lookup]
      · simp [here]

/-- The nearest scope that binds a name still is the nearest when it binds the name to another
symbol. -/
theorem locateFrom?_modify_replace {scopes : List (Scope φ)} {steps start index : Nat}
    {old : Symbol φ} (located : locateFrom? scopes name steps start = some (index, old))
    (symbol : Symbol φ) :
    locateFrom? (scopes.modify index (·.replace name symbol)) name steps start =
      some (index, symbol) := by
  induction steps generalizing start with
  | zero => simp [locateFrom?] at located
  | succ steps ih =>
    simp only [locateFrom?, List.getElem?_modify] at located ⊢
    cases present : scopes[start]? with
    | none => simp [present] at located
    | some scope =>
      rw [present] at located
      cases bound : scope.lookup? name with
      | some symbol' =>
        obtain ⟨rfl, rfl⟩ := by simpa [bound] using located
        simp [Scope.lookup?_replace, bound]
      | none =>
        simp only [bound] at located
        obtain ⟨parent, within, further⟩ := Option.bind_eq_some_iff.1 located
        by_cases here : index = start
        · subst here
          simp [within, Scope.lookup?_replace, bound, ih further]
        · simp [here, within, bound, ih further]

/-- Declaring a name keeps what other names mean. -/
theorem get?_of_insert {symbol : Symbol φ} (inserted : table.insert name symbol = .ok table')
    (apart : other ≠ name) : table'.get? other = table.get? other := by
  obtain ⟨-, rfl⟩ := insert_eq_ok_iff.1 inserted
  have same (scope : Scope φ) : (scope.insert name symbol).lookup? other = scope.lookup? other := by
    rw [Scope.lookup?_insert, if_neg apart]
  simp only [get?, locate?, depth, List.length_modify,
    locateFrom?_modify_of_same (fun scope => Scope.parent_insert scope name symbol) same]

/-- Assigning to a name keeps what other names mean. -/
theorem get?_of_set (assigned : table.set name word = .ok table') (apart : other ≠ name) :
    table'.get? other = table.get? other := by
  unfold set at assigned
  split at assigned
  · rename_i found _
    obtain ⟨index, old | entry⟩ := found
    · obtain rfl := Except.ok.inj assigned
      have same (scope : Scope φ) :
          (scope.replace name (.variable word)).lookup? other = scope.lookup? other := by
        rw [Scope.lookup?_replace, if_neg apart]
      simp only [get?, locate?, depth, List.length_modify,
        locateFrom?_modify_of_same (fun scope => Scope.parent_replace scope name _) same]
    · cases assigned
  · cases assigned

/-- A name that was declared means what it was declared as. -/
theorem get?_of_insert_self {symbol : Symbol φ} (live : table.current < table.depth)
    (inserted : table.insert name symbol = .ok table') : table'.get? name = some symbol := by
  obtain ⟨-, rfl⟩ := insert_eq_ok_iff.1 inserted
  have present : table.scopes[table.current]? = some table.scopes[table.current] :=
    List.getElem?_eq_getElem live
  obtain ⟨steps, enough⟩ := Nat.exists_eq_add_one.2 (Nat.zero_lt_of_lt live)
  have enough' : table.scopes.length = steps + 1 := enough
  simp [get?, locate?, depth, enough', locateFrom?, present, Scope.lookup?_insert]

/-- A name that was assigned to means a variable with the assigned value. -/
theorem get?_of_set_self (assigned : table.set name word = .ok table') :
    table'.get? name = some (.variable word) := by
  unfold set at assigned
  split at assigned
  · rename_i found located
    obtain ⟨index, old | entry⟩ := found
    · obtain rfl := Except.ok.inj assigned
      have located' := locateFrom?_modify_replace located (.variable word)
      simp only [depth] at located'
      simp [get?, locate?, depth, located']
    · cases assigned
  · cases assigned

end ScriptLang.ScopeTable

import ScriptLang.Proofs.Scope.Outwards

/-!
# Hidden scopes

Scopes can be hidden from the current one: no way outwards leads from a scope that is not hidden to
one that is. What the hidden scopes bind then makes no difference to what a name means, to what a
declaration or an assignment does, and they stay as they are. Two tables that agree outside of the
hidden scopes give the same outcomes.
-/

namespace ScriptLang

namespace ScopeTable

variable {φ : Type}

/-- The hidden scopes are open, and no scope that is not hidden lies within one of them. -/
structure Hides (hidden : Nat → Prop) (table : ScopeTable φ) : Prop where
  live {index : Nat} : hidden index → index < table.depth
  around {index parent : Nat} {scope : Scope φ} : ¬ hidden index →
    table.scopes[index]? = some scope → scope.parent = some parent → ¬ hidden parent

/-- The scope with the index is open and not on the way outwards from the first. -/
def Off (table : ScopeTable φ) (start index : Nat) : Prop :=
  index < table.depth ∧ ¬ Outwards table.scopes start index

/-- Two tables are the same but for what the hidden scopes are. -/
structure AgreeOutside (hidden : Nat → Prop) (table twin : ScopeTable φ) : Prop where
  current : twin.current = table.current
  depth : twin.depth = table.depth
  seen {index : Nat} : ¬ hidden index → twin.scopes[index]? = table.scopes[index]?

/-- The hidden scopes are the same in the second table. -/
def KeepsHidden (hidden : Nat → Prop) (table table' : ScopeTable φ) : Prop :=
  ∀ ⦃index⦄, hidden index → table'.scopes[index]? = table.scopes[index]?

/-- A change of one table and a change of the other have the same outcome: the same error, or tables
that agree again and keep their hidden scopes. -/
inductive SameChange (hidden : Nat → Prop) (table twin : ScopeTable φ) :
    Except NameError (ScopeTable φ) → Except NameError (ScopeTable φ) → Prop where
  | ok {table' twin' : ScopeTable φ} : AgreeOutside hidden table' twin' →
      KeepsHidden hidden table table' → KeepsHidden hidden twin twin' →
        SameChange hidden table twin (.ok table') (.ok twin')
  | error {error : NameError} : SameChange hidden table twin (.error error) (.error error)

variable {hidden : Nat → Prop} {table table' twin : ScopeTable φ}

/-- The scopes off the way outwards from a scope can be hidden. -/
theorem hides_off (table : ScopeTable φ) (start : Nat) : Hides (table.Off start) table where
  live off := off.1
  around {index parent scope} seen present within off := by
    have live : index < table.depth := (List.getElem?_eq_some_iff.1 present).1
    have leads : Outwards table.scopes start index :=
      Classical.byContradiction fun away => seen ⟨live, away⟩
    exact off.2 (.around leads present within)

/-- The way outwards leads past the hidden scopes. -/
theorem Hides.not_hidden_of_outwards (hides : Hides hidden table) {start index : Nat}
    (leads : Outwards table.scopes start index) (seen : ¬ hidden start) : ¬ hidden index := by
  induction leads with
  | here => exact seen
  | around _ present within ih => exact hides.around ih present within

/-- A table that grows hides what it hid. -/
theorem Hides.of_grows (hides : Hides hidden table) (grows : table.Grows table') :
    Hides hidden table' where
  live off := by
    rw [grows.depth]
    exact hides.live off
  around {index parent scope'} seen present within := by
    have live : index < table.scopes.length := by
      have bound := (List.getElem?_eq_some_iff.1 present).1
      have depth := grows.depth
      simp only [ScopeTable.depth] at depth
      omega
    obtain ⟨found, present', same, -⟩ := grows.keeps (List.getElem?_eq_getElem live)
    obtain rfl := Option.some.inj (present.symm.trans present')
    exact hides.around seen (List.getElem?_eq_getElem live) (same.symm.trans within)

/-- A scope that is opened within one that is not hidden leaves the others hidden. -/
theorem Hides.enterUnder (hides : Hides hidden table) {parent : Nat} (seen : ¬ hidden parent) :
    Hides hidden (table.enterUnder parent) where
  live off := by
    rw [depth_enterUnder]
    exact Nat.lt_succ_of_lt (hides.live off)
  around {index outer scope} seen' present within := by
    rcases eq_or_newest_of_enterUnder present with older | ⟨rfl, rfl⟩
    · exact hides.around seen' older within
    · obtain rfl : parent = outer := by simpa [Scope.empty] using within
      exact seen

/-- The scope that is opened is not hidden. -/
theorem Hides.not_hidden_depth (hides : Hides hidden table) : ¬ hidden table.depth :=
  fun off => Nat.lt_irrefl _ (hides.live off)

/-- A table keeps its own hidden scopes. -/
theorem KeepsHidden.refl (table : ScopeTable φ) : KeepsHidden hidden table table :=
  fun _ _ => rfl

/-- Hidden scopes that are kept twice are kept. -/
theorem KeepsHidden.trans {table'' : ScopeTable φ} (first : KeepsHidden hidden table table')
    (second : KeepsHidden hidden table' table'') : KeepsHidden hidden table table'' :=
  fun _ off => (second off).trans (first off)

/-- Changing a scope that is not hidden keeps the hidden ones. -/
theorem keepsHidden_modify {index : Nat} (seen : ¬ hidden index) (change : Scope φ → Scope φ) :
    KeepsHidden hidden table { table with scopes := table.scopes.modify index change } := by
  intro other off
  have apart : index ≠ other := fun same => seen (same ▸ off)
  simp [apart]

/-- Changing the same scope in the same way keeps tables in agreement. -/
theorem AgreeOutside.modify (agree : AgreeOutside hidden table twin) (index : Nat)
    (change : Scope φ → Scope φ) :
    AgreeOutside hidden { table with scopes := table.scopes.modify index change }
      { twin with scopes := twin.scopes.modify index change } where
  current := agree.current
  depth := by simpa [ScopeTable.depth] using agree.depth
  seen {other} seen := by
    rw [List.getElem?_modify, List.getElem?_modify, agree.seen seen]

/-- From a scope that is not hidden the way outwards finds the same in both tables. -/
theorem AgreeOutside.locateFrom? (agree : AgreeOutside hidden table twin)
    (hides : Hides hidden table) (name : Name) {steps index : Nat} (seen : ¬ hidden index) :
    ScopeTable.locateFrom? twin.scopes name steps index =
      ScopeTable.locateFrom? table.scopes name steps index := by
  induction steps generalizing index with
  | zero => rfl
  | succ steps ih =>
    simp only [ScopeTable.locateFrom?, agree.seen seen]
    cases present : table.scopes[index]? with
    | none => rfl
    | some scope =>
      dsimp only
      cases scope.lookup? name with
      | some symbol => rfl
      | none =>
        cases within : scope.parent with
        | none => rfl
        | some parent => exact ih (hides.around seen present within)

/-- Declaring a name has the same outcome in both tables. -/
theorem AgreeOutside.insert (agree : AgreeOutside hidden table twin) (seen : ¬ hidden table.current)
    (name : Name) (symbol : Symbol φ) :
    SameChange hidden table twin (table.insert name symbol) (twin.insert name symbol) := by
  unfold ScopeTable.insert
  rw [agree.current, agree.seen seen]
  cases (table.scopes[table.current]?).bind (·.lookup? name) with
  | some bound => exact .error
  | none =>
    have changed := agree.modify table.current (·.insert name symbol)
    exact .ok ⟨rfl, changed.depth, changed.seen⟩ (keepsHidden_modify seen _)
      (keepsHidden_modify seen _)

section Current

variable (agree : AgreeOutside hidden table twin) (hides : Hides hidden table)
  (seen : ¬ hidden table.current)

include agree hides seen

/-- A name is located in the same scope in both tables. -/
theorem AgreeOutside.locate? (name : Name) : twin.locate? name = table.locate? name := by
  unfold ScopeTable.locate?
  rw [agree.current, agree.depth]
  exact agree.locateFrom? hides name seen

/-- A name means the same in both tables. -/
theorem AgreeOutside.get? (name : Name) : twin.get? name = table.get? name := by
  rw [ScopeTable.get?, agree.locate? hides seen name, ScopeTable.get?]

/-- A variable has the same value in both tables. -/
theorem AgreeOutside.value (name : Name) : twin.value name = table.value name := by
  rw [ScopeTable.value, agree.get? hides seen name, ScopeTable.value]

/-- Assigning to a name has the same outcome in both tables. -/
theorem AgreeOutside.set (name : Name) (word : Word) :
    SameChange hidden table twin (table.set name word) (twin.set name word) := by
  unfold ScopeTable.set
  rw [agree.locate? hides seen name]
  cases located : table.locate? name with
  | none => exact .error
  | some found =>
    obtain ⟨index, old | entry⟩ := found
    · have leads : Outwards table.scopes table.current index :=
        (resolves_of_locateFrom? located).outwards
      have seen' := hides.not_hidden_of_outwards leads seen
      exact .ok (agree.modify index _) (keepsHidden_modify seen' _) (keepsHidden_modify seen' _)
    · exact .error

end Current

/-- A scope that is opened in both tables binds nothing in either. -/
theorem AgreeOutside.enterUnder (agree : AgreeOutside hidden table twin) (parent : Nat) :
    AgreeOutside hidden (table.enterUnder parent) (twin.enterUnder parent) where
  current := agree.depth
  depth := by rw [depth_enterUnder, depth_enterUnder, agree.depth]
  seen {index} seen := by
    have length : twin.scopes.length = table.scopes.length := agree.depth
    simp only [ScopeTable.enterUnder, List.getElem?_append, length, agree.seen seen]

/-- Opening a scope keeps the hidden ones, which are open already. -/
theorem keepsHidden_enterUnder (live : ∀ index, hidden index → index < table.depth) (parent : Nat) :
    KeepsHidden hidden table (table.enterUnder parent) :=
  fun index off => getElem?_scopes_enterUnder (live index off)

/-- Closing the newest scope of both tables keeps them in agreement. -/
theorem AgreeOutside.exit (agree : AgreeOutside hidden table twin) (previous : Nat) :
    AgreeOutside hidden (table.exit previous) (twin.exit previous) where
  current := rfl
  depth := by rw [depth_exit, depth_exit, agree.depth]
  seen {index} seen := by
    have length : twin.scopes.length = table.scopes.length := agree.depth
    simp only [ScopeTable.exit, agree.depth]
    split
    · rw [List.getElem?_dropLast, List.getElem?_dropLast, length, agree.seen seen]
    · exact agree.seen seen

/-- Closing the newest scope keeps the hidden ones, if they are older. -/
theorem keepsHidden_exit (older : ∀ index, hidden index → index + 1 < table.depth) (previous : Nat) :
    KeepsHidden hidden table (table.exit previous) := by
  intro index off
  have bound := older index off
  have length : table.scopes.length = table.depth := rfl
  simp only [ScopeTable.exit]
  rw [if_pos (by omega), List.getElem?_dropLast, if_pos (by omega)]

end ScopeTable

end ScriptLang

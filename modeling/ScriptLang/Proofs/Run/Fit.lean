import ScriptLang.Proofs.Emit.Growth
import ScriptLang.Proofs.Run.Stability

/-!
# States that fit what was checked

While a program is printed its names are checked against a table of scopes. A state of a run fits a
table if a statement that was checked against the table can run from the state without a name that
means nothing or is declared twice: the run sees every name that the table sees, its current scope
binds no name that the table's does not, and each registered routine was checked against a table of
which the scope of the routine sees every name.
-/

namespace ScriptLang

/-- Every name that is seen from the current scope of the table is seen from the scope with the
index. -/
def ScopeTable.Covered (table : ScopeTable Nat) (scopes : List (Scope Nat)) (index : Nat) : Prop :=
  ∀ name, Sees table.scopes name table.current → Sees scopes name index

/-- The body of a routine was checked, with its parameters and results declared in a scope of their
own, against a table that is covered by the scope of the routine. -/
def Routine.Vetted (dialect : Dialect) (scopes : List (Scope Nat)) (routine : Routine) : Prop :=
  ∃ outside opened closed : ScopeTable Nat, ∃ lines : List Line,
    outside.Nested ∧ outside.Covered scopes routine.scope ∧
      (routine.params ++ routine.returns).forM Emit.declare outside.enter = .ok ((), opened) ∧
        Emit.all dialect routine.body opened = .ok (lines, closed) ∧
          ∀ name ∈ Stmt.namesAll routine.body, name.isDotted = false

/-- A state fits a table against which a program is checked. -/
structure RunState.Fits (dialect : Dialect) (table : ScopeTable Nat) (state : RunState) : Prop where
  sound : state.Sound
  nested : table.Nested
  covered : table.Covered state.table.scopes state.table.current
  fresh {name : Name} : (state.table.here? name).isSome → (table.here? name).isSome
  vetted : ∀ routine ∈ state.routines, routine.Vetted dialect state.table.scopes

/-- A routine stays vetted while no name is lost. -/
theorem Routine.Vetted.mono {dialect : Dialect} {scopes scopes' : List (Scope Nat)}
    {routine : Routine} (vetted : routine.Vetted dialect scopes)
    (kept : ∀ name, Sees scopes name routine.scope → Sees scopes' name routine.scope) :
    routine.Vetted dialect scopes' := by
  obtain ⟨outside, opened, closed, lines, nested, covered, checked⟩ := vetted
  exact ⟨outside, opened, closed, lines, nested, fun name sees => kept name (covered name sees),
    checked⟩

/-- A name that is known to the table and is not dotted is seen. -/
theorem ScopeTable.Nested.sees_of_known {table : ScopeTable Nat} (nested : table.Nested) {name : Name}
    (known : Emit.Known table name) (undotted : name.isDotted = false) :
    Sees table.scopes name table.current := by
  rcases known with dotted | meant
  · simp [undotted] at dotted
  · rw [ScopeTable.sees_current_iff nested]
    simpa [ScopeTable.get?] using meant

namespace RunState.Fits

variable {dialect : Dialect} {table table' : ScopeTable Nat} {state state' : RunState}

/-- Before anything ran or was checked the state fits. -/
theorem start : RunState.new.Fits dialect ScopeTable.new where
  sound := sound_new
  nested := ScopeTable.nested_new
  covered _ sees := sees
  fresh bound := bound
  vetted := by simp [RunState.new]

/-- Another state of the same shape fits as well. -/
theorem of_shape_eq (fits : state.Fits dialect table) (same : state'.shape = state.shape) :
    state'.Fits dialect table := by
  have tables := table_shape_of_shape_eq same
  have kept {name : Name} {index : Nat} (sees : Sees state.table.scopes name index) :
      Sees state'.table.scopes name index :=
    (ScopeTable.Grows.of_shape_eq tables).sees sees
  refine ⟨fits.sound.of_shape_eq same, fits.nested, fun name sees => ?_, fun {name} bound => ?_,
    fun routine registered => ?_⟩
  · rw [ScopeTable.current_eq_of_shape_eq tables]
    exact kept (fits.covered name sees)
  · rw [ScopeTable.isSome_here?_of_shape_eq tables] at bound
    exact fits.fresh bound
  · rw [routines_of_shape_eq same] at registered
    exact (fits.vetted routine registered).mono fun _ => kept

/-- The state fits another table of the same shape as well. -/
theorem of_table_shape_eq (fits : state.Fits dialect table) (same : table'.shape = table.shape) :
    state.Fits dialect table' where
  sound := fits.sound
  nested := fits.nested.of_grows (.of_shape_eq same)
  covered name sees := by
    have current := ScopeTable.current_eq_of_shape_eq same
    rw [current] at sees
    exact fits.covered name ((ScopeTable.Grows.of_shape_eq same.symm).sees sees)
  fresh bound := by
    rw [ScopeTable.isSome_here?_of_shape_eq same]
    exact fits.fresh bound
  vetted := fits.vetted

/-- If the table is covered by an open scope, then a scope opened within it fits a scope opened
within the current one of the table. -/
theorem enterUnder (sound : state.Sound)
    (vetted : ∀ routine ∈ state.routines, routine.Vetted dialect state.table.scopes)
    (nested : table.Nested) {parent : Nat} (live : parent < state.table.depth)
    (covered : table.Covered state.table.scopes parent) :
    { state with table := state.table.enterUnder parent }.Fits dialect table.enter where
  sound := sound.enterUnder live
  nested := nested.enterUnder nested.current_lt
  covered name sees :=
    ScopeTable.sees_enterUnder_newest
      (covered name (ScopeTable.sees_of_enterUnder_newest nested nested.current_lt sees))
  fresh {name} bound := by
    simp [ScopeTable.here?, ScopeTable.getElem?_scopes_enterUnder_newest] at bound
  vetted routine registered :=
    (vetted routine registered).mono fun _ => ScopeTable.sees_enterUnder

/-- A scope opened within the current one fits. -/
theorem enter (fits : state.Fits dialect table) :
    { state with table := state.table.enterUnder state.table.current }.Fits dialect table.enter :=
  enterUnder fits.sound fits.vetted fits.nested fits.sound.nested.current_lt fits.covered

section Insert

variable {name : Name} {symbol symbol' : Symbol Nat}

/-- What can be declared in the table can be declared in the state. -/
theorem insert_eq_ok (fits : state.Fits dialect table)
    (declared : table.insert name symbol = .ok table') (symbol' : Symbol Nat) :
    ∃ final, state.table.insert name symbol' = .ok final := by
  have unbound := (ScopeTable.insert_eq_ok_iff.1 declared).1
  have unbound' : state.table.here? name = none := by
    rw [← Option.not_isSome_iff_eq_none]
    intro bound
    have bound' := fits.fresh bound
    simp [unbound] at bound'
  exact ⟨_, ScopeTable.insert_eq_ok_iff.2 ⟨unbound', rfl⟩⟩

/-- A name that is declared on both sides is seen on both sides. -/
theorem covered_insert (fits : state.Fits dialect table)
    (declared : table.insert name symbol = .ok table') {final : ScopeTable Nat}
    (inserted : state.table.insert name symbol' = .ok final) :
    table'.Covered final.scopes final.current := by
  intro other sees
  by_cases same : other = name
  · subst same
    exact ScopeTable.sees_insert fits.sound.nested.current_lt inserted
  · rw [(ScopeTable.grows_of_insert declared).current] at sees
    rw [(ScopeTable.grows_of_insert inserted).current]
    exact (ScopeTable.grows_of_insert inserted).sees
      (fits.covered other (ScopeTable.sees_of_insert declared same sees))

/-- A state fits after a name was declared on both sides, if the routines that were added are
vetted. -/
theorem insert (fits : state.Fits dialect table) (declared : table.insert name symbol = .ok table')
    {final : ScopeTable Nat} (inserted : state.table.insert name symbol' = .ok final)
    (added : List Routine)
    (sound : { state with table := final, routines := state.routines ++ added }.Sound)
    (vetted : ∀ routine ∈ added, routine.Vetted dialect final.scopes) :
    { state with table := final, routines := state.routines ++ added }.Fits dialect table' where
  sound := sound
  nested := fits.nested.of_grows (ScopeTable.grows_of_insert declared)
  covered := fits.covered_insert declared inserted
  fresh {other} bound := by
    rw [ScopeTable.here?_of_insert fits.sound.nested.current_lt inserted] at bound
    rw [ScopeTable.here?_of_insert fits.nested.current_lt declared]
    split at bound
    · rename_i same
      simp [same]
    · rename_i apart
      simpa [apart] using fits.fresh bound
  vetted routine registered := by
    rcases List.mem_append.1 registered with old | new
    · exact (fits.vetted routine old).mono fun _ => (ScopeTable.grows_of_insert inserted).sees
    · exact vetted routine new

end Insert

end RunState.Fits

end ScriptLang

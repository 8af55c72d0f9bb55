import ScriptLang.Proofs.Run.Relation
import ScriptLang.Proofs.Scope.Shape

/-!
# What a run leaves as it was

The states that a run goes through are sound: the current scope is the newest, scopes lie within
older ones, and the symbol of a function refers to a routine that was registered for the scope that
binds it. From a sound state an expression changes nothing but the values of variables and the error
code, and statements only add names and routines in the current scope, whether they give a result or
meet a fault. Both follow from what the primitive steps do, since the walk respects `Stable`.
-/

namespace ScriptLang

namespace RunState

/-- Function symbols, scopes and routines of the state refer to what is there. -/
structure Sound (state : RunState) : Prop where
  nested : state.table.Nested
  unique {index : Nat} {scope : Scope Nat} :
    state.table.scopes[index]? = some scope → scope.names.Nodup
  registered {index entry : Nat} {scope : Scope Nat} {name : Name} :
    state.table.scopes[index]? = some scope → scope.lookup? name = some (.func entry) →
      ∃ routine, state.routines[entry]? = some routine ∧ routine.scope = index
  live : ∀ routine ∈ state.routines, routine.scope < state.table.depth

/-- All of a state but the values of variables and the error code. -/
def shape (state : RunState) : (List (Scope.Shape Nat) × Nat) × List Routine × Nat :=
  (state.table.shape, state.routines, state.depth)

/-- A state extends another: more names are bound in the current scope and more routines are
registered for it, and all else is the same but for values of variables and the error code. -/
structure Extends (state state' : RunState) : Prop where
  table : state.table.Grows state'.table
  routines : ∃ added, state'.routines = state.routines ++ added ∧
    ∀ routine ∈ added, routine.scope = state.table.current
  depth : state'.depth = state.depth

/-- The state in which a program starts is sound. -/
theorem sound_new : new.Sound where
  nested := ScopeTable.nested_new
  unique {index scope} present := by
    have root : index = 0 ∧ Scope.empty none = scope := by
      simpa [new, ScopeTable.new, List.getElem?_singleton] using present
    simp [← root.2, Scope.names, Scope.empty]
  registered {index entry scope name} present bound := by
    have root : index = 0 ∧ Scope.empty none = scope := by
      simpa [new, ScopeTable.new, List.getElem?_singleton] using present
    simp [← root.2] at bound
  live := by simp [new]

/-- States of one shape have tables of one shape. -/
theorem table_shape_of_shape_eq {state state' : RunState} (same : state'.shape = state.shape) :
    state'.table.shape = state.table.shape :=
  congrArg Prod.fst same

/-- States of one shape have the same routines. -/
theorem routines_of_shape_eq {state state' : RunState} (same : state'.shape = state.shape) :
    state'.routines = state.routines :=
  congrArg (fun shape => shape.2.1) same

/-- A state extends each state of its shape. -/
theorem Extends.of_shape_eq {state state' : RunState} (same : state'.shape = state.shape) :
    state.Extends state' where
  table := .of_shape_eq (table_shape_of_shape_eq same)
  routines := ⟨[], by simp [routines_of_shape_eq same], by simp⟩
  depth := congrArg (fun shape => shape.2.2) same

/-- Every state extends itself. -/
theorem Extends.refl (state : RunState) : state.Extends state :=
  .of_shape_eq rfl

/-- A state that extends an extension of another extends the other. -/
theorem Extends.trans {state state' state'' : RunState} (first : state.Extends state')
    (second : state'.Extends state'') : state.Extends state'' where
  table := first.table.trans second.table
  routines := by
    obtain ⟨added, routines, scope⟩ := first.routines
    obtain ⟨added', routines', scope'⟩ := second.routines
    refine ⟨added ++ added', by rw [routines', routines, List.append_assoc], fun routine new => ?_⟩
    rcases List.mem_append.1 new with old | new
    · exact scope routine old
    · rw [scope' routine new, first.table.current]
  depth := second.depth.trans first.depth

/-- The function that a name means is registered, for a scope that is open. -/
theorem Sound.routine_of_get? {state : RunState} (sound : state.Sound) {name : Name} {entry : Nat}
    (meant : state.table.get? name = some (.func entry)) :
    ∃ routine, state.routines[entry]? = some routine ∧ routine.scope < state.table.depth := by
  obtain ⟨⟨index, symbol⟩, located, same⟩ := Option.map_eq_some_iff.1 meant
  obtain rfl : symbol = .func entry := same
  obtain ⟨scope, present, bound⟩ := (ScopeTable.resolves_of_locateFrom? located).bound
  obtain ⟨routine, registered, -⟩ := sound.registered present bound
  exact ⟨routine, registered, sound.live routine (List.mem_of_getElem? registered)⟩

/-- Soundness says nothing of the values of variables and the error code. -/
theorem Sound.of_shape_eq {state state' : RunState} (sound : state.Sound)
    (same : state'.shape = state.shape) : state'.Sound := by
  have tables := table_shape_of_shape_eq same
  have known {index : Nat} {scope : Scope Nat} (present : state'.table.scopes[index]? = some scope) :
      ∃ old, state.table.scopes[index]? = some old ∧ old.shape = scope.shape := by
    have shapes := ScopeTable.shape_getElem?_of_shape_eq tables index
    rw [present] at shapes
    exact Option.map_eq_some_iff.1 shapes.symm
  refine ⟨sound.nested.of_grows (.of_shape_eq tables), fun {index scope} present => ?_,
    fun {index entry scope name} present bound => ?_, fun routine registered => ?_⟩
  · obtain ⟨old, present', shape⟩ := known present
    have names : old.names = scope.names := congrArg Scope.Shape.names shape
    exact names ▸ sound.unique present'
  · obtain ⟨old, present', shape⟩ := known present
    have bound' : old.shape.symbols name = some (.func entry) := by
      rw [shape]
      simp [Scope.shape, bound, Symbol.outline]
    obtain ⟨symbol, found, outline⟩ := Option.map_eq_some_iff.1 bound'
    obtain value | other := symbol
    · simp [Symbol.outline] at outline
    · rw [Symbol.outline] at outline
      rw [routines_of_shape_eq same]
      exact sound.registered present' (outline ▸ found)
  · rw [routines_of_shape_eq same] at registered
    rw [ScopeTable.depth_eq_of_shape_eq tables]
    exact sound.live routine registered

/-- Binding a new name keeps the state sound, if routines are registered for the current scope and
the symbol of a function refers to one of them. -/
theorem Sound.insert {state : RunState} (sound : state.Sound) {name : Name} {symbol : Symbol Nat}
    {table : ScopeTable Nat} (added : List Routine)
    (inserted : state.table.insert name symbol = .ok table)
    (here : ∀ routine ∈ added, routine.scope = state.table.current)
    (registers : ∀ entry, symbol = .func entry → ∃ routine,
      (state.routines ++ added)[entry]? = some routine ∧ routine.scope = state.table.current) :
    { state with table, routines := state.routines ++ added }.Sound := by
  have grows := ScopeTable.grows_of_insert inserted
  obtain ⟨unbound, rfl⟩ := ScopeTable.insert_eq_ok_iff.1 inserted
  -- A scope is the one from before, or it is the current one with one more binding.
  have known {index : Nat} {scope : Scope Nat}
      (present : (state.table.scopes.modify state.table.current (·.insert name symbol))[index]? =
        some scope) : state.table.scopes[index]? = some scope ∨ index = state.table.current ∧
          ∃ old, state.table.scopes[index]? = some old ∧ scope = old.insert name symbol := by
    by_cases current : state.table.current = index
    · subst current
      obtain ⟨old, present', rfl⟩ : ∃ old, state.table.scopes[state.table.current]? = some old ∧
          old.insert name symbol = scope := by
        simpa using present
      exact .inr ⟨rfl, old, present', rfl⟩
    · exact .inl (by simpa [current] using present)
  refine ⟨sound.nested.of_grows grows, fun {index scope} present => ?_,
    fun {index entry scope other} present bound => ?_, fun routine registered => ?_⟩
  · rcases known present with present' | ⟨rfl, old, present', rfl⟩
    · exact sound.unique present'
    · have new : name ∉ old.names := by
        rw [← Scope.isSome_lookup?_iff]
        simpa [ScopeTable.here?, present'] using unbound
      exact List.nodup_cons.2 ⟨new, sound.unique present'⟩
  · have older {scope : Scope Nat} (present : state.table.scopes[index]? = some scope)
        (bound : scope.lookup? other = some (.func entry)) :
        ∃ routine, (state.routines ++ added)[entry]? = some routine ∧ routine.scope = index := by
      obtain ⟨routine, registered, scope⟩ := sound.registered present bound
      refine ⟨routine, ?_, scope⟩
      rw [List.getElem?_append_left (List.getElem?_eq_some_iff.1 registered).1, registered]
    rcases known present with present' | ⟨rfl, old, present', rfl⟩
    · exact older present' bound
    · rw [Scope.lookup?_insert] at bound
      split at bound
      · exact registers entry (Option.some.inj bound)
      · exact older present' bound
  · rw [grows.depth]
    rcases List.mem_append.1 registered with old | new
    · exact sound.live routine old
    · rw [here routine new]
      exact sound.nested.current_lt

/-- Opening a scope within an open one keeps the state sound. -/
theorem Sound.enterUnder {state : RunState} (sound : state.Sound) {parent : Nat}
    (live : parent < state.table.depth) :
    { state with table := state.table.enterUnder parent }.Sound where
  nested := sound.nested.enterUnder live
  unique {index scope} present := by
    rcases ScopeTable.eq_or_newest_of_enterUnder present with older | ⟨rfl, rfl⟩
    · exact sound.unique older
    · simp [Scope.names, Scope.empty]
  registered {index entry scope name} present bound := by
    rcases ScopeTable.eq_or_newest_of_enterUnder present with older | ⟨rfl, rfl⟩
    · exact sound.registered older bound
    · simp at bound
  live routine registered := by
    rw [ScopeTable.depth_enterUnder]
    exact Nat.lt_succ_of_lt (sound.live routine registered)

/-- A state that has grown in the scope just opened gets its shape back when the scope is closed and
its routines are forgotten. -/
theorem shape_recycle {state final : RunState} {parent : Nat} (rooted : 0 < state.table.depth)
    (extended : { state with table := state.table.enterUnder parent }.Extends final) :
    (recycle state final).shape = state.shape := by
  have table : (final.table.exit state.table.current).shape = state.table.shape :=
    ScopeTable.shape_exit_of_grows rooted extended.table state.table.current
  have routines : final.routines.take state.routines.length = state.routines := by
    obtain ⟨added, registered, -⟩ := extended.routines
    simp [registered]
  have depth : final.depth = state.depth := extended.depth
  simp [shape, recycle, table, routines, depth]

end RunState

namespace Run

/-- The state of an outcome, with a result or with a fault. -/
def final {α : Type} : EStateM.Result Fault RunState α → RunState
  | .ok _ state => state
  | .error _ state => state

/-- The state of a result is the one that it leaves. -/
@[simp] theorem final_ok {α : Type} (value : α) (state : RunState) :
    final (.ok value state) = state := rfl

/-- The state of a fault is the one in which it was met. -/
@[simp] theorem final_error {α : Type} (fault : Fault) (state : RunState) :
    final (.error fault state : EStateM.Result Fault RunState α) = state := rfl

/-- The state that a computation ends in. -/
def after {α : Type} (run : Run α) (state : RunState) : RunState :=
  final (run state)

/-- From each sound state the computation ends in a state that is as its part of a program allows:
an expression keeps the shape, statements extend the state. Nothing is said of a second
computation. -/
def Stable : Part → ∀ {α : Type}, Run α → Run α → Prop
  | .expression, _, run, _ => ∀ state : RunState, state.Sound → (run.after state).shape = state.shape
  | .statements, _, run, _ => ∀ state : RunState, state.Sound →
      (run.after state).Sound ∧ state.Extends (run.after state)

/-- A computation that ends where it starts keeps the shape. -/
theorem stable_of_after_eq {α : Type} {run run' : Run α}
    (same : ∀ state, run.after state = state) : Stable .expression run run' :=
  fun state _ => congrArg RunState.shape (same state)

/-- A stable computation ends in a sound state that extends the one it starts from. -/
theorem Stable.extends_after {part : Part} {α : Type} {run run' : Run α}
    (stable : Stable part run run') {state : RunState} (sound : state.Sound) :
    (run.after state).Sound ∧ state.Extends (run.after state) := by
  cases part with
  | expression =>
    have same := stable state sound
    exact ⟨sound.of_shape_eq same, .of_shape_eq same⟩
  | statements => exact stable state sound

/-- What is stable as an expression is stable as a statement, since one shape is an extension. -/
theorem stable_widen {α : Type} {run run' : Run α} (stable : Stable .expression run run') :
    Stable .statements run run' :=
  fun _ sound => stable.extends_after sound

/-- Two steps are stable if the first is and the second is behind every value. -/
theorem stable_bind {part : Part} {α β : Type} {first first' : Run α} {second second' : α → Run β}
    (here : Stable part first first') (there : ∀ value, Stable part (second value) (second' value)) :
    Stable part (first >>= second) (first' >>= second') := by
  cases part with
  | expression =>
    intro state sound
    have same := here state sound
    cases outcome : first state with
    | ok value middle =>
      rw [after, outcome] at same
      have same' := there value middle (sound.of_shape_eq same)
      rw [final_ok] at same
      simpa [after, Bind.bind, EStateM.bind, outcome, same] using same'
    | error fault final =>
      simpa [after, Bind.bind, EStateM.bind, outcome] using same
  | statements =>
    intro state sound
    have extended := here state sound
    cases outcome : first state with
    | ok value middle =>
      rw [after, outcome] at extended
      have extended' := there value middle extended.1
      simp only [after, Bind.bind, EStateM.bind, outcome] at extended' ⊢
      exact ⟨extended'.1, extended.2.trans extended'.2⟩
    | error fault final =>
      simpa [after, Bind.bind, EStateM.bind, outcome] using extended

/-- Declaring a variable keeps the state sound and extends it. -/
theorem stable_declare (name : Name) (word : Word) {run : Run Unit} :
    Stable .statements (declare name word) run := by
  intro state sound
  cases inserted : state.table.declare name word with
  | error error =>
    simp [after, declare, updateTable, inserted, sound, RunState.Extends.refl]
  | ok table =>
    have sound' := sound.insert [] inserted (by simp) (by simp)
    simp only [after, declare, updateTable, inserted, final_ok]
    exact ⟨by simpa using sound', ScopeTable.grows_of_insert inserted, ⟨[], by simp, by simp⟩, rfl⟩

/-- Defining a function binds its name to the routine that is registered for it. -/
theorem stable_define (name : Name) (params returns : List Name) (body : List Stmt)
    {run : Run Unit} : Stable .statements (define name params returns body) run := by
  intro state sound
  cases inserted : state.table.declareFunction name state.routines.length with
  | error error =>
    simp [after, define, inserted, sound, RunState.Extends.refl]
  | ok table =>
    have grows := ScopeTable.grows_of_insert inserted
    have sound' := sound.insert [⟨params, returns, body, table.current⟩] inserted
      (by simp [grows.current]) (by
        intro entry same
        obtain rfl := Symbol.func.inj same
        exact ⟨_, List.getElem?_concat_length, grows.current⟩)
    simp only [after, define, inserted, final_ok]
    exact ⟨sound', grows, ⟨_, rfl, by simp [grows.current]⟩, rfl⟩

/-- What runs in a scope of its own changes nothing but values and the error code. -/
theorem after_withScopeUnder {α : Type} {run : Run α} (stable : Stable .statements run run)
    {state : RunState} (sound : state.Sound) {parent : Nat} (live : parent < state.table.depth) :
    ((withScopeUnder RunState.recycle parent run).after state).shape = state.shape := by
  have extended := (stable _ (sound.enterUnder live)).2
  have rooted := Nat.zero_lt_of_lt live
  unfold after withScopeUnder
  unfold after at extended
  cases outcome : run { state with table := state.table.enterUnder parent } with
  | ok value final =>
    rw [outcome] at extended
    exact RunState.shape_recycle rooted extended
  | error fault final =>
    rw [outcome] at extended
    exact RunState.shape_recycle rooted extended

/-- The walk respects stability. -/
theorem respects_stable : Respects RunState.recycle RunState.recycle Stable where
  pure _ := stable_of_after_eq fun _ => rfl
  throw _ := stable_of_after_eq fun _ => rfl
  bind := stable_bind
  widen := stable_widen
  read name := stable_of_after_eq fun state => by
    unfold after read
    cases state.table.value name <;> rfl
  assign name word := by
    intro state sound
    cases assigned : state.table.set name word with
    | error error => simp [after, assign, updateTable, assigned]
    | ok table =>
      simp [after, assign, updateTable, assigned, RunState.shape, ScopeTable.shape_of_set assigned]
  setErrorCode code := fun _ _ => rfl
  declare name word := stable_declare name word
  define name params returns body := stable_define name params returns body
  withScope stable := fun _ sound =>
    after_withScopeUnder (fun state sound => stable state sound) sound
      sound.nested.current_lt

/-- Entering a function in a frame keeps the shape, if the scope of its definition is open. -/
theorem after_enter (limit frames : Nat)
    (calls : CallsRelated Stable (call limit (enter RunState.recycle limit frames))
      (call limit (enter RunState.recycle limit frames)))
    (routine : Routine) (words : List Word) {state : RunState} (sound : state.Sound)
    (live : routine.scope < state.table.depth) :
    ((enter RunState.recycle limit (frames + 1) routine words).after state).shape =
      state.shape := by
  have framed : { state with depth := state.depth + 1 }.Sound :=
    ⟨sound.nested, sound.unique, sound.registered, sound.live⟩
  have stable := respects_stable.body calls routine routine.scope words
  have same := after_withScopeUnder stable framed live
  unfold after at same ⊢
  rw [enter, withFrame]
  cases outcome : withScopeUnder RunState.recycle routine.scope
      (body RunState.recycle (call limit (enter RunState.recycle limit frames)) routine words)
      { state with depth := state.depth + 1 } with
  | ok value final | error fault final =>
    rw [outcome] at same
    simp only [RunState.shape, Prod.mk.injEq, final_ok, final_error] at same ⊢
    obtain ⟨table, routines, depth⟩ := same
    exact ⟨table, routines, by omega⟩

/-- Calls keep the shape of the state, if entering a function does. -/
theorem callsRelated_stable_of_enter {limit : Nat} {enter : Routine → List Word → Run (List Word)}
    (entered : ∀ (routine : Routine) (words : List Word) (state : RunState), state.Sound →
      routine.scope < state.table.depth →
        ((enter routine words).after state).shape = state.shape) :
    CallsRelated Stable (call limit enter) (call limit enter) := by
  intro callee arity args _ stable state sound
  rw [after, call_apply]
  split
  · rfl
  · rfl
  · split
    · rfl
    · rename_i routine registered
      split
      · rfl
      · split
        · rfl
        · have same := stable state sound
          have live := sound.live routine (List.mem_of_getElem? registered)
          simp only [Bind.bind, EStateM.bind]
          rw [after] at same
          cases outcome : args state with
          | error fault final => simpa [outcome] using same
          | ok words middle =>
            rw [outcome, final_ok] at same
            have depth := ScopeTable.depth_eq_of_shape_eq (RunState.table_shape_of_shape_eq same)
            have same' := entered routine words middle (sound.of_shape_eq same) (by rwa [depth])
            exact same'.trans same

/-- Calls keep the shape of the state, however many frames can be opened. -/
theorem callsRelated_stable (limit frames : Nat) :
    CallsRelated Stable (call limit (enter RunState.recycle limit frames))
      (call limit (enter RunState.recycle limit frames)) := by
  induction frames with
  | zero => exact callsRelated_stable_of_enter fun _ _ _ _ _ => rfl
  | succ frames ih =>
    exact callsRelated_stable_of_enter fun routine words _ => after_enter limit frames ih routine words

/-- Entering a function keeps the shape, however many frames can be opened. -/
theorem shape_after_enter (limit frames : Nat) (routine : Routine) (words : List Word)
    {state : RunState} (sound : state.Sound) (live : routine.scope < state.table.depth) :
    ((enter RunState.recycle limit frames routine words).after state).shape = state.shape := by
  cases frames with
  | zero => rfl
  | succ frames =>
    exact after_enter limit frames (callsRelated_stable limit frames) routine words sound live

end Run

end ScriptLang

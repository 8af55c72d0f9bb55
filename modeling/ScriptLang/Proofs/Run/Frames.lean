import ScriptLang.Proofs.Run.Stability

/-!
# The frames of a run

A run is given a number of frames that it can open, one less in each frame, besides the limit that
each call asks about. The limit always comes first: what a computation does depends on the frames
that are open and not on those that are left, as long as these reach up to the limit. So a function
means the same wherever it is called (`enter_eq_withFrame`), and every computation closes the frames
that it opens. It closes its scopes too, and goes back to the current one: `KeepsScopes` asks nothing
of a state but that a scope is open.
-/

namespace ScriptLang

namespace Run

/-- The meaning of a call in a program that runs with at most the given number of open frames. -/
def calls (limit : Nat) : Caller :=
  call limit (enter RunState.recycle limit limit)

section SameAt

/-- From every state with the given number of open frames the two computations are the same, and
they leave that number as it is. -/
def SameAt (depth : Nat) (_part : Part) {α : Type} (run run' : Run α) : Prop :=
  ∀ state : RunState, state.depth = depth →
    run state = run' state ∧ (run.after state).depth = depth

/-- Two steps are the same at a depth if the first are and the second are behind every value. -/
theorem sameAt_bind {depth : Nat} {part : Part} {α β : Type} {first first' : Run α}
    {second second' : α → Run β} (here : SameAt depth part first first')
    (there : ∀ value, SameAt depth part (second value) (second' value)) :
    SameAt depth part (first >>= second) (first' >>= second') := by
  intro state level
  obtain ⟨same, kept⟩ := here state level
  rw [after] at kept ⊢
  simp only [Bind.bind, EStateM.bind, ← same]
  cases outcome : first state with
  | error fault final => simpa [outcome] using kept
  | ok value middle =>
    rw [outcome] at kept
    exact there value middle kept

/-- A change of the table is the same as itself and opens no frame. -/
theorem sameAt_updateTable {depth : Nat} {part : Part}
    (change : ScopeTable Nat → Except NameError (ScopeTable Nat)) :
    SameAt depth part (updateTable change) (updateTable change) := by
  intro state level
  refine ⟨rfl, ?_⟩
  unfold after updateTable
  cases change state.table <;> exact level

/-- Computations that are the same at a depth are the same in a scope of their own. -/
theorem sameAt_withScopeUnder {depth : Nat} {part : Part} {α : Type} {run run' : Run α}
    (parent : Nat) (same : SameAt depth part run run') :
    SameAt depth part (withScopeUnder RunState.recycle parent run)
      (withScopeUnder RunState.recycle parent run') := by
  intro state level
  obtain ⟨same, kept⟩ := same { state with table := state.table.enterUnder parent } level
  rw [after] at kept ⊢
  simp only [withScopeUnder, ← same]
  cases outcome : run { state with table := state.table.enterUnder parent } with
  | ok value final | error fault final =>
    rw [outcome] at kept
    exact ⟨trivial, kept⟩

/-- The walk respects sameness. -/
theorem respects_sameAt (depth : Nat) :
    Respects RunState.recycle RunState.recycle (SameAt depth) where
  pure _ := fun _ level => ⟨rfl, level⟩
  throw _ := fun _ level => ⟨rfl, level⟩
  bind := sameAt_bind
  widen same := same
  read name := by
    intro state level
    refine ⟨rfl, ?_⟩
    unfold after read
    cases state.table.value name <;> exact level
  assign _ _ := sameAt_updateTable _
  setErrorCode _ := fun _ level => ⟨rfl, level⟩
  declare _ _ := sameAt_updateTable _
  define name params returns body := by
    intro state level
    refine ⟨rfl, ?_⟩
    unfold after define
    cases state.table.declareFunction name state.routines.length <;> exact level
  withScope same := fun state level => sameAt_withScopeUnder state.table.current same state level

/-- What runs in a frame opens one more frame and closes it again. -/
theorem sameAt_withFrame {depth : Nat} {part : Part} {α : Type} {run run' : Run α} (parent : Nat)
    (same : SameAt (depth + 1) part run run') :
    SameAt depth part (withFrame RunState.recycle parent run)
      (withFrame RunState.recycle parent run') := by
  intro state level
  obtain ⟨same, kept⟩ := sameAt_withScopeUnder parent same { state with depth := state.depth + 1 }
    (congrArg (· + 1) level)
  rw [after] at kept ⊢
  simp only [withFrame, ← same]
  cases outcome : withScopeUnder RunState.recycle parent run
      { state with depth := state.depth + 1 } with
  | ok value final | error fault final =>
    rw [outcome] at kept
    exact ⟨trivial, congrArg (· - 1) kept⟩

/-- Calls with as many frames to open as the limit leaves are the same, however many more frames
could be opened. -/
theorem callsRelated_sameAt (limit depth frames frames' : Nat) (enough : limit ≤ depth + frames)
    (enough' : limit ≤ depth + frames') :
    CallsRelated (SameAt depth) (call limit (enter RunState.recycle limit frames))
      (call limit (enter RunState.recycle limit frames')) := by
  induction frames generalizing depth frames' with
  | zero =>
    intro callee arity args args' same state level
    have full : limit ≤ state.depth := by omega
    rw [after, call_apply, call_apply]
    split
    · exact ⟨rfl, level⟩
    · exact ⟨rfl, level⟩
    · split
      · exact ⟨rfl, level⟩
      · simp only [full, if_true]
        split <;> exact ⟨trivial, level⟩
  | succ frames ih =>
    intro callee arity args args' same state level
    rw [after, call_apply, call_apply]
    split
    · exact ⟨rfl, level⟩
    · exact ⟨rfl, level⟩
    · split
      · exact ⟨rfl, level⟩
      · rename_i routine _
        split
        · exact ⟨rfl, level⟩
        · split
          · exact ⟨rfl, level⟩
          · obtain _ | frames' := frames'
            · omega
            · have entered (words : List Word) := sameAt_withFrame routine.scope
                ((respects_sameAt (depth + 1)).body (ih (depth + 1) frames' (by omega) (by omega))
                  routine routine.scope words)
              exact sameAt_bind same entered state level

/-- The way in which a program calls functions does not depend on the state. -/
theorem callsRelated_calls (limit depth : Nat) :
    CallsRelated (SameAt depth) (calls limit) (calls limit) :=
  callsRelated_sameAt limit depth limit limit (Nat.le_add_left ..) (Nat.le_add_left ..)

/-- Below the limit, entering a function runs its body in a frame, with calls that mean in the body
what they mean outside of it: the frames that can still be opened never run out. -/
theorem enter_eq_withFrame {limit : Nat} {state : RunState} (below : state.depth < limit)
    (routine : Routine) (words : List Word) :
    enter RunState.recycle limit limit routine words state =
      withFrame RunState.recycle routine.scope
        (body RunState.recycle (calls limit) routine words) state := by
  obtain _ | frames := limit
  · omega
  · have inner := (respects_sameAt (state.depth + 1)).body
      (callsRelated_sameAt (frames + 1) (state.depth + 1) frames (frames + 1) (by omega) (by omega))
      routine routine.scope words
    exact (sameAt_withFrame routine.scope inner state rfl).1

end SameAt

section KeepsScopes

/-- From every state with an open scope the computation leaves the number of open scopes and the
current one as they are. Nothing is said of a second computation. -/
def KeepsScopes (_part : Part) {α : Type} (run _run' : Run α) : Prop :=
  ∀ state : RunState, 0 < state.table.depth →
    (run.after state).table.depth = state.table.depth ∧
      (run.after state).table.current = state.table.current

variable {part : Part} {α β : Type}

/-- Two steps leave the scopes as they are if each does. -/
theorem keepsScopes_bind {first first' : Run α} {second second' : α → Run β}
    (here : KeepsScopes part first first')
    (there : ∀ value, KeepsScopes part (second value) (second' value)) :
    KeepsScopes part (first >>= second) (first' >>= second') := by
  intro state rooted
  obtain ⟨depth, current⟩ := here state rooted
  rw [after] at depth current ⊢
  simp only [Bind.bind, EStateM.bind]
  cases outcome : first state with
  | error fault final =>
    rw [outcome] at depth current
    exact ⟨depth, current⟩
  | ok value middle =>
    rw [outcome, final_ok] at depth current
    obtain ⟨depth', current'⟩ := there value middle (depth ▸ rooted)
    exact ⟨depth'.trans depth, current'.trans current⟩

/-- A change of the table that keeps its depth and its current scope leaves the scopes as they
are. -/
theorem keepsScopes_updateTable {change : ScopeTable Nat → Except NameError (ScopeTable Nat)}
    (kept : ∀ {table table' : ScopeTable Nat}, change table = .ok table' →
      table'.depth = table.depth ∧ table'.current = table.current) :
    KeepsScopes part (updateTable change) (updateTable change) := by
  intro state _
  unfold after updateTable
  cases changed : change state.table with
  | ok table => exact kept changed
  | error error => exact ⟨rfl, rfl⟩

/-- What runs in a scope of its own closes it again. -/
theorem keepsScopes_withScopeUnder {run run' : Run α} (parent : Nat)
    (kept : KeepsScopes part run run') :
    KeepsScopes part (withScopeUnder RunState.recycle parent run)
      (withScopeUnder RunState.recycle parent run') := by
  intro state rooted
  obtain ⟨depth, -⟩ := kept { state with table := state.table.enterUnder parent } (by simp)
  have closed {final : RunState} (opened : final.table.depth = state.table.depth + 1) :
      (final.table.exit state.table.current).depth = state.table.depth := by
    rw [ScopeTable.depth_exit, opened, if_pos (Nat.succ_lt_succ rooted), Nat.add_sub_cancel]
  unfold after withScopeUnder
  unfold after at depth
  cases outcome : run { state with table := state.table.enterUnder parent } with
  | ok value final | error fault final =>
    rw [outcome] at depth
    exact ⟨closed (by simpa using depth), rfl⟩

/-- The walk keeps the scopes, whether or not its states are sound. -/
theorem respects_keepsScopes : Respects RunState.recycle RunState.recycle KeepsScopes where
  pure _ := fun _ _ => ⟨rfl, rfl⟩
  throw _ := fun _ _ => ⟨rfl, rfl⟩
  bind := keepsScopes_bind
  widen kept := kept
  read name := by
    intro state _
    unfold after read
    cases state.table.value name <;> exact ⟨rfl, rfl⟩
  assign name word := keepsScopes_updateTable fun assigned =>
    have same := ScopeTable.shape_of_set assigned
    ⟨ScopeTable.depth_eq_of_shape_eq same, ScopeTable.current_eq_of_shape_eq same⟩
  setErrorCode _ := fun _ _ => ⟨rfl, rfl⟩
  declare name word := keepsScopes_updateTable fun declared =>
    have grows := ScopeTable.grows_of_insert declared
    ⟨grows.depth, grows.current⟩
  define name params returns body := by
    intro state _
    unfold after define
    cases defined : state.table.declareFunction name state.routines.length with
    | ok table =>
      have grows := ScopeTable.grows_of_insert defined
      exact ⟨grows.depth, grows.current⟩
    | error error => exact ⟨rfl, rfl⟩
  withScope kept := fun state => keepsScopes_withScopeUnder state.table.current kept state

/-- Calls keep the scopes, if entering a function does. -/
theorem callsRelated_keepsScopes_of_enter {limit : Nat}
    {enter : Routine → List Word → Run (List Word)}
    (entered : ∀ routine words, KeepsScopes .expression (enter routine words) (enter routine words)) :
    CallsRelated KeepsScopes (call limit enter) (call limit enter) := by
  intro callee arity args args' kept state rooted
  rw [after, call_apply]
  split
  · exact ⟨rfl, rfl⟩
  · exact ⟨rfl, rfl⟩
  · split
    · exact ⟨rfl, rfl⟩
    · split
      · exact ⟨rfl, rfl⟩
      · split
        · exact ⟨rfl, rfl⟩
        · exact keepsScopes_bind kept (entered _) state rooted

/-- The calls of a program keep the scopes, however many frames can be opened. -/
theorem callsRelated_keepsScopes (limit frames : Nat) :
    CallsRelated KeepsScopes (call limit (enter RunState.recycle limit frames))
      (call limit (enter RunState.recycle limit frames)) := by
  induction frames with
  | zero => exact callsRelated_keepsScopes_of_enter fun _ _ _ _ => ⟨rfl, rfl⟩
  | succ frames ih =>
    refine callsRelated_keepsScopes_of_enter fun routine words state rooted => ?_
    have inner := keepsScopes_withScopeUnder routine.scope
      (respects_keepsScopes.body ih routine routine.scope words)
      { state with depth := state.depth + 1 } rooted
    unfold after at inner ⊢
    rw [enter, withFrame]
    cases outcome : withScopeUnder RunState.recycle routine.scope
        (body RunState.recycle (call limit (enter RunState.recycle limit frames)) routine words)
        { state with depth := state.depth + 1 } with
    | ok value final | error fault final =>
      rw [outcome] at inner
      exact inner

/-- Calls leave the scopes as they are, whatever their limit is. -/
theorem keepsScopes_calls (limit : Nat) : CallsRelated KeepsScopes (calls limit) (calls limit) :=
  callsRelated_keepsScopes limit limit

/-- A computation that keeps the scopes leaves the current one open. -/
theorem KeepsScopes.live {run run' : Run α} (kept : KeepsScopes part run run')
    {state final : RunState} {value : α} (live : state.table.current < state.table.depth)
    (outcome : run state = .ok value final) : final.table.current < final.table.depth := by
  obtain ⟨depth, current⟩ := kept state (Nat.zero_lt_of_lt live)
  rw [after, outcome, final_ok] at depth current
  rwa [depth, current]

end KeepsScopes

section Steady

/-- A computation is stable and, from each number of open frames, the same as another. -/
def Steady (part : Part) {α : Type} (run run' : Run α) : Prop :=
  Stable part run run' ∧ ∀ depth, SameAt depth part run run'

/-- The walk respects steadiness. -/
theorem respects_steady : Respects RunState.recycle RunState.recycle Steady where
  pure value := ⟨respects_stable.pure value, fun depth => (respects_sameAt depth).pure value⟩
  throw found := ⟨respects_stable.throw found, fun depth => (respects_sameAt depth).throw found⟩
  bind here there := ⟨respects_stable.bind here.1 fun value => (there value).1,
    fun depth => (respects_sameAt depth).bind (here.2 depth) fun value => (there value).2 depth⟩
  widen steady := ⟨respects_stable.widen steady.1, steady.2⟩
  read name := ⟨respects_stable.read name, fun depth => (respects_sameAt depth).read name⟩
  assign name word :=
    ⟨respects_stable.assign name word, fun depth => (respects_sameAt depth).assign name word⟩
  setErrorCode code :=
    ⟨respects_stable.setErrorCode code, fun depth => (respects_sameAt depth).setErrorCode code⟩
  declare name word :=
    ⟨respects_stable.declare name word, fun depth => (respects_sameAt depth).declare name word⟩
  define name params returns body := ⟨respects_stable.define name params returns body,
    fun depth => (respects_sameAt depth).define name params returns body⟩
  withScope steady := ⟨respects_stable.withScope steady.1,
    fun depth => (respects_sameAt depth).withScope (steady.2 depth)⟩

/-- The calls of a program are steady. -/
theorem callsRelated_steady (limit : Nat) : CallsRelated Steady (calls limit) (calls limit) :=
  fun callee arity _ _ steady => ⟨callsRelated_stable limit limit callee arity steady.1,
    fun depth => callsRelated_calls limit depth callee arity (steady.2 depth)⟩

variable {part : Part} {α : Type} {run : Run α}

/-- A steady computation opens no frame that it does not close. -/
theorem Steady.depth_after (steady : Steady part run run) (state : RunState) :
    (run.after state).depth = state.depth :=
  (steady.2 state.depth state rfl).2

/-- A steady computation leads from sound states to sound states. -/
theorem Steady.sound_after (steady : Steady part run run) {state : RunState} (sound : state.Sound) :
    (run.after state).Sound :=
  (steady.1.extends_after sound).1

end Steady

end Run

end ScriptLang

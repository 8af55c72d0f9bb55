import ScriptLang.Proofs.Run.Relation

/-!
# The limit of open frames

The limit is asked about by calls only, and all that it can do is to stop the run: no statement goes
on behind a call that was refused. So two runs of one program with different limits do the same step
by step until the lower limit refuses a call. A run that meets no such refusal is the same under
every higher limit (`Program.execute_of_le`).
-/

namespace ScriptLang

namespace Run

/-- The outcome is the refusal of a call that would open a frame beyond the limit. -/
def Refused {α : Type} (outcome : EStateM.Result Fault RunState α) : Prop :=
  ∃ limit final, outcome = .error (.callDepthExceeded limit) final

/-- From every state the second computation does what the first does, unless a call is refused in
the first. -/
def UpToRefusal (_part : Part) {α : Type} (run run' : Run α) : Prop :=
  ∀ state, Refused (run state) ∨ run' state = run state

/-- Every computation does what it does. -/
theorem upToRefusal_refl {part : Part} {α : Type} (run : Run α) : UpToRefusal part run run :=
  fun _ => .inr rfl

/-- A refusal in the first of two computations is a refusal in both together. -/
theorem upToRefusal_bind {part : Part} {α β : Type} {first first' : Run α}
    {second second' : α → Run β} (here : UpToRefusal part first first')
    (there : ∀ value, UpToRefusal part (second value) (second' value)) :
    UpToRefusal part (first >>= second) (first' >>= second') := by
  intro state
  simp only [Bind.bind, EStateM.bind]
  rcases here state with ⟨limit, final, refused⟩ | same
  · rw [refused]
    exact .inl ⟨limit, final, rfl⟩
  · rw [same]
    cases first state with
    | ok value middle => exact there value middle
    | error fault final => exact .inr rfl

/-- In a scope of their own two computations are the same up to a refusal. -/
theorem upToRefusal_withScopeUnder {part : Part} {α : Type} {leave : Leaving} {run run' : Run α}
    (parent : Nat) (inner : UpToRefusal part run run') :
    UpToRefusal part (withScopeUnder leave parent run) (withScopeUnder leave parent run') := by
  intro state
  simp only [withScopeUnder]
  rcases inner { state with table := state.table.enterUnder parent } with ⟨limit, final, refused⟩ | same
  · rw [refused]
    exact .inl ⟨limit, leave state final, rfl⟩
  · rw [same]
    exact .inr rfl

/-- In a frame of their own two computations are the same up to a refusal. -/
theorem upToRefusal_withFrame {part : Part} {α : Type} {leave : Leaving} {run run' : Run α}
    (parent : Nat) (inner : UpToRefusal part run run') :
    UpToRefusal part (withFrame leave parent run) (withFrame leave parent run') := by
  intro state
  simp only [withFrame]
  rcases upToRefusal_withScopeUnder parent inner { state with depth := state.depth + 1 } with
    ⟨limit, final, refused⟩ | same
  · rw [refused]
    exact .inl ⟨limit, _, rfl⟩
  · rw [same]
    exact .inr rfl

/-- The walk over a program does the same up to a refusal if its calls do. -/
theorem respects_upToRefusal (leave : Leaving) : Respects leave leave UpToRefusal where
  pure _ := upToRefusal_refl _
  throw _ := upToRefusal_refl _
  bind := upToRefusal_bind
  widen same := same
  read _ := upToRefusal_refl _
  assign _ _ := upToRefusal_refl _
  setErrorCode _ := upToRefusal_refl _
  declare _ _ := upToRefusal_refl _
  define _ _ _ _ := upToRefusal_refl _
  withScope inner state := upToRefusal_withScopeUnder state.table.current inner state

variable {leave : Leaving} {limit limit' : Nat}

/-- A call within a lower limit is a call within a higher one, if entering a function is. -/
theorem callsRelated_upToRefusal_of_enter (lower : limit ≤ limit')
    {enter enter' : Routine → List Word → Run (List Word)}
    (entered : ∀ routine words, UpToRefusal .expression (enter routine words) (enter' routine words)) :
    CallsRelated UpToRefusal (call limit enter) (call limit' enter') := by
  intro callee arity args args' related state
  rw [call_apply, call_apply]
  split
  · exact .inr rfl
  · exact .inr rfl
  · split
    · exact .inr rfl
    · rename_i routine _
      split
      · exact .inr rfl
      · by_cases full : limit ≤ state.depth
        · rw [if_pos full]
          exact .inl ⟨limit, state, rfl⟩
        · have below : ¬ limit' ≤ state.depth := by omega
          rw [if_neg full, if_neg below]
          exact upToRefusal_bind related (entered routine) state

/-- Calls that can open fewer frames within a lower limit do what calls that can open more within a
higher limit do. -/
theorem callsRelated_upToRefusal (lower : limit ≤ limit') {frames frames' : Nat}
    (fewer : frames ≤ frames') :
    CallsRelated UpToRefusal (call limit (enter leave limit frames))
      (call limit' (enter leave limit' frames')) := by
  induction frames generalizing frames' with
  | zero =>
    -- the last frame opens none, so that entering a function from it is a refusal
    exact callsRelated_upToRefusal_of_enter lower fun _ _ state => .inl ⟨limit, state, rfl⟩
  | succ frames ih =>
    obtain _ | frames' := frames'
    · omega
    · refine callsRelated_upToRefusal_of_enter lower fun routine words => ?_
      have calls := ih (Nat.le_of_succ_le_succ fewer)
      exact upToRefusal_withFrame routine.scope
        ((respects_upToRefusal leave).body calls routine routine.scope words)

end Run

/-- A run that no call exceeds the limit of ends as it does under every higher limit: in the same
execution or with the same fault. -/
theorem Program.execute_of_le {program : Program} {limit limit' : Nat} (lower : limit ≤ limit')
    (fits : ∀ exceeded, program.execute limit ≠ .error (.callDepthExceeded exceeded)) :
    program.execute limit' = program.execute limit := by
  have calls : Run.CallsRelated Run.UpToRefusal
      (Run.call limit (Run.enter RunState.recycle limit limit))
      (Run.call limit' (Run.enter RunState.recycle limit' limit')) :=
    Run.callsRelated_upToRefusal lower lower
  have related := (Run.respects_upToRefusal RunState.recycle).execAll calls program.body
  unfold execute executeLeaving walk at fits ⊢
  rcases related RunState.new with ⟨exceeded, final, refused⟩ | same
  · rw [refused] at fits
    exact absurd rfl (fits exceeded)
  · rw [same]

/-- A function that divides by zero, another one that calls it, and a call of the second. -/
def Program.callingOn : Program :=
  ⟨[], [
    .func "inner" [] [] [.ret [.binary .div (.number "1" 1) (.number "0" 0)] none],
    .func "outer" [] [] [.ret [.call "inner" []] none],
    .expr (.call "outer" [])]⟩

/-- Two frames are enough for it, and one is not: the fault within the second frame is met under the
limit of two and under every higher one. -/
theorem Program.execute_of_le_callingOn :
    callingOn.execute 1 = .error (.callDepthExceeded 1) ∧
      2 ≤ defaultCallLimit ∧
        (∀ exceeded, callingOn.execute 2 ≠ .error (.callDepthExceeded exceeded)) ∧
          callingOn.execute defaultCallLimit = callingOn.execute 2 := by
  have ends : callingOn.execute 2 = .error .divisionByZero := rfl
  have fits (exceeded : Nat) : callingOn.execute 2 ≠ .error (.callDepthExceeded exceeded) := by
    rw [ends]
    nofun
  have lower : 2 ≤ defaultCallLimit := by decide
  exact ⟨rfl, lower, fits, execute_of_le lower fits⟩

end ScriptLang

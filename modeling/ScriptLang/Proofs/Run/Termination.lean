import Mathlib.Data.Set.Finite.Lattice
import ScriptLang.Proofs.Run.Activity

/-!
# Every run ends

A part of an activity is smaller than the whole, or it is the body of a function and one frame less
can be opened. So activities cannot start one another for ever, and a run goes through finitely many
moments. It ends with an execution or with a fault that programs can bring about, and it never has
more frames open than the limit allows.
-/

namespace ScriptLang

namespace Activity

variable {limit : Nat} {here part whole : Activity} {state state' initial : RunState}

/-- The frames that can still be opened, and then the weight of the activity, get smaller from a
whole to its parts. -/
theorem Leads.decreases (leads : Leads limit here state part state') :
    Prod.Lex (· < ·) (· < ·) (limit - state'.depth, part.weight)
      (limit - state.depth, here.weight) := by
  have depth := leads.depth
  cases plain : part.isFrame with
  | true =>
    have below := leads.below plain
    rw [plain, if_pos rfl] at depth
    exact .left _ _ (by omega)
  | false =>
    rw [plain] at depth
    have same : state'.depth = state.depth := by simpa using depth
    rw [same]
    exact .right _ (leads.smaller plain)

/-- What is under way within a whole is the whole alone, or is under way within one of its parts. -/
theorem Reaches.eq_or_part {stack : List Activity} (reaches : Reaches limit whole initial stack state) :
    (stack = [whole] ∧ state = initial) ∨
      ∃ first ∈ whole.parts limit initial, ∃ inner,
        Reaches limit first.1 first.2 inner state ∧ stack = inner ++ [whole] := by
  induction reaches with
  | whole => exact .inl ⟨rfl, rfl⟩
  | @part here part around state state' _ member ih =>
    right
    rcases ih with ⟨same, rfl⟩ | ⟨first, found, inner, reaches, same⟩
    · obtain ⟨rfl, rfl⟩ := List.cons.inj same
      exact ⟨(part, state'), member, [part], .whole, rfl⟩
    · obtain _ | ⟨innermost, outer⟩ := inner
      · cases reaches
      · obtain ⟨rfl, rfl⟩ := List.cons.inj same
        exact ⟨first, found, part :: here :: outer, .part reaches member, rfl⟩

/-- While an activity runs it goes through finitely many moments. -/
theorem finite_reaches (limit : Nat) (whole : Activity) (initial : RunState) :
    {moment : List Activity × RunState | Reaches limit whole initial moment.1 moment.2}.Finite := by
  have inner (first : Activity × RunState) (member : first ∈ whole.parts limit initial) :=
    finite_reaches limit first.1 first.2
  have parts := (whole.parts limit initial).finite_toSet
  refine ((Set.finite_singleton ([whole], initial)).union (parts.biUnion' fun first member =>
    (inner first member).image fun moment => (moment.1 ++ [whole], moment.2))).subset ?_
  rintro ⟨stack, state⟩ reaches
  rcases Reaches.eq_or_part reaches with ⟨rfl, rfl⟩ | ⟨first, member, within, reaches, rfl⟩
  · exact .inl rfl
  · exact .inr (Set.mem_iUnion₂.2 ⟨first, member, (within, state), reaches, rfl⟩)
termination_by (limit - initial.depth, whole.weight)
decreasing_by exact (leads_of_mem_parts member).decreases

end Activity

namespace Run

/-- The first computation is stable, and from no sound state does it look for a routine that is not
registered. -/
def Found (part : Part) {α : Type} (run run' : Run α) : Prop :=
  Stable part run run' ∧ ∀ ⦃state : RunState⦄, state.Sound →
    ∀ {fault final}, run state = .error fault final → fault.isLost = false

/-- Two steps look for no routine that is not registered if this is so of each step. -/
theorem found_bind {part : Part} {α β : Type} {first first' : Run α} {second second' : α → Run β}
    (here : Found part first first') (there : ∀ value, Found part (second value) (second' value)) :
    Found part (first >>= second) (first' >>= second') := by
  refine ⟨stable_bind here.1 fun value => (there value).1, fun state sound fault final failed => ?_⟩
  have extended := here.1.extends_after sound
  simp only [Bind.bind, EStateM.bind] at failed
  cases outcome : first state with
  | ok value middle =>
    rw [after, outcome] at extended
    rw [outcome] at failed
    exact (there value).2 extended.1 failed
  | error fault' final' =>
    rw [outcome] at failed
    cases failed
    exact here.2 sound outcome

/-- A change of the table stops a run only with an error about a name. -/
theorem isLost_of_updateTable {change : ScopeTable Nat → Except NameError (ScopeTable Nat)}
    {state final : RunState} {fault : Fault}
    (failed : updateTable change state = .error fault final) : fault.isLost = false := by
  unfold updateTable at failed
  split at failed
  · cases failed
  · cases failed
    rfl

/-- What runs in a scope of its own meets the faults that it meets without. -/
theorem error_of_withScopeUnder {leave : Leaving} {parent : Nat} {α : Type} {run : Run α}
    {state final : RunState} {fault : Fault}
    (failed : withScopeUnder leave parent run state = .error fault final) :
    ∃ final', run { state with table := state.table.enterUnder parent } = .error fault final' := by
  unfold withScopeUnder at failed
  split at failed
  · cases failed
  · rename_i fault' final' outcome
    cases failed
    exact ⟨final', outcome⟩

/-- The walk looks for no routine that is not registered, if calls do not. -/
theorem respects_found : Respects RunState.recycle RunState.recycle Found where
  pure value := ⟨respects_stable.pure value, fun _ _ _ _ failed => nomatch failed⟩
  throw found := ⟨respects_stable.throw found, fun _ _ _ _ failed => by cases failed; exact found⟩
  bind := found_bind
  widen found := ⟨stable_widen found.1, found.2⟩
  read name := by
    refine ⟨respects_stable.read name, fun state _ fault final failed => ?_⟩
    unfold read at failed
    split at failed
    · cases failed
    · cases failed
      rfl
  assign name word := ⟨respects_stable.assign name word, fun _ _ _ _ => isLost_of_updateTable⟩
  setErrorCode code := ⟨respects_stable.setErrorCode code, fun _ _ _ _ failed => nomatch failed⟩
  declare name word := ⟨respects_stable.declare name word, fun _ _ _ _ => isLost_of_updateTable⟩
  define name params returns body := by
    refine ⟨respects_stable.define name params returns body, fun state _ fault final failed => ?_⟩
    unfold define at failed
    split at failed
    · cases failed
    · cases failed
      rfl
  withScope found := by
    refine ⟨respects_stable.withScope found.1, fun state sound fault final failed => ?_⟩
    obtain ⟨final', inner⟩ := error_of_withScopeUnder failed
    exact found.2 (sound.enterUnder sound.nested.current_lt) inner

/-- Calls look for no routine that is not registered, if entering a registered one does not. -/
theorem callsRelated_found_of_enter {limit : Nat} {enter : Routine → List Word → Run (List Word)}
    (stable : CallsRelated Stable (call limit enter) (call limit enter))
    (entered : ∀ (routine : Routine) (words : List Word) {state final : RunState} {fault : Fault},
      state.Sound → routine.scope < state.table.depth →
        enter routine words state = .error fault final → fault.isLost = false) :
    CallsRelated Found (call limit enter) (call limit enter) := by
  intro callee arity args _ found
  refine ⟨stable callee arity found.1, fun state sound fault final failed => ?_⟩
  rw [call_apply] at failed
  split at failed
  · cases failed
    rfl
  · cases failed
    rfl
  · rename_i entry meant
    obtain ⟨routine, registered, live⟩ := sound.routine_of_get? meant
    simp only [registered] at failed
    split at failed
    · cases failed
      rfl
    · split at failed
      · cases failed
        rfl
      · have same := found.1 state sound
        simp only [Bind.bind, EStateM.bind] at failed
        cases outcome : args state with
        | error fault' final' =>
          rw [outcome] at failed
          cases failed
          exact found.2 sound outcome
        | ok words middle =>
          rw [outcome] at failed
          rw [after, outcome, final_ok] at same
          have depth := ScopeTable.depth_eq_of_shape_eq (RunState.table_shape_of_shape_eq same)
          exact entered routine words (sound.of_shape_eq same) (by rwa [depth]) failed

/-- Calls look for no routine that is not registered, however many frames can be opened. -/
theorem callsRelated_found (limit frames : Nat) :
    CallsRelated Found (call limit (enter RunState.recycle limit frames))
      (call limit (enter RunState.recycle limit frames)) := by
  induction frames with
  | zero =>
    refine callsRelated_found_of_enter (callsRelated_stable limit 0) fun _ _ _ _ _ _ _ failed => ?_
    cases failed
    rfl
  | succ frames ih =>
    refine callsRelated_found_of_enter (callsRelated_stable limit (frames + 1))
      fun routine words state final fault sound live failed => ?_
    have found := respects_found.body ih routine routine.scope words
    have framed : { state with depth := state.depth + 1 }.Sound :=
      ⟨sound.nested, sound.unique, sound.registered, sound.live⟩
    rw [enter, withFrame] at failed
    split at failed
    · cases failed
    · rename_i fault' final' outcome
      cases failed
      obtain ⟨final'', inner⟩ := error_of_withScopeUnder outcome
      exact found.2 (framed.enterUnder live) inner

end Run

/-- A program runs as the activity of its statements. -/
theorem Program.walk_eq_run (limit : Nat) (program : Program) :
    program.walk RunState.recycle limit = (Activity.stmts program.body).run limit := rfl

/-- Whatever the program and the limit, a run ends with an execution or with a fault, and not because
a routine is missing; it goes through finitely many moments; at each of them the open frames are the
bodies of functions that are under way, and not more than the limit; and below the limit the body of
a function runs with calls that mean what they mean outside of it, so that the end comes from the
program and from the limit alone. -/
theorem Program.execute_ends_within_limit (limit : Nat) (program : Program) :
    ((∃ execution, program.execute limit = .ok execution) ∨
      ∃ fault, program.execute limit = .error fault ∧ fault.isLost = false) ∧
    {moment : List Activity × RunState | program.Reached limit moment.1 moment.2}.Finite ∧
    (∀ stack state, program.Reached limit stack state → state.depth = stack.countP Activity.isFrame) ∧
    (∀ state, program.Visits limit state → state.depth ≤ limit) ∧
    ∀ state : RunState, state.depth < limit → ∀ routine words,
      Run.enter RunState.recycle limit limit routine words state =
        Run.withFrame RunState.recycle routine.scope
          ((Activity.frame routine words).run limit) state := by
  refine ⟨?_, Activity.finite_reaches .., fun _ _ reached => reached.sound_and_depth.2, ?_,
    fun _ below => Run.enter_eq_withFrame below⟩
  · have found := Run.respects_found.execAll (Run.callsRelated_found limit limit) program.body
    unfold execute executeLeaving
    cases outcome : program.walk RunState.recycle limit RunState.new with
    | ok flow final => exact .inl ⟨_, rfl⟩
    | error fault final => exact .inr ⟨fault, rfl, found.2 RunState.sound_new outcome⟩
  · rintro state ⟨activity, around, start, reached, rfl | rfl⟩
    · exact reached.depth_le
    · rw [(activity.steady_run limit).depth_after]
      exact reached.depth_le

end ScriptLang

import ScriptLang.Proofs.Run.Defining
import ScriptLang.Proofs.Scope.Hiding

/-!
# Frames and the locals of the caller

The frame of a call lies within the scope of the definition, not within the scopes of the caller. So
a function cannot tell states apart that differ in the variables of scopes off the way outwards from
its definition, nor can it change them (`Program.Visits.call_hides`). The walk over its body, with
all the functions that it calls, respects this blindness, since every scope that it opens lies within
scopes that are not hidden.
-/

namespace ScriptLang

namespace RunState

/-- Two states are the same but for what the hidden scopes are. -/
structure AgreeOutside (hidden : Nat → Prop) (state twin : RunState) : Prop where
  table : state.table.AgreeOutside hidden twin.table
  routines : twin.routines = state.routines
  errorCode : twin.errorCode = state.errorCode
  depth : twin.depth = state.depth

/-- From two states two others are reached that agree, each with the hidden scopes as they were. -/
structure Beside (hidden : Nat → Prop) (state twin final final' : RunState) : Prop where
  agree : final.AgreeOutside hidden final'
  kept : state.table.KeepsHidden hidden final.table
  kept' : twin.table.KeepsHidden hidden final'.table

variable {hidden : Nat → Prop} {state twin final final' : RunState}

/-- States that agree are beside each other. -/
theorem Beside.refl (agree : state.AgreeOutside hidden twin) : Beside hidden state twin state twin :=
  ⟨agree, .refl _, .refl _⟩

/-- States beside ones that are beside the first are beside the first. -/
theorem Beside.trans {middle middle' : RunState} (first : Beside hidden state twin middle middle')
    (second : Beside hidden middle middle' final final') : Beside hidden state twin final final' :=
  ⟨second.agree, first.kept.trans second.kept, first.kept'.trans second.kept'⟩

/-- A scope that was opened and is closed again leaves the states beside each other. -/
theorem Beside.recycle {parent : Nat} (hides : state.table.Hides hidden)
    (agree : state.AgreeOutside hidden twin) (grown : final.table.depth = state.table.depth + 1)
    (inner : Beside hidden { state with table := state.table.enterUnder parent }
      { twin with table := twin.table.enterUnder parent } final final') :
    Beside hidden state twin (recycle state final) (recycle twin final') := by
  have grown' : final'.table.depth = state.table.depth + 1 := inner.agree.table.depth.trans grown
  have live : ∀ index, hidden index → index < twin.table.depth := fun index off => by
    rw [agree.table.depth]
    exact hides.live off
  refine ⟨⟨?_, ?_, inner.agree.errorCode, inner.agree.depth⟩, ?_, ?_⟩
  · simp only [RunState.recycle, agree.table.current]
    exact inner.agree.table.exit _
  · simp only [RunState.recycle, inner.agree.routines, agree.routines]
  · have opened := state.table.keepsHidden_enterUnder (fun _ => hides.live) parent
    exact (opened.trans inner.kept).trans
      (ScopeTable.keepsHidden_exit (fun index off => by have := hides.live off; omega) _)
  · have opened := twin.table.keepsHidden_enterUnder live parent
    exact (opened.trans inner.kept').trans
      (ScopeTable.keepsHidden_exit (fun index off => by have := hides.live off; omega) _)

end RunState

namespace Run

/-- Two runs have the same outcome: the same result or the same fault, in states that are related. -/
inductive SameOutcome (rel : RunState → RunState → Prop) {α : Type} :
    EStateM.Result Fault RunState α → EStateM.Result Fault RunState α → Prop where
  | ok {value : α} {final final' : RunState} : rel final final' →
      SameOutcome rel (.ok value final) (.ok value final')
  | error {fault : Fault} {final final' : RunState} : rel final final' →
      SameOutcome rel (.error fault final) (.error fault final')

/-- Outcomes are the same up to every relation that follows. -/
theorem SameOutcome.mono {rel rel' : RunState → RunState → Prop} {α : Type}
    {result result' : EStateM.Result Fault RunState α} (same : SameOutcome rel result result')
    (follows : ∀ {final final' : RunState}, rel final final' → rel' final final') :
    SameOutcome rel' result result' := by
  cases same with
  | ok related => exact .ok (follows related)
  | error related => exact .error (follows related)

/-- The first computation is stable, and where the current scope is not hidden the two have the same
outcome from states that agree outside of the hidden scopes. -/
def Blind (hidden : Nat → Prop) (part : Part) {α : Type} (run run' : Run α) : Prop :=
  Stable part run run ∧ ∀ ⦃state twin : RunState⦄, state.Sound → state.table.Hides hidden →
    ¬ hidden state.table.current → state.AgreeOutside hidden twin →
      SameOutcome (RunState.Beside hidden state twin) (run state) (run' twin)

variable {hidden : Nat → Prop} {state twin : RunState}

/-- If the first outcomes are the same and what follows has the same outcome behind them, the whole
has. -/
theorem SameOutcome.bind {part : Part} {α β : Type} {first first' : Run α}
    {second second' : α → Run β} (stable : Stable part first first) (sound : state.Sound)
    (here : SameOutcome (RunState.Beside hidden state twin) (first state) (first' twin))
    (there : ∀ {value : α} {final final' : RunState}, final.Sound → state.Extends final →
      final.AgreeOutside hidden final' →
        SameOutcome (RunState.Beside hidden final final') (second value final) (second' value final')) :
    SameOutcome (RunState.Beside hidden state twin) ((first >>= second) state)
      ((first' >>= second') twin) := by
  have extended := stable.extends_after sound
  simp only [Bind.bind, EStateM.bind]
  rw [after] at extended
  generalize first state = result, first' twin = result' at here extended ⊢
  cases here with
  | error beside => exact .error beside
  | ok beside => exact (there extended.1 extended.2 beside.agree).mono beside.trans

/-- Two steps are blind if the first are and the second are behind every value. -/
theorem blind_bind {part : Part} {α β : Type} {first first' : Run α} {second second' : α → Run β}
    (here : Blind hidden part first first')
    (there : ∀ value, Blind hidden part (second value) (second' value)) :
    Blind hidden part (first >>= second) (first' >>= second') := by
  refine ⟨stable_bind here.1 fun value => (there value).1, fun state twin sound hides seen agree => ?_⟩
  refine (here.2 sound hides seen agree).bind here.1 sound fun sound' extended agree' => ?_
  have seen' := extended.table.current.symm ▸ seen
  exact (there _).2 sound' (hides.of_grows extended.table) seen' agree'

/-- What runs in a scope within one that is not hidden has the same outcome, also where the current
scope is hidden. -/
theorem sameOutcome_withScopeUnder {α : Type} {run run' : Run α}
    (blind : Blind hidden .statements run run') (sound : state.Sound)
    (hides : state.table.Hides hidden) (agree : state.AgreeOutside hidden twin) {parent : Nat}
    (live : parent < state.table.depth) (seen : ¬ hidden parent) :
    SameOutcome (RunState.Beside hidden state twin)
      (withScopeUnder RunState.recycle parent run state)
      (withScopeUnder RunState.recycle parent run' twin) := by
  have opened : { state with table := state.table.enterUnder parent }.AgreeOutside hidden
      { twin with table := twin.table.enterUnder parent } :=
    ⟨agree.table.enterUnder parent, agree.routines, agree.errorCode, agree.depth⟩
  have grown := (blind.1.extends_after (sound.enterUnder live)).2.table.depth
  have inner := blind.2 (sound.enterUnder live) (hides.enterUnder seen) hides.not_hidden_depth opened
  rw [ScopeTable.depth_enterUnder, after] at grown
  unfold withScopeUnder
  generalize run { state with table := state.table.enterUnder parent } = result,
    run' { twin with table := twin.table.enterUnder parent } = result' at inner grown ⊢
  cases inner with
  | ok beside => exact .ok (beside.recycle hides agree grown)
  | error beside => exact .error (beside.recycle hides agree grown)

/-- A change of the table that has the same outcome in both tables is blind. -/
theorem blind_updateTable {part : Part}
    {change : ScopeTable Nat → Except NameError (ScopeTable Nat)}
    (stable : Stable part (updateTable change) (updateTable change))
    (same : ∀ {table twin : ScopeTable Nat}, table.Hides hidden → ¬ hidden table.current →
      table.AgreeOutside hidden twin → table.SameChange hidden twin (change table) (change twin)) :
    Blind hidden part (updateTable change) (updateTable change) := by
  refine ⟨stable, fun state twin sound hides seen agree => ?_⟩
  have outcomes := same hides seen agree.table
  unfold updateTable
  generalize change state.table = result, change twin.table = result' at outcomes ⊢
  cases outcomes with
  | error => exact .error (.refl agree)
  | ok tables kept kept' =>
    exact .ok ⟨⟨tables, agree.routines, agree.errorCode, agree.depth⟩, kept, kept'⟩

/-- A definition registers the same routine in both states. -/
theorem blind_define (name : Name) (params returns : List Name) (body : List Stmt) :
    Blind hidden .statements (define name params returns body) (define name params returns body) := by
  refine ⟨respects_stable.define name params returns body, fun state twin sound hides seen agree => ?_⟩
  have outcomes := agree.table.insert seen name (.func state.routines.length)
  unfold define ScopeTable.declareFunction
  rw [agree.routines]
  generalize state.table.insert name (.func state.routines.length) = result,
    twin.table.insert name (.func state.routines.length) = result' at outcomes ⊢
  cases outcomes with
  | error => exact .error (.refl agree)
  | ok tables kept kept' =>
    refine .ok ⟨⟨tables, ?_, agree.errorCode, agree.depth⟩, kept, kept'⟩
    simp only [tables.current]

/-- The walk respects blindness. -/
theorem respects_blind (hidden : Nat → Prop) :
    Respects RunState.recycle RunState.recycle (Blind hidden) where
  pure value := ⟨respects_stable.pure value, fun _ _ _ _ _ agree => .ok (.refl agree)⟩
  throw found := ⟨respects_stable.throw found, fun _ _ _ _ _ agree => .error (.refl agree)⟩
  bind := blind_bind
  widen blind := ⟨stable_widen blind.1, blind.2⟩
  read name := by
    refine ⟨respects_stable.read name, fun state twin sound hides seen agree => ?_⟩
    unfold read
    rw [agree.table.value hides seen]
    cases state.table.value name with
    | ok word => exact .ok (.refl agree)
    | error error => exact .error (.refl agree)
  assign name word := blind_updateTable (respects_stable.assign name word)
    fun hides seen agree => agree.set hides seen name word
  setErrorCode code := ⟨respects_stable.setErrorCode code, fun _ _ _ _ _ agree =>
    .ok ⟨⟨agree.table, agree.routines, rfl, agree.depth⟩, .refl _, .refl _⟩⟩
  declare name word := blind_updateTable (respects_stable.declare name word)
    fun _ seen agree => agree.insert seen name (.variable word)
  define := blind_define
  withScope blind := by
    refine ⟨respects_stable.withScope blind.1, fun state twin sound hides seen agree => ?_⟩
    unfold withScope
    rw [agree.table.current]
    exact sameOutcome_withScopeUnder blind sound hides agree sound.nested.current_lt seen

/-- Entering a function that was defined in a scope that is not hidden has the same outcome, also
where the current scope is hidden. -/
def EntersBlind (hidden : Nat → Prop) (enter : Routine → List Word → Run (List Word)) : Prop :=
  ∀ (routine : Routine) (words : List Word) ⦃state twin : RunState⦄, state.Sound →
    state.table.Hides hidden → state.AgreeOutside hidden twin → routine.scope < state.table.depth →
      ¬ hidden routine.scope →
        SameOutcome (RunState.Beside hidden state twin) (enter routine words state)
          (enter routine words twin)

section Call

variable {limit : Nat} {enter : Routine → List Word → Run (List Word)}
  (enters : EntersBlind hidden enter)

include enters

/-- A call of a function that was defined in a scope that is not hidden has the same outcome, if its
arguments have. -/
theorem EntersBlind.sameOutcome_call {callee : Name} {arity entry : Nat} {args args' : Run (List Word)}
    {routine : Routine} (sound : state.Sound) (hides : state.table.Hides hidden)
    (agree : state.AgreeOutside hidden twin) (meant : state.table.get? callee = some (.func entry))
    (meant' : twin.table.get? callee = some (.func entry))
    (registered : state.routines[entry]? = some routine) (seen : ¬ hidden routine.scope)
    (stable : Stable .expression args args)
    (alike : SameOutcome (RunState.Beside hidden state twin) (args state) (args' twin)) :
    SameOutcome (RunState.Beside hidden state twin) (call limit enter callee arity args state)
      (call limit enter callee arity args' twin) := by
  have live := sound.live routine (List.mem_of_getElem? registered)
  simp only [call_apply, meant, meant', agree.routines, agree.depth, registered]
  split
  · exact .error (.refl agree)
  · split
    · exact .error (.refl agree)
    · refine alike.bind stable sound fun sound' extended agree' => ?_
      exact enters routine _ sound' (hides.of_grows extended.table) agree'
        (by rwa [extended.table.depth]) seen

/-- Calls are blind, if entering a function is. -/
theorem EntersBlind.callsRelated (stable : CallsRelated Stable (call limit enter) (call limit enter)) :
    CallsRelated (Blind hidden) (call limit enter) (call limit enter) := by
  intro callee arity args args' related
  refine ⟨stable callee arity related.1, fun state twin sound hides seen agree => ?_⟩
  have same := agree.table.get? hides seen callee
  cases meant : state.table.get? callee with
  | none =>
    rw [call_apply, call_apply, same, meant]
    exact .error (.refl agree)
  | some symbol =>
    obtain word | entry := symbol
    · rw [call_apply, call_apply, same, meant]
      exact .error (.refl agree)
    · -- the function was defined on the way outwards, which leads past the hidden scopes
      obtain ⟨⟨index, symbol⟩, located, rfl⟩ := Option.map_eq_some_iff.1 meant
      have resolves := ScopeTable.resolves_of_locateFrom? located
      obtain ⟨scope, present, bound⟩ := resolves.bound
      obtain ⟨routine, registered, rfl⟩ := sound.registered present bound
      exact enters.sameOutcome_call sound hides agree meant (same.trans meant) registered
        (hides.not_hidden_of_outwards resolves.outwards seen) related.1
        (related.2 sound hides seen agree)

end Call

/-- Entering a function is blind, however many frames can be opened. -/
theorem entersBlind (hidden : Nat → Prop) (limit frames : Nat) :
    EntersBlind hidden (enter RunState.recycle limit frames) := by
  induction frames with
  | zero => exact fun _ _ _ _ _ _ agree _ _ => .error (.refl agree)
  | succ frames ih =>
    intro routine words state twin sound hides agree live seen
    have calls := ih.callsRelated (callsRelated_stable limit frames)
    have framed : { state with depth := state.depth + 1 }.Sound :=
      ⟨sound.nested, sound.unique, sound.registered, sound.live⟩
    have agree' : { state with depth := state.depth + 1 }.AgreeOutside hidden
        { twin with depth := twin.depth + 1 } :=
      ⟨agree.table, agree.routines, agree.errorCode, congrArg (· + 1) agree.depth⟩
    have blind := (respects_blind hidden).body calls routine routine.scope words
    have inner := sameOutcome_withScopeUnder blind framed hides agree' live seen
    have closed {final final' : RunState}
        (beside : RunState.Beside hidden { state with depth := state.depth + 1 }
          { twin with depth := twin.depth + 1 } final final') :
        RunState.Beside hidden state twin { final with depth := final.depth - 1 }
          { final' with depth := final'.depth - 1 } :=
      ⟨⟨beside.agree.table, beside.agree.routines, beside.agree.errorCode,
        congrArg (· - 1) beside.agree.depth⟩, beside.kept, beside.kept'⟩
    rw [enter, withFrame, withFrame]
    generalize withScopeUnder RunState.recycle routine.scope _ { state with depth := _ } = result,
      withScopeUnder RunState.recycle routine.scope _ { twin with depth := _ } = result' at inner ⊢
    cases inner with
    | ok beside => exact .ok (closed beside)
    | error beside => exact .error (closed beside)

end Run

/-- Number literals, each as it is written and with its value. -/
def Expr.literals (numbers : List (String × Word)) : List Expr :=
  numbers.map fun (literal, value) => .number literal value

/-- Literals give their values and change nothing. -/
theorem Run.evalAll_literals (call : Caller) (numbers : List (String × Word)) :
    Run.evalAll call (Expr.literals numbers) = pure (numbers.map Prod.snd) := by
  induction numbers with
  | nil => rfl
  | cons number rest ih =>
    change (Run.evalAll call (.number number.1 number.2 :: Expr.literals rest)) = _
    rw [Run.evalAll, Run.eval, ih, pure_bind, pure_bind]
    rfl

namespace RunState

/-- Two states differ in variables that hidden scopes bind, and in nothing else: the hidden scopes lie
within the same scopes and bind the same names to the same functions. -/
structure DifferWithin (hidden : Nat → Prop) (state twin : RunState) : Prop
    extends AgreeOutside hidden state twin where
  parents {index : Nat} : hidden index →
    (twin.table.scopes[index]?).map Scope.parent = (state.table.scopes[index]?).map Scope.parent
  functions {index : Nat} : hidden index → ∀ name,
    twin.table.function? index name = state.table.function? index name

/-- States beside two that differ within the hidden scopes differ within these. -/
theorem Beside.differWithin {hidden : Nat → Prop} {state twin final final' : RunState}
    (beside : Beside hidden state twin final final') (differ : state.DifferWithin hidden twin) :
    final.DifferWithin hidden final' where
  toAgreeOutside := beside.agree
  parents off := by rw [beside.kept off, beside.kept' off, differ.parents off]
  functions off name := by
    have same := differ.functions off name
    unfold ScopeTable.function? at same ⊢
    rw [beside.kept off, beside.kept' off, same]

end RunState

/-- In every state that a run goes through, and for every function that is registered in it: calling
the function with number literals gives the same results or the same fault, and the same error code,
whatever variables are bound in the scopes off the way outwards from its definition, as long as the
name means the function. The call leaves these scopes as they were. -/
theorem Program.Visits.call_hides {program : Program} {limit entry : Nat} {state twin : RunState}
    {routine : Routine} {callee : Name} (visits : program.Visits limit state)
    (registered : state.routines[entry]? = some routine)
    (differ : state.DifferWithin (state.table.Off routine.scope) twin)
    (meant : state.table.get? callee = some (.func entry))
    (meant' : twin.table.get? callee = some (.func entry)) (numbers : List (String × Word)) :
    let call := (Activity.call callee (Expr.literals numbers)).run limit
    Run.SameOutcome (fun final final' => final.DifferWithin (state.table.Off routine.scope) final' ∧
      state.table.KeepsHidden (state.table.Off routine.scope) final.table ∧
      twin.table.KeepsHidden (state.table.Off routine.scope) final'.table) (call state) (call twin) := by
  intro call
  have enters := Run.entersBlind (state.table.Off routine.scope) limit limit
  have stable := Run.respects_stable.evalAll (Run.callsRelated_stable limit limit) (Expr.literals numbers)
  have same : Run.SameOutcome (RunState.Beside (state.table.Off routine.scope) state twin) (call state)
      (call twin) := by
    refine enters.sameOutcome_call visits.sound (state.table.hides_off _) differ.toAgreeOutside meant
      meant' registered (fun off => off.2 .here) stable ?_
    rw [Run.evalAll_literals]
    exact .ok (.refl differ.toAgreeOutside)
  exact same.mono fun beside => ⟨beside.differWithin differ, beside.kept, beside.kept'⟩

/-- A function that reads `x`, and a function with a parameter `x` that calls it. -/
def Program.shadowing : Program :=
  ⟨[], [.assign true ["x"] .set [.number "1" 1], .func "get" [] [] [.ret [.variable "x"] none],
    .func "twice" ["x"] [] [.ret [.call "get" []] none], .expr (.call "twice" [.number "7" 7])]⟩

/-- The state of that program in the frame of `twice`, with the given scope for its locals. -/
def RunState.shadowed (locals : Scope Nat) : RunState :=
  ⟨⟨[⟨none, [("twice", .func 1), ("get", .func 0), ("x", .variable 1)]⟩, locals], 1⟩,
    [⟨[], [], [.ret [.variable "x"] none], 0⟩, ⟨["x"], [], [.ret [.call "get" []] none], 0⟩], none, 1⟩

/-- A call from within a scope that binds `x` gives the `x` of the root, whatever that scope binds
it to. -/
theorem Program.Visits.call_hides_shadowing :
    let state := RunState.shadowed ⟨some 0, [("x", .variable 7)]⟩
    let twin := RunState.shadowed ⟨some 0, [("y", .variable 2), ("x", .variable 8)]⟩
    let call := (Activity.call "get" (Expr.literals [])).run 2
    Program.shadowing.Visits 2 state ∧ state.DifferWithin (state.table.Off 0) twin ∧
      call state = .ok [1] state ∧
      Run.SameOutcome (fun final final' => final.DifferWithin (state.table.Off 0) final' ∧
        state.table.KeepsHidden (state.table.Off 0) final.table ∧
        twin.table.KeepsHidden (state.table.Off 0) final'.table) (call state) (call twin) := by
  intro state twin call
  have visits : Program.shadowing.Visits 2 state := by
    have start : Program.shadowing.Reached 2 [.stmts Program.shadowing.body] RunState.new := .whole
    have rest := Activity.Reaches.part (.part (.part start (.tail _ (.head _))) (.tail _ (.head _)))
      (.tail _ (.head _))
    have caller := Activity.Reaches.part (.part rest (.head _)) (.head _)
    have frame := Activity.Reaches.part caller (.tail _ (.head _))
    exact ⟨_, _, _, .part frame (.tail _ (.tail _ (.head _))), .inl rfl⟩
  have locals (index : Nat) : state.table.Off 0 index ↔ index = 1 := by
    have depth : state.table.depth = 2 := rfl
    constructor
    · rintro ⟨live, away⟩
      have apart : index ≠ 0 := fun root => away (root ▸ .here)
      omega
    · rintro rfl
      exact ⟨by decide, fun leads => absurd (visits.sound.nested.le_of_outwards leads) (by decide)⟩
  have differ : state.DifferWithin (state.table.Off 0) twin := by
    refine ⟨⟨⟨rfl, rfl, fun {index} seen => ?_⟩, rfl, rfl, rfl⟩, fun {index} off => ?_,
      fun {index} off name => ?_⟩
    · rw [locals] at seen
      match index, seen with
      | 0, _ | _ + 2, _ => rfl
    · obtain rfl := (locals index).1 off
      rfl
    · obtain rfl := (locals index).1 off
      change ([("y", .variable 2), ("x", .variable 8)].lookup name).bind Symbol.function? =
        ([("x", .variable 7)].lookup name).bind Symbol.function?
      simp only [List.lookup_cons, List.lookup_nil]
      cases name == "y" <;> cases name == "x" <;> rfl
  exact ⟨visits, differ, rfl, @Program.Visits.call_hides Program.shadowing 2 0 state twin
    ⟨[], [], [.ret [.variable "x"] none], 0⟩ "get" visits rfl differ rfl rfl []⟩

end ScriptLang

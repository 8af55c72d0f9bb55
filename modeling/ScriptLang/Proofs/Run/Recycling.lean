import Mathlib.Logic.Function.Basic
import ScriptLang.Proofs.Run.Stability
import ScriptLang.Proofs.Scope.Renaming

/-!
# Recycling scopes and routines

A program runs with scopes that are closed and routines that are forgotten, so that their indices
are used again. `Program.executeRetaining` is the same run but for the way in which a scope is left:
it only goes back to the scope in front, so that every scope and every routine has an index of its
own for ever. Nobody can tell the two apart.

The retaining run mirrors the recycling one: what is open or registered in the latter stands in the
former under other indices. The renaming changes when a scope is opened and when a function is
defined; it is enough that it stays as it is on what was there before.
-/

namespace ScriptLang

/-- Leaves a scope by going back to the scope in front of it. The scope and its routines stay. -/
def RunState.retain : Leaving := fun outside final =>
  { final with table := { final.table with current := outside.table.current } }

/-- Runs a program with at most the given number of open frames, and uses no index of a scope or of
a routine twice. -/
def Program.executeRetaining (limit : Nat) (program : Program) : Except Fault Execution :=
  program.executeLeaving RunState.retain limit

/-- The routine with the scope of its definition under its other index. -/
def Routine.rename (reindex : Reindexing) (routine : Routine) : Routine :=
  { routine with scope := reindex.scopes routine.scope }

/-- Another renaming is the same on the open scopes and the routines of a state. -/
def Reindexing.Agrees (reindex reindex' : Reindexing) (state : RunState) : Prop :=
  (∀ index < state.table.depth, reindex'.scopes index = reindex.scopes index) ∧
    ∀ entry < state.routines.length, reindex'.entries entry = reindex.entries entry

/-- What agrees on a state and then on one that extends it agrees on the first. -/
theorem Reindexing.Agrees.trans {reindex reindex' reindex'' : Reindexing} {state state' : RunState}
    (first : reindex.Agrees reindex' state) (second : reindex'.Agrees reindex'' state')
    (extended : state.Extends state') : reindex.Agrees reindex'' state := by
  constructor
  · intro index live
    rw [second.1 index (by rwa [extended.table.depth]), first.1 index live]
  · intro entry registered
    obtain ⟨added, routines, -⟩ := extended.routines
    rw [second.2 entry (by rw [routines, List.length_append]; omega), first.2 entry registered]

namespace RunState

/-- A state mirrors another: its table and its routines do, under the same other indices, and the
rest is equal. -/
structure Mirrors (reindex : Reindexing) (state mirror : RunState) : Prop where
  table : ScopeTable.Mirrors reindex state.table mirror.table
  routines {entry : Nat} {routine : Routine} : state.routines[entry]? = some routine →
    mirror.routines[reindex.entries entry]? = some (routine.rename reindex)
  errorCode : mirror.errorCode = state.errorCode
  depth : mirror.depth = state.depth

/-- The state in which a program starts mirrors itself. -/
theorem mirrors_new : Mirrors ⟨id, id⟩ new new where
  table := by
    refine ⟨rfl, fun _ _ same => same, Nat.le_refl _, rfl, fun {index scope} present => ?_⟩
    have root : index = 0 ∧ Scope.empty none = scope := by
      simpa [new, ScopeTable.new, List.getElem?_singleton] using present
    obtain ⟨rfl, rfl⟩ := root
    rfl
  routines present := by simp [new] at present
  errorCode := rfl
  depth := rfl

variable {reindex reindex' : Reindexing} {state mirror : RunState}

/-- What a sound state refers to is there, so a mirror stays one under each renaming that agrees. -/
theorem Mirrors.congr (mirrors : Mirrors reindex state mirror) (sound : state.Sound)
    (agrees : reindex.Agrees reindex' state) : Mirrors reindex' state mirror where
  table := by
    have rooted := Nat.zero_lt_of_lt sound.nested.current_lt
    refine ⟨?_, fun {first second} live live' same => ?_, mirrors.table.depth_le, ?_,
      fun {index scope} present => ?_⟩
    · rw [agrees.1 0 rooted, mirrors.table.root]
    · rw [agrees.1 first live, agrees.1 second live'] at same
      exact mirrors.table.injective live live' same
    · rw [mirrors.table.current, agrees.1 _ sound.nested.current_lt]
    · have live : index < state.table.depth := (List.getElem?_eq_some_iff.1 present).1
      have same : scope.rename reindex' = scope.rename reindex := by
        refine Scope.rename_congr (fun parent within => ?_) fun name entry member => ?_
        · exact agrees.1 parent (Nat.lt_trans (sound.nested.parent_lt present within) live)
        · have bound := Scope.lookup?_of_mem (sound.unique present) member
          obtain ⟨routine, registered, -⟩ := sound.registered present bound
          exact agrees.2 entry (List.getElem?_eq_some_iff.1 registered).1
      rw [agrees.1 index live, same]
      exact mirrors.table.scopes present
  routines {entry routine} present := by
    have registered : entry < state.routines.length := (List.getElem?_eq_some_iff.1 present).1
    have live := sound.live routine (List.mem_of_getElem? present)
    rw [agrees.2 entry registered, mirrors.routines present]
    simp [Routine.rename, agrees.1 _ live]
  errorCode := mirrors.errorCode
  depth := mirrors.depth

/-- Opening a scope gives it an index of its own in each of two mirrors. -/
theorem Mirrors.enterUnder (mirrors : Mirrors reindex state mirror) (sound : state.Sound)
    {parent : Nat} (live : parent < state.table.depth) :
    ∃ reindex', reindex.Agrees reindex' state ∧
      Mirrors reindex' { state with table := state.table.enterUnder parent }
        { mirror with table := mirror.table.enterUnder (reindex.scopes parent) } := by
  let opened : Reindexing :=
    { reindex with scopes := Function.update reindex.scopes state.table.depth mirror.table.depth }
  have older {index : Nat} (live : index < state.table.depth) :
      opened.scopes index = reindex.scopes index :=
    Function.update_of_ne (Nat.ne_of_lt live) _ _
  have newest : opened.scopes state.table.depth = mirror.table.depth :=
    Function.update_self _ _ _
  have agrees : reindex.Agrees opened state := ⟨fun _ => older, fun _ _ => rfl⟩
  have mirrors' := mirrors.congr sound agrees
  have present {index : Nat} (live : index < state.table.depth) :
      opened.scopes index < mirror.table.depth :=
    (List.getElem?_eq_some_iff.1 (mirrors'.table.scopes (List.getElem?_eq_getElem live))).1
  refine ⟨opened, agrees, ⟨mirrors'.table.root, fun {first second} here here' same => ?_, ?_, ?_,
    fun {index scope} found => ?_⟩, mirrors'.routines, mirrors'.errorCode, mirrors'.depth⟩
  · rw [ScopeTable.depth_enterUnder] at here here'
    rcases Nat.lt_succ_iff_lt_or_eq.1 here with here | rfl <;>
      rcases Nat.lt_succ_iff_lt_or_eq.1 here' with here' | rfl
    · exact mirrors'.table.injective here here' same
    · exact absurd (same.trans newest) (Nat.ne_of_lt (present here))
    · exact absurd (same.symm.trans newest) (Nat.ne_of_lt (present here'))
    · rfl
  · simpa using mirrors.table.depth_le
  · simp [newest]
  · rcases ScopeTable.eq_or_newest_of_enterUnder found with found' | ⟨rfl, rfl⟩
    · have live := (List.getElem?_eq_some_iff.1 found').1
      rw [ScopeTable.getElem?_scopes_enterUnder (present live)]
      exact mirrors'.table.scopes found'
    · rw [newest, ScopeTable.getElem?_scopes_enterUnder_newest]
      simp [Scope.rename, Scope.empty, older live]

/-- A scope that is closed on the one side and only left on the other leaves mirrors behind. -/
theorem Mirrors.recycle {final final' : RunState} (mirrors : Mirrors reindex state mirror)
    (sound : state.Sound) (agrees : reindex.Agrees reindex' state)
    (mirrors' : Mirrors reindex' final final') :
    Mirrors reindex' (recycle state final) (retain mirror final') := by
  have shrinks : (final.table.exit state.table.current).depth ≤ final.table.depth := by
    rw [ScopeTable.depth_exit]
    split <;> omega
  have current := mirrors.table.current
  rw [← agrees.1 _ sound.nested.current_lt] at current
  refine ⟨⟨mirrors'.table.root, fun {first second} live live' => ?_,
    Nat.le_trans shrinks mirrors'.table.depth_le, current, fun {index scope} present => ?_⟩,
    fun {entry routine} present => ?_, mirrors'.errorCode, mirrors'.depth⟩
  · exact mirrors'.table.injective (Nat.lt_of_lt_of_le live shrinks)
      (Nat.lt_of_lt_of_le live' shrinks)
  · have open' : final.table.scopes[index]? = some scope := by
      simp only [RunState.recycle, ScopeTable.exit] at present
      split at present
      · rw [List.getElem?_dropLast] at present
        split at present
        · exact present
        · simp at present
      · exact present
    exact mirrors'.table.scopes open'
  · have registered : final.routines[entry]? = some routine := by
      simp only [RunState.recycle, List.getElem?_take] at present
      split at present
      · exact present
      · simp at present
    exact mirrors'.routines registered

end RunState

namespace Run

/-- The outcomes of two runs match: the same result in states that mirror each other under a
renaming that agrees on the state in front, or the same fault. -/
inductive Matches (reindex : Reindexing) (state : RunState) {α : Type} :
    EStateM.Result Fault RunState α → EStateM.Result Fault RunState α → Prop where
  | ok {value : α} {final final' : RunState} {reindex' : Reindexing} :
      reindex.Agrees reindex' state → RunState.Mirrors reindex' final final' →
        Matches reindex state (.ok value final) (.ok value final')
  | error {fault : Fault} {final final' : RunState} :
      Matches reindex state (.error fault final) (.error fault final')

/-- The first computation is stable, and from states that mirror each other the outcomes of the two
match. -/
def Mirrored (part : Part) {α : Type} (run run' : Run α) : Prop :=
  Stable part run run ∧ ∀ ⦃reindex : Reindexing⦄ ⦃state mirror : RunState⦄, state.Sound →
    RunState.Mirrors reindex state mirror → Matches reindex state (run state) (run' mirror)

variable {reindex : Reindexing} {state mirror : RunState}

/-- A result in states that mirror each other matches itself. -/
theorem Matches.refl {α : Type} {value : α} (mirrors : RunState.Mirrors reindex state mirror) :
    Matches reindex state (.ok value state) (.ok value mirror) :=
  .ok ⟨fun _ _ => rfl, fun _ _ => rfl⟩ mirrors

/-- If the first outcomes match and what follows matches behind them, the whole matches. -/
theorem Matches.bind {part : Part} {α β : Type} {first first' : Run α} {second second' : α → Run β}
    (stable : Stable part first first) (sound : state.Sound)
    (here : Matches reindex state (first state) (first' mirror))
    (there : ∀ {value : α} {reindex' : Reindexing} {final final' : RunState},
      first state = .ok value final → final.Sound → state.Extends final →
        reindex.Agrees reindex' state → RunState.Mirrors reindex' final final' →
          Matches reindex' final (second value final) (second' value final')) :
    Matches reindex state ((first >>= second) state) ((first' >>= second') mirror) := by
  have extended := stable.extends_after sound
  simp only [Bind.bind, EStateM.bind]
  rw [after] at extended
  cases outcome : first state with
  | error fault final =>
    rw [outcome] at here
    cases outcome' : first' mirror with
    | error fault' final' =>
      rw [outcome'] at here
      cases here
      exact .error
    | ok value final' =>
      rw [outcome'] at here
      cases here
  | ok value final =>
    rw [outcome] at here extended
    cases outcome' : first' mirror with
    | error fault' final' =>
      rw [outcome'] at here
      cases here
    | ok value' final' =>
      rw [outcome'] at here
      obtain ⟨agrees, mirrors⟩ := here
      have behind := there outcome extended.1 extended.2 agrees mirrors
      -- The two renamings agree on the scopes from before, as the state behind only adds to them.
      dsimp only
      generalize second value final = result, second' value final' = result' at behind ⊢
      cases behind with
      | error => exact .error
      | ok agrees' mirrors' => exact .ok (agrees.trans agrees' extended.2) mirrors'

/-- Two steps are mirrored if the first are and the second are behind every value. -/
theorem mirrored_bind {part : Part} {α β : Type} {first first' : Run α}
    {second second' : α → Run β} (here : Mirrored part first first')
    (there : ∀ value, Mirrored part (second value) (second' value)) :
    Mirrored part (first >>= second) (first' >>= second') := by
  refine ⟨stable_bind here.1 fun value => (there value).1, fun reindex state mirror sound mirrors => ?_⟩
  exact (here.2 sound mirrors).bind here.1 sound fun _ sound' _ _ mirrors' =>
    (there _).2 sound' mirrors'

/-- What runs in a scope within scopes that match has outcomes that match. -/
theorem matches_withScopeUnder {α : Type} {run run' : Run α} (related : Mirrored .statements run run')
    (sound : state.Sound) (mirrors : RunState.Mirrors reindex state mirror) {parent : Nat}
    (live : parent < state.table.depth) :
    Matches reindex state (withScopeUnder RunState.recycle parent run state)
      (withScopeUnder RunState.retain (reindex.scopes parent) run' mirror) := by
  obtain ⟨reindex', agrees, opened⟩ := mirrors.enterUnder sound live
  have inner := related.2 (sound.enterUnder live) opened
  have wider {reindex'' : Reindexing}
      (agrees' : reindex'.Agrees reindex'' { state with table := state.table.enterUnder parent }) :
      reindex.Agrees reindex'' state := by
    refine ⟨fun index older => ?_, fun entry registered => ?_⟩
    · rw [agrees'.1 index (by rw [ScopeTable.depth_enterUnder]; omega), agrees.1 index older]
    · rw [agrees'.2 entry registered, agrees.2 entry registered]
  unfold withScopeUnder
  generalize run { state with table := state.table.enterUnder parent } = result,
    run' { mirror with table := mirror.table.enterUnder (reindex.scopes parent) } = result' at inner ⊢
  cases inner with
  | error => exact .error
  | ok agrees' mirrors' => exact .ok (wider agrees') (mirrors.recycle sound (wider agrees') mirrors')

/-- A change of the table that has the same outcome in a mirror has outcomes that match. -/
theorem mirrored_updateTable {part : Part}
    {change : ScopeTable Nat → Except NameError (ScopeTable Nat)}
    (stable : Stable part (updateTable change) (updateTable change))
    (same : ∀ {reindex : Reindexing} {table mirror : ScopeTable Nat},
      ScopeTable.Mirrors reindex table mirror → table.Nested →
        ScopeTable.SameOutcome reindex (change table) (change mirror)) :
    Mirrored part (updateTable change) (updateTable change) := by
  refine ⟨stable, fun reindex state mirror sound mirrors => ?_⟩
  have outcomes := same mirrors.table sound.nested
  unfold updateTable
  generalize change state.table = result, change mirror.table = result' at outcomes ⊢
  cases outcomes with
  | error => exact .error
  | ok mirrors' =>
    exact .ok ⟨fun _ _ => rfl, fun _ _ => rfl⟩
      ⟨mirrors', mirrors.routines, mirrors.errorCode, mirrors.depth⟩

/-- A routine is registered under an index of its own in each of two mirrors. -/
theorem mirrored_define (name : Name) (params returns : List Name) (body : List Stmt) :
    Mirrored .statements (define name params returns body) (define name params returns body) := by
  refine ⟨respects_stable.define name params returns body,
    fun reindex state mirror sound mirrors => ?_⟩
  let registered : Reindexing :=
    { reindex with
      entries := Function.update reindex.entries state.routines.length mirror.routines.length }
  have older {entry : Nat} (known : entry < state.routines.length) :
      registered.entries entry = reindex.entries entry :=
    Function.update_of_ne (Nat.ne_of_lt known) _ _
  have newest : registered.entries state.routines.length = mirror.routines.length :=
    Function.update_self _ _ _
  have agrees : reindex.Agrees registered state := ⟨fun _ _ => rfl, fun _ => older⟩
  have mirrors' := mirrors.congr sound agrees
  have outcomes := mirrors'.table.insert sound.nested name (.func state.routines.length)
  rw [Symbol.rename, newest] at outcomes
  unfold define ScopeTable.declareFunction
  generalize state.table.insert name (.func state.routines.length) = result,
    mirror.table.insert name (.func mirror.routines.length) = result' at outcomes ⊢
  cases outcomes with
  | error => exact .error
  | @ok table table' tables =>
    refine .ok agrees ⟨tables, fun {entry routine} present => ?_, mirrors.errorCode, mirrors.depth⟩
    by_cases known : entry < state.routines.length
    · rw [List.getElem?_append_left known] at present
      have present' := mirrors'.routines present
      rw [List.getElem?_append_left (List.getElem?_eq_some_iff.1 present').1, present']
    · have bound := (List.getElem?_eq_some_iff.1 present).1
      obtain rfl : entry = state.routines.length := by
        rw [List.length_append, List.length_singleton] at bound
        omega
      obtain rfl : ⟨params, returns, body, table.current⟩ = routine := by simpa using present
      rw [newest, List.getElem?_concat_length, tables.current]
      rfl

/-- The walk respects the matching of outcomes. -/
theorem respects_mirrored : Respects RunState.recycle RunState.retain Mirrored where
  pure value := ⟨respects_stable.pure value, fun _ _ _ _ mirrors => .refl mirrors⟩
  throw found := ⟨respects_stable.throw found, fun _ _ _ _ _ => .error⟩
  bind := mirrored_bind
  widen related := ⟨stable_widen related.1, related.2⟩
  read name := by
    refine ⟨respects_stable.read name, fun reindex state mirror sound mirrors => ?_⟩
    unfold read
    rw [mirrors.table.value sound.nested]
    cases state.table.value name with
    | ok word => exact .refl mirrors
    | error error => exact .error
  assign name word := mirrored_updateTable (respects_stable.assign name word) fun mirrors nested =>
    mirrors.set nested name word
  setErrorCode code := ⟨respects_stable.setErrorCode code, fun _ _ _ _ mirrors =>
    .ok ⟨fun _ _ => rfl, fun _ _ => rfl⟩ ⟨mirrors.table, mirrors.routines, rfl, mirrors.depth⟩⟩
  declare name word := mirrored_updateTable (respects_stable.declare name word)
    fun mirrors nested => mirrors.insert nested name (.variable word)
  define := mirrored_define
  withScope related := by
    refine ⟨respects_stable.withScope related.1, fun reindex state mirror sound mirrors => ?_⟩
    unfold withScope
    rw [mirrors.table.current]
    exact matches_withScopeUnder related sound mirrors sound.nested.current_lt

/-- Entering a function and its mirror has outcomes that match, if the calls in its body do. -/
theorem matches_enter (limit frames : Nat)
    (calls : CallsRelated Mirrored (call limit (enter RunState.recycle limit frames))
      (call limit (enter RunState.retain limit frames)))
    (routine : Routine) (words : List Word) (sound : state.Sound)
    (mirrors : RunState.Mirrors reindex state mirror) (live : routine.scope < state.table.depth) :
    Matches reindex state (enter RunState.recycle limit (frames + 1) routine words state)
      (enter RunState.retain limit (frames + 1) (routine.rename reindex) words mirror) := by
  have framed : { state with depth := state.depth + 1 }.Sound :=
    ⟨sound.nested, sound.unique, sound.registered, sound.live⟩
  have framed' : RunState.Mirrors reindex { state with depth := state.depth + 1 }
      { mirror with depth := mirror.depth + 1 } :=
    ⟨mirrors.table, mirrors.routines, mirrors.errorCode, congrArg (· + 1) mirrors.depth⟩
  have related := respects_mirrored.body calls routine (reindex.scopes routine.scope) words
  have inner := matches_withScopeUnder related framed framed' live
  rw [enter, enter, withFrame, withFrame]
  simp only [Routine.rename]
  generalize withScopeUnder RunState.recycle routine.scope _ _ = result,
    withScopeUnder RunState.retain (reindex.scopes routine.scope) _ _ = result' at inner ⊢
  cases inner with
  | error => exact .error
  | ok agrees mirrors' =>
    exact .ok agrees ⟨mirrors'.table, mirrors'.routines, mirrors'.errorCode,
      congrArg (· - 1) mirrors'.depth⟩

/-- Calls have outcomes that match, if entering a function and its mirror does. -/
theorem callsRelated_mirrored_of_enter {limit : Nat}
    {enter enter' : Routine → List Word → Run (List Word)}
    (stable : CallsRelated Stable (call limit enter) (call limit enter))
    (entered : ∀ (routine : Routine) (words : List Word) {reindex : Reindexing}
      {state mirror : RunState}, state.Sound → RunState.Mirrors reindex state mirror →
        routine.scope < state.table.depth →
          Matches reindex state (enter routine words state)
            (enter' (routine.rename reindex) words mirror)) :
    CallsRelated Mirrored (call limit enter) (call limit enter') := by
  intro callee arity args args' related
  refine ⟨stable callee arity related.1, fun reindex state mirror sound mirrors => ?_⟩
  rw [call_apply, call_apply, mirrors.table.get? sound.nested]
  cases meant : state.table.get? callee with
  | none => exact .error
  | some symbol =>
    obtain word | entry := symbol
    · exact .error
    · obtain ⟨routine, registered, live⟩ := sound.routine_of_get? meant
      have registered' := mirrors.routines registered
      simp only [Option.map_some, Symbol.rename, registered, registered', mirrors.depth]
      by_cases arities : arity = routine.params.length
      · by_cases full : limit ≤ state.depth
        · simp only [Routine.rename, arities, full, ne_eq, not_true_eq_false, if_false, if_true]
          exact .error
        · simp only [Routine.rename, arities, full, ne_eq, not_true_eq_false, if_false]
          refine (related.2 sound mirrors).bind related.1 sound
            fun {words reindex' final final'} _ sound' extended agrees mirrors' => ?_
          -- the renaming at the end of the arguments still agrees on the scope of the routine
          have same : routine.rename reindex = routine.rename reindex' := by
            simp [Routine.rename, agrees.1 routine.scope live]
          have live' : routine.scope < final.table.depth := by
            rwa [extended.table.depth]
          have behind := entered routine words sound' mirrors' live'
          rwa [← same] at behind
      · simp only [Routine.rename, arities, ne_eq, not_false_eq_true, if_true]
        exact .error

/-- Calls have outcomes that match, however many frames can be opened. -/
theorem callsRelated_mirrored (limit frames : Nat) :
    CallsRelated Mirrored (call limit (enter RunState.recycle limit frames))
      (call limit (enter RunState.retain limit frames)) := by
  induction frames with
  | zero =>
    exact callsRelated_mirrored_of_enter (callsRelated_stable limit 0) fun _ _ _ _ _ _ _ _ => .error
  | succ frames ih =>
    exact callsRelated_mirrored_of_enter (callsRelated_stable limit (frames + 1))
      fun routine words => matches_enter limit frames ih routine words

end Run

/-- Every program gives the same variables, results and error code, or the same fault, whether the
indices of scopes and routines are used again or not. -/
theorem Program.execute_eq_executeRetaining (limit : Nat) (program : Program) :
    program.execute limit = program.executeRetaining limit := by
  have calls := Run.callsRelated_mirrored limit limit
  have related := Run.respects_mirrored.execAll calls program.body
  have stable := related.1.extends_after RunState.sound_new
  have outcomes := related.2 RunState.sound_new RunState.mirrors_new
  unfold execute executeRetaining executeLeaving walk
  rw [Run.after] at stable
  generalize Run.execAll RunState.recycle _ program.body RunState.new = result,
    Run.execAll RunState.retain _ program.body RunState.new = result' at stable outcomes ⊢
  cases outcomes with
  | error => rfl
  | ok agrees mirrors =>
    have nested := stable.1.nested
    rw [Run.final_ok] at nested
    simp only [mirrors.table.rootVariables nested, mirrors.errorCode]

end ScriptLang

import ScriptLang.Proofs.Run.Defining
import ScriptLang.Proofs.Run.Termination
import ScriptLang.Proofs.Scope.Outwards

/-!
# Scopes and the registry

Scopes refer to functions by their entry in the registry, and routines refer to scopes by their
index. The two stand together in every state that a run goes through (`Program.Represents`): what a
scope binds to a function was bound and registered by one definition, behind which the run still is,
and the registry stands in the order of the scopes. So nothing that is done by index goes beyond what
is there (`RunState.InBounds`).
-/

namespace ScriptLang

open Activity (stmt stmts functions_of_mem_parts)

section Definitions

variable (program : Program) (limit : Nat)

/-- The states that an activity goes through that starts in the given state: those in which its
activities start or end. -/
def Activity.Visits (whole : Activity) (initial state : RunState) : Prop :=
  ∃ activity around start, Activity.Reaches limit whole initial (activity :: around) start ∧
    (state = start ∨ state = (activity.run limit).after start)

/-- A statement is under way from the first state and leads to the second, and the run has not gone
on from there but within the statements behind it. -/
def Activity.Behind (tree : Stmt) (outer : List Activity) (after state : RunState) : Prop :=
  state = after ∨
    ∃ rest around, outer = stmts (tree :: rest) :: around ∧ (stmts rest).Visits limit after state

/-- One definition, which was met in the scope with the index, bound the name in that scope and
registered the routine under the entry, and the run has not gone on from there but within the
statements behind it. -/
def Program.Defines (index : Nat) (name : Name) (entry : Nat) (routine : Routine)
    (state : RunState) : Prop :=
  let tree : Stmt := .func name routine.params routine.returns routine.body
  ∃ outer before after, program.Reached limit (stmt tree :: outer) before ∧
    before.table.current = index ∧ before.routines.length = entry ∧
    Run.define name routine.params routine.returns routine.body before = .ok () after ∧
    Activity.Behind limit tree outer after state

/-- How scopes and registry represent the functions of a program that runs. -/
structure Program.Represents (state : RunState) : Prop where
  newest : state.table.current + 1 = state.table.depth
  defined {index entry : Nat} {scope : Scope Nat} {name : Name} :
    state.table.scopes[index]? = some scope → scope.lookup? name = some (.func entry) →
      ∃ routine, state.routines[entry]? = some routine ∧ routine.scope = index ∧
        program.Defines limit index name entry routine state
  ordered : state.routines.Pairwise fun older newer => older.scope ≤ newer.scope
  live : ∀ routine ∈ state.routines, routine.scope < state.table.depth

/-- What is done by index in the state: the way outwards from the current scope, the entry of a
function that is called, the scope around its frame, and the words for the targets of an assignment
are all there. -/
structure RunState.InBounds (state : RunState) : Prop where
  rooted : 0 < state.table.depth
  outwards {index : Nat} : Outwards state.table.scopes state.table.current index →
    index < state.table.depth
  entry {callee : Name} {entry : Nat} : state.table.get? callee = some (.func entry) →
    entry < state.routines.length
  around {callee : Name} {args : List Expr} {routine : Routine} {words : List Word}
    {start : RunState} : (.frame routine words, start) ∈ (Activity.call callee args).parts limit state →
      ∃ middle : RunState, start = middle.framed routine.scope ∧ routine.scope < middle.table.depth
  targets {declares : Bool} {targets : List Name} {op : AssignOp} {values : List Expr}
    {pairs : List (Name × Word)} {start : RunState} :
    (.store declares op pairs, start) ∈ (stmt (.assign declares targets op values)).parts limit state →
      pairs.map Prod.fst = targets
  found (activity : Activity) {fault : Fault} {final : RunState} :
    activity.run limit state = .error fault final → fault.isLost = false

end Definitions

section Start

variable {program : Program} {limit : Nat} {state state' : RunState}

/-- What a definition does: it binds the name in the current scope and registers its routine. -/
theorem Run.define_eq_ok {name : Name} {params returns : List Name} {body : List Stmt}
    (sound : state.Sound) (defined : Run.define name params returns body state = .ok () state') :
    state'.routines = state.routines ++ [⟨params, returns, body, state.table.current⟩] ∧
      ∀ index other, state'.table.function? index other =
        if index = state.table.current ∧ other = name then some state.routines.length
        else state.table.function? index other := by
  unfold Run.define at defined
  split at defined
  · rename_i table inserted
    cases defined
    have grows := ScopeTable.grows_of_insert inserted
    exact ⟨by rw [grows.current],
      ScopeTable.function?_of_insert sound.nested.current_lt inserted⟩
  · cases defined

/-- The same for an activity that starts in the state: the statements behind the definition are under
way, and the activity is one of those that they consist of. -/
def Program.DefinesAround (program : Program) (limit index : Nat) (name : Name) (entry : Nat)
    (routine : Routine) (here : Activity) (state : RunState) : Prop :=
  let tree : Stmt := .func name routine.params routine.returns routine.body
  ∃ rest around before after inner,
    program.Reached limit (stmt tree :: stmts (tree :: rest) :: around) before ∧
    before.table.current = index ∧ before.routines.length = entry ∧
    Run.define name routine.params routine.returns routine.body before = .ok () after ∧
    Activity.Reaches limit (stmts rest) after (here :: inner) state

/-- A state in which an activity starts or ends that is under way behind a definition is behind that
definition. -/
theorem Program.DefinesAround.defines {index entry : Nat} {name : Name} {routine : Routine}
    {here : Activity} (around : program.DefinesAround limit index name entry routine here state)
    (visited : state' = state ∨ state' = (here.run limit).after state) :
    program.Defines limit index name entry routine state' := by
  obtain ⟨rest, outer, before, after, inner, reached, current, length, defined, reaches⟩ := around
  exact ⟨_, before, after, reached, current, length, defined,
    .inr ⟨rest, outer, rfl, here, inner, state, reaches, visited⟩⟩

/-- What an activity consists of is under way behind the definitions that the whole is behind. -/
theorem Program.DefinesAround.part {index entry : Nat} {name : Name} {routine : Routine}
    {here part : Activity} (around : program.DefinesAround limit index name entry routine here state)
    (member : (part, state') ∈ here.parts limit state) :
    program.DefinesAround limit index name entry routine part state' := by
  obtain ⟨rest, outer, before, after, inner, reached, current, length, defined, reaches⟩ := around
  exact ⟨rest, outer, before, after, _, reached, current, length, defined, .part reaches member⟩

/-- When an activity starts, each function that is bound is registered for the scope that binds it,
and the activity is under way behind its definition. -/
theorem Program.definesAround_of_reached : ∀ {here : Activity} {around : List Activity}
    {state : RunState}, program.Reached limit (here :: around) state → ∀ {index entry : Nat}
    {name : Name}, state.table.function? index name = some entry → ∃ routine,
      state.routines[entry]? = some routine ∧ routine.scope = index ∧
        program.DefinesAround limit index name entry routine here state
  | _, _, _, .whole, index, entry, name, bound => by
      obtain ⟨scope, present, bound⟩ := ScopeTable.function?_eq_some_iff.1 bound
      obtain ⟨routine, registered, -⟩ := RunState.sound_new.registered present bound
      simp [RunState.new] at registered
  | part, _, state', @Activity.Reaches.part _ _ _ here _ _ state _ reached member, index, entry, name, bound => by
      have sound := (Program.Reached.sound_and_depth reached).1
      have older (old : state.table.function? index name = some entry) :=
        Program.definesAround_of_reached reached old
      rcases functions_of_mem_parts sound member with same | ⟨defining, params, returns, body, rest,
        rfl, rfl, defined⟩
      · rw [same.bound] at bound
        obtain ⟨routine, registered, scope, around⟩ := older bound
        exact ⟨routine, by rw [same.routines, registered], scope, around.part member⟩
      · obtain ⟨routines, functions⟩ := Run.define_eq_ok sound defined
        rw [functions] at bound
        split at bound
        · rename_i new
          obtain ⟨rfl, rfl⟩ := new
          obtain rfl := Option.some.inj bound
          have first : (stmt (.func name params returns body), state) ∈
              (stmts (.func name params returns body :: rest)).parts limit state := .head _
          exact ⟨⟨params, returns, body, state.table.current⟩,
            by rw [routines, List.getElem?_concat_length], rfl, rest, _, state, state', _,
            .part reached first, rfl, rfl, defined, .whole⟩
        · obtain ⟨routine, registered, scope, around⟩ := older bound
          refine ⟨routine, ?_, scope, around.part member⟩
          rw [routines, List.getElem?_append_left (List.getElem?_eq_some_iff.1 registered).1, registered]

end Start

section End

variable {program : Program} {limit : Nat} {state state' : RunState} {around : List Activity}

/-- Each function that is bound is registered for the scope that binds it, by a definition that the
run is still behind. -/
def Program.AllDefined (program : Program) (limit : Nat) (state : RunState) : Prop :=
  ∀ ⦃index entry : Nat⦄ ⦃name : Name⦄, state.table.function? index name = some entry → ∃ routine,
    state.routines[entry]? = some routine ∧ routine.scope = index ∧
      program.Defines limit index name entry routine state

/-- Wherever a run of the program arrives, all functions that are bound are defined. -/
theorem Program.allDefined_of_reached {here : Activity}
    (reached : program.Reached limit (here :: around) state) : program.AllDefined limit state := by
  intro index entry name bound
  obtain ⟨routine, registered, scope, around⟩ := Program.definesAround_of_reached reached bound
  exact ⟨routine, registered, scope, around.defines (.inl rfl)⟩

/-- An activity that defines no function ends behind the definitions that it starts behind. -/
theorem Program.allDefined_of_sameFunctions {here : Activity}
    (reached : program.Reached limit (here :: around) state)
    (same : state.SameFunctions ((here.run limit).after state)) :
    program.AllDefined limit ((here.run limit).after state) := by
  intro index entry name bound
  rw [same.bound] at bound
  obtain ⟨routine, registered, scope, around⟩ := Program.definesAround_of_reached reached bound
  exact ⟨routine, by rw [same.routines, registered], scope, around.defines (.inr rfl)⟩

/-- A statement ends behind the definitions of all functions, itself among them if it is one. -/
theorem Program.allDefined_after_stmt {tree : Stmt}
    (reached : program.Reached limit (stmt tree :: around) state) :
    program.AllDefined limit (((stmt tree).run limit).after state) := by
  have sound := reached.sound_and_depth.1
  by_cases defines : ∃ name params returns body, tree = .func name params returns body
  · obtain ⟨defining, params, returns, body, rfl⟩ := defines
    cases defined : Run.define defining params returns body state with
    | error fault final =>
      obtain rfl : final = state := by
        unfold Run.define at defined
        split at defined <;> cases defined
        rfl
      apply Program.allDefined_of_sameFunctions reached
      simp only [Run.after, Activity.run, Run.exec, Bind.bind, EStateM.bind, defined]
      exact .refl final
    | ok value final =>
      have ends : ((stmt (.func defining params returns body)).run limit).after state = final := by
        simp only [Run.after, Activity.run, Run.exec, Bind.bind, EStateM.bind, defined]
        rfl
      obtain ⟨routines, functions⟩ := Run.define_eq_ok sound defined
      intro index entry name bound
      have old := functions index name
      -- The binding is the new one, or it stood before.
      rw [ends] at bound ⊢
      rw [bound] at old
      split at old
      · rename_i new
        obtain ⟨rfl, rfl⟩ := new
        obtain rfl := Option.some.inj old
        exact ⟨⟨params, returns, body, state.table.current⟩,
          by rw [routines, List.getElem?_concat_length], rfl, around, state, final, reached, rfl, rfl,
          defined, .inl rfl⟩
      · obtain ⟨routine, registered, scope, around⟩ :=
          Program.definesAround_of_reached reached old.symm
        refine ⟨routine, ?_, scope, around.defines (.inr ends.symm)⟩
        rw [routines, List.getElem?_append_left (List.getElem?_eq_some_iff.1 registered).1, registered]
  · have nothing := Run.definesNothing_exec (Run.callsRelated_stable limit limit)
      fun name params returns body same => defines ⟨name, params, returns, body, same⟩
    exact Program.allDefined_of_sameFunctions reached (nothing.2 state sound)

/-- Statements end where the last of them ends that is met. -/
theorem Program.allDefined_after_stmts {trees : List Stmt}
    (reached : program.Reached limit (stmts trees :: around) state) :
    program.AllDefined limit (((stmts trees).run limit).after state) := by
  induction trees generalizing around state with
  | nil => exact Program.allDefined_of_sameFunctions reached (.refl state)
  | cons tree rest ih =>
    have first := Program.allDefined_after_stmt (.part reached (.head _))
    have behind (middle : RunState)
        (outcome : Run.exec RunState.recycle (Run.calls limit) tree state = .ok .next middle) :
        program.AllDefined limit (((stmts rest).run limit).after middle) :=
      ih (.part reached (.tail _ (Run.mem_behind.2 ⟨_, middle, outcome, by simp⟩)))
    simp only [Run.after, Activity.run, Run.execAll, Bind.bind, EStateM.bind] at first behind ⊢
    cases outcome : Run.exec RunState.recycle (Run.calls limit) tree state with
    | error fault final => rwa [outcome] at first
    | ok flow middle =>
      rw [outcome] at first
      cases flow with
      | returned values => exact first
      | next => exact behind middle outcome

/-- Reading variables changes nothing. -/
theorem Run.after_mapM_read (names : List Name) (state : RunState) :
    (names.mapM Run.read : Run (List Word)).after state = state := by
  induction names with
  | nil => rfl
  | cons name rest ih =>
    rw [List.mapM_cons]
    unfold Run.after at ih ⊢
    simp only [Bind.bind, EStateM.bind, Run.read]
    cases state.table.value name with
    | error error => rfl
    | ok word =>
      dsimp only
      generalize (rest.mapM Run.read : Run (List Word)) state = result at ih ⊢
      cases result <;> exact ih

/-- The body of a function ends where its statements end, if its parameters and results could be
declared. -/
theorem Program.allDefined_after_frame {routine : Routine} {words : List Word}
    (reached : program.Reached limit (.frame routine words :: around) state) :
    program.AllDefined limit (((Activity.frame routine words).run limit).after state) := by
  have sound := reached.sound_and_depth.1
  have params := Run.definesNothing_storeAll true .set (routine.params.zip words)
  have returns := Run.definesNothing_storeAll true .set (routine.returns.map fun result => (result, 0))
  have declared := (params.bind fun _ => returns).2 state sound
  cases first : Run.storeAll true .set (routine.params.zip words) state with
  | error fault final =>
    apply Program.allDefined_of_sameFunctions reached
    simp only [Run.after, Activity.run, Run.body, Bind.bind, EStateM.bind, first] at declared ⊢
    exact declared
  | ok _ middle =>
    cases second : Run.storeAll true .set (routine.returns.map fun result => (result, 0)) middle with
    | error fault final =>
      apply Program.allDefined_of_sameFunctions reached
      simp only [Run.after, Activity.run, Run.body, Bind.bind, EStateM.bind, first, second]
        at declared ⊢
      exact declared
    | ok _ inner =>
      have last : (stmts routine.body, inner) ∈
          (Activity.frame routine words).parts limit state :=
        .tail _ (Run.mem_behind.2 ⟨_, middle, first,
          .tail _ (Run.mem_behind.2 ⟨_, inner, second, .head _⟩)⟩)
      have ends := Program.allDefined_after_stmts (.part reached last)
      have same : ((Activity.frame routine words).run limit).after state =
          ((stmts routine.body).run limit).after inner := by
        simp only [Run.after, Activity.run, Run.body, Bind.bind, EStateM.bind, first, second]
        cases Run.execAll RunState.recycle (Run.calls limit) routine.body inner with
        | error fault final => rfl
        | ok flow final =>
          cases flow with
          | returned values => rfl
          | next => exact Run.after_mapM_read routine.returns final
      rwa [same]

/-- When an activity ends, with a result or a fault, the run is behind the definitions of all
functions that are bound. -/
theorem Program.allDefined_after {here : Activity}
    (reached : program.Reached limit (here :: around) state) :
    program.AllDefined limit ((here.run limit).after state) := by
  have sound := reached.sound_and_depth.1
  have respects := Run.respects_stable
  have calls := Run.callsRelated_stable limit limit
  have kept (stable : Run.Stable .expression (here.run limit) (here.run limit)) :=
    Program.allDefined_of_sameFunctions reached (stable.definesNothing.2 state sound)
  cases here with
  | expr tree => exact kept (respects.eval calls tree)
  | exprs trees => exact kept (respects.evalAll calls trees)
  | call callee args => exact kept (calls callee args.length (respects.evalAll calls args))
  | arm tree => exact kept (respects.exec_arm calls tree)
  | frame routine words => exact Program.allDefined_after_frame reached
  | store declares op pairs =>
    exact Program.allDefined_of_sameFunctions reached
      ((Run.definesNothing_storeAll declares op pairs).2 state sound)
  | stmt tree => exact Program.allDefined_after_stmt reached
  | stmts trees => exact Program.allDefined_after_stmts reached

end End

section Order

variable {program : Program} {limit : Nat} {state state' : RunState}

/-- Routines that are registered for the current scope stand behind all others. -/
theorem RunState.Sound.ordered_append (sound : state.Sound) {added : List Routine}
    (ordered : state.routines.Pairwise fun older newer => older.scope ≤ newer.scope)
    (here : ∀ routine ∈ added, routine.scope = state.table.current) :
    (state.routines ++ added).Pairwise fun older newer => older.scope ≤ newer.scope := by
  refine List.pairwise_append.2 ⟨ordered, ?_, fun older registered newer new => ?_⟩
  · refine List.pairwise_of_forall_mem_list fun first new second new' => ?_
    rw [here first new, here second new']
  · have live := sound.live older registered
    have newest := sound.nested.current_newest
    rw [here newer new]
    omega

/-- When an activity starts, the registry stands in the order of the scopes. -/
theorem Program.Reached.ordered {stack : List Activity} (reached : program.Reached limit stack state) :
    state.routines.Pairwise fun older newer => older.scope ≤ newer.scope := by
  induction reached with
  | whole => exact .nil
  | part reached member ih =>
    have sound := (Program.Reached.sound_and_depth reached).1
    rcases functions_of_mem_parts sound member with same | ⟨_, params, returns, body, rest, rfl, rfl,
      defined⟩
    · rwa [same.routines]
    · rw [(Run.define_eq_ok sound defined).1]
      exact sound.ordered_append ih (by simp)

/-- In every state that a run goes through, the registry stands in the order of the scopes. -/
theorem Program.Visits.ordered (visits : program.Visits limit state) :
    state.routines.Pairwise fun older newer => older.scope ≤ newer.scope := by
  obtain ⟨activity, around, start, reached, rfl | rfl⟩ := visits
  · exact reached.ordered
  · have sound := reached.sound_and_depth.1
    obtain ⟨added, routines, here⟩ := ((activity.steady_run limit).1.extends_after sound).2.routines
    rw [routines]
    exact sound.ordered_append reached.ordered here

end Order

section Bounds

variable {limit : Nat} {state : RunState}

/-- The body of a function starts in a frame within a scope that is open behind the arguments. -/
theorem Activity.live_of_mem_parts_call {callee : Name} {args : List Expr} {routine : Routine}
    {words : List Word} {start : RunState} (sound : state.Sound)
    (member : (.frame routine words, start) ∈ (call callee args).parts limit state) :
    ∃ middle : RunState, start = middle.framed routine.scope ∧
      routine.scope < middle.table.depth := by
  have stable := Run.respects_stable.evalAll (Run.callsRelated_stable limit limit) args
  obtain ⟨called, found, outcome, inner⟩ := Run.mem_behind.1 member
  obtain ⟨rfl, registered⟩ := routine_eq_ok outcome
  split at inner
  · obtain ⟨words', middle, outcome', last⟩ := Run.mem_behind.1 (by simpa using inner)
    obtain ⟨⟨rfl, rfl⟩, rfl⟩ := by simpa using last
    have same : ((Run.evalAll (Run.calls limit) args).after found).shape = found.shape :=
      stable found sound
    rw [Run.after, outcome', Run.final_ok] at same
    refine ⟨middle, rfl, ?_⟩
    rw [ScopeTable.depth_eq_of_shape_eq (RunState.table_shape_of_shape_eq same)]
    exact sound.live _ registered
  · simp at inner

/-- Each target of an assignment gets a word. -/
theorem Activity.targets_of_mem_parts_assign {declares : Bool} {targets : List Name} {op : AssignOp}
    {values : List Expr} {pairs : List (Name × Word)} {start : RunState}
    (member : (.store declares op pairs, start) ∈
      (stmt (.assign declares targets op values)).parts limit state) :
    pairs.map Prod.fst = targets := by
  have unlike : ofValues values ≠ .store declares op pairs := by
    unfold ofValues
    split <;> nofun
  simp only [parts] at member
  split at member
  · simp at member
  · rcases List.mem_cons.1 member with first | second
    · exact absurd (Prod.mk.inj first).1.symm unlike
    · obtain ⟨words, middle, -, last⟩ := Run.mem_behind.1 second
      split at last
      · simp at last
      · rename_i enough
        obtain ⟨rfl, -⟩ := by simpa using last
        unfold Run.pair
        split
        · simp [Function.comp_def]
        · rename_i several
          have single : words.length ≠ 1 := fun one => by
            obtain ⟨word, rfl⟩ := List.length_eq_one_iff.1 one
            exact several word rfl
          rw [List.map_fst_zip]
          omega

/-- No activity loses a routine that a function symbol refers to. -/
theorem Activity.found_run (limit : Nat) (activity : Activity) :
    Run.Found .statements (activity.run limit) (activity.run limit) := by
  have respects := Run.respects_found
  have calls := Run.callsRelated_found limit limit
  cases activity with
  | expr tree => exact respects.widen (respects.eval calls tree)
  | exprs trees => exact respects.widen (respects.evalAll calls trees)
  | call callee args =>
    exact respects.widen (calls callee args.length (respects.evalAll calls args))
  | frame routine words => exact respects.body calls routine routine.scope words
  | store declares op pairs => exact respects.storeAll declares op pairs
  | stmt tree => exact respects.exec calls tree
  | arm tree => exact respects.withArmScope tree (respects.exec calls tree)
  | stmts trees => exact respects.execAll calls trees

/-- In a sound state nothing that is done by index goes beyond what is there. -/
theorem RunState.Sound.inBounds (sound : state.Sound) : state.InBounds limit where
  rooted := Nat.zero_lt_of_lt sound.nested.current_lt
  outwards leads := Nat.lt_of_le_of_lt (sound.nested.le_of_outwards leads) sound.nested.current_lt
  entry meant := by
    obtain ⟨routine, registered, -⟩ := sound.routine_of_get? meant
    exact (List.getElem?_eq_some_iff.1 registered).1
  around := Activity.live_of_mem_parts_call sound
  targets := Activity.targets_of_mem_parts_assign
  found activity _ _ failed := (activity.found_run limit).2 sound failed

end Bounds

/-- In every state that a run goes through, scopes and registry represent the functions of the
program, and nothing that is done by index goes beyond what is there. -/
theorem Program.Visits.represents {program : Program} {limit : Nat} {state : RunState}
    (visits : program.Visits limit state) :
    program.Represents limit state ∧ state.InBounds limit := by
  have sound := visits.sound
  have defined : program.AllDefined limit state := by
    obtain ⟨activity, around, start, reached, rfl | rfl⟩ := visits
    · exact Program.allDefined_of_reached reached
    · exact Program.allDefined_after reached
  refine ⟨⟨sound.nested.current_newest, fun present bound => ?_, visits.ordered, sound.live⟩,
    sound.inBounds⟩
  exact defined (ScopeTable.function?_eq_some_iff.2 ⟨_, present, bound⟩)

/-- A function within which another one is defined, and a call of it. -/
def Program.nesting : Program :=
  ⟨[], [.func "outer" [] [] [.func "inner" [] [] [], .ret [.number "1" 1] none],
    .expr (.call "outer" [])]⟩

/-- Behind the inner definition both functions are bound and registered. -/
theorem Program.Visits.represents_nesting :
    let inner : RunState :=
      ⟨⟨[⟨none, [("outer", .func 0)]⟩, ⟨some 0, [("inner", .func 1)]⟩], 1⟩,
        [⟨[], [], [.func "inner" [] [] [], .ret [.number "1" 1] none], 0⟩, ⟨[], [], [], 1⟩], none, 1⟩
    Program.nesting.Visits 1 inner ∧ Program.nesting.Represents 1 inner ∧ inner.InBounds 1 := by
  intro inner
  have visits : Program.nesting.Visits 1 inner := by
    have start : Program.nesting.Reached 1 [stmts Program.nesting.body] RunState.new := .whole
    have rest := Activity.Reaches.part start (.tail _ (.head _))
    have call := Activity.Reaches.part (.part rest (.head _)) (.head _)
    have frame := Activity.Reaches.part call (.tail _ (.head _))
    have body := Activity.Reaches.part frame (.tail _ (.tail _ (.head _)))
    exact ⟨_, _, _, .part body (.tail _ (.head _)), .inl rfl⟩
  exact ⟨visits, visits.represents⟩

end ScriptLang

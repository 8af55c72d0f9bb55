import ScriptLang.Proofs.Run.Charting

/-!
# What a name leads to in a run and in print

When a function is printed, its body is printed where it is defined. When it is called, its body runs
in the scope of the definition as it is at the time of the call, and this scope may bind names by then
that were declared behind the function. So a name in a body need not lead to the declaration that it
was printed for: it leads there or to a declaration behind a function around it, in the same list of
statements (`Program.LateAt`). Outside of all functions it always leads to the declaration that it
was printed for.

The invariant of a run is that the chart of each activity follows the chart with which its statement
is printed, but for late declarations, and that the scope of each function follows the chart behind
the declaration of the function.
-/

namespace ScriptLang

open Chart (Follows AgreeBelow)
open ScopeTable (Adds)

section Invariant

variable (program : Program) (dialect : Dialect)

/-- From the current scope outwards a run has the declarations with which the statement at the place
is printed, and besides these only late ones. -/
def Program.FollowsAt (place : Place) (run : Chart) : Prop :=
  ∃ printed, program.Charted dialect place printed ∧
    Follows (program.LateAt dialect place) printed run printed.table.current run.table.current

/-- From the scope with the index outwards a run has the declarations that the function at the place
is printed behind, and besides these only late ones. -/
def Program.FunctionFollows (place : Place) (name : Name) (routine : Routine) (run : Chart)
    (index : Nat) : Prop :=
  program.at? place = some (.func name routine.params routine.returns routine.body) ∧
    ∃ printed declared, program.Charted dialect place printed ∧
      printed.table.declareFunction name routine.returns.length = .ok declared ∧
        Follows (program.LateAt dialect place.inner)
          ⟨declared, printed.ledger.record [name] (.statement place)⟩ run declared.current index

/-- Each function that is bound is registered for the scope that binds it, and the scope follows what
the function is printed behind. -/
def Program.FunctionsFollow (state : RunState) (ledger : Ledger) : Prop :=
  ∀ ⦃index entry : Nat⦄ ⦃name : Name⦄, state.table.function? index name = some entry →
    ∃ routine place, state.routines[entry]? = some routine ∧ routine.scope = index ∧
      ledger.site? index name = some (.statement place) ∧
        program.FunctionFollows dialect place name routine (state.chart ledger) index

/-- What an activity does at its place, and how the run follows what is printed there. -/
def Program.Stands (here : Activity) (place : Place) (run : Chart) : Prop :=
  match here with
  | .stmts trees =>
      program.restAt place = trees ∧ program.FollowsAt dialect place run ∧
        ∀ name site, run.ledger.site? run.table.current name = some (.statement site) →
          site.Behind place
  | .stmt tree => program.at? place = some tree ∧ program.FollowsAt dialect place run
  | .arm tree =>
      program.at? place = some tree ∧ ∃ printed : Chart, printed.Sound ∧
        program.Charted dialect place (printed.enterArm tree) ∧
          Follows (program.LateAt dialect place) printed run printed.table.current run.table.current
  | .frame routine words =>
      words.length = routine.params.length ∧ ∃ name outside, outside.Sound ∧
        routine.scope < outside.table.depth ∧ run = outside.enterUnder routine.scope ∧
          program.FunctionFollows dialect place name routine outside routine.scope
  | here =>
      ∃ tree, program.at? place = some tree ∧ here.looked ⊆ tree.uses ∧
        program.FollowsAt dialect place run

/-- The invariant of a run, when an activity starts. -/
structure Program.Tracks (here : Activity) (place : Place) (ledger : Ledger) (state : RunState) :
    Prop where
  sound : (state.chart ledger).Sound
  functions : program.FunctionsFollow dialect state ledger
  stands : program.Stands dialect here place (state.chart ledger)

end Invariant

section Keeping

variable {program : Program} {dialect : Dialect} {place : Place} {name : Name} {routine : Routine}
  {run run' : Chart} {index : Nat} {state state' : RunState} {ledger ledger' : Ledger}

/-- A function follows as long as nothing changes from its scope outwards. -/
theorem Program.FunctionFollows.congr (sound : run.Sound)
    (follows : program.FunctionFollows dialect place name routine run index)
    (agree : AgreeBelow (index + 1) run run') :
    program.FunctionFollows dialect place name routine run' index := by
  obtain ⟨found, printed, declared, charted, declares, follows⟩ := follows
  have adds := ScopeTable.adds_of_insert charted.sound.nested.current_lt declares
  have nested := charted.sound.nested.of_adds adds
  exact ⟨found, printed, declared, charted, declares,
    follows.congr nested sound.nested (.refl _ _) agree⟩

/-- A function follows when a statement behind it declares names in its scope. -/
theorem Program.FunctionFollows.record (sound : run.Sound)
    (follows : program.FunctionFollows dialect place name routine run index) {later : Place}
    {tree : Stmt} {table : ScopeTable Nat} (adds : Adds tree.declared run.table table)
    (newest : index = run.table.current) (behind : place.Behind later)
    (found' : program.at? later = some tree) :
    program.FunctionFollows dialect place name routine
      ⟨table, run.ledger.record tree.declared (.statement later)⟩ index := by
  obtain ⟨found, printed, declared, charted, declares, follows⟩ := follows
  have adds' := ScopeTable.adds_of_insert charted.sound.nested.current_lt declares
  refine ⟨found, printed, declared, charted, declares, follows.record_late
    (charted.sound.record adds' _) sound adds newest fun other new unknown origin leads => ?_⟩
  -- The name is not that of the function, so it leads where it led in front of the function.
  have apart : other ∉ [name] := by
    intro same
    rw [adds'.current, Ledger.site?_record, if_pos ⟨charted.sound.newest, same⟩] at unknown
    cases unknown
  rw [adds'.current] at leads
  have printedSite := charted.sound.site?_eq_some_iff.2 (leads.of_record charted.sound adds' apart)
  exact ⟨place, name, routine.params, routine.returns, routine.body, later, tree, found, .body,
    by simp [Program.printedSite?, charted.at_place, printedSite], behind, found', new, rfl⟩

/-- A function that a scope binds is bound in an open one. -/
theorem ScopeTable.lt_depth_of_function? {table : ScopeTable Nat} {entry : Nat}
    (bound : table.function? index name = some entry) : index < table.depth := by
  obtain ⟨scope, present, -⟩ := function?_eq_some_iff.1 bound
  exact (List.getElem?_eq_some_iff.1 present).1

/-- All functions follow as long as nothing changes from their scopes outwards. -/
theorem Program.FunctionsFollow.congr (sound : (state.chart ledger).Sound)
    (functions : program.FunctionsFollow dialect state ledger) (same : state.SameFunctions state')
    {bound : Nat} (agree : AgreeBelow bound (state.chart ledger) (state'.chart ledger'))
    (below : ∀ ⦃index entry : Nat⦄ ⦃name : Name⦄, state.table.function? index name = some entry →
      index < bound) : program.FunctionsFollow dialect state' ledger' := by
  intro index entry name found
  rw [same.bound] at found
  have older := below found
  obtain ⟨routine, place, registered, scope, site, follows⟩ := functions found
  refine ⟨routine, place, by rw [same.routines, registered], scope, ?_, ?_⟩
  · exact (agree.site older name).trans site
  · exact follows.congr sound (agree.mono older)

/-- The run follows the same place when nothing but values has changed. -/
theorem Program.FollowsAt.of_shape_eq (sound : (state.chart ledger).Sound)
    (follows : program.FollowsAt dialect place (state.chart ledger))
    (same : state'.shape = state.shape) :
    program.FollowsAt dialect place (state'.chart ledger) := by
  obtain ⟨printed, charted, follows⟩ := follows
  exact ⟨printed, charted,
    follows.of_shape_eq charted.sound sound rfl (RunState.table_shape_of_shape_eq same)⟩

/-- An activity that starts where nothing but values has changed tracks if it stands at its place. -/
theorem Program.Tracks.of_shape_eq {here part : Activity} {place' : Place}
    (tracks : program.Tracks dialect here place ledger state) (same : state'.shape = state.shape)
    (stands : program.Stands dialect part place' (state'.chart ledger)) :
    program.Tracks dialect part place' ledger state' where
  sound := tracks.sound.of_shape_eq (RunState.table_shape_of_shape_eq same)
  functions := tracks.functions.congr tracks.sound (.of_shape_eq same)
    (.of_shape_eq (RunState.table_shape_of_shape_eq same) state.table.depth)
    fun _ _ _ => ScopeTable.lt_depth_of_function?
  stands := stands

/-- The same for an activity that starts in a scope that was just opened. -/
theorem Program.Tracks.of_enterUnder {here part : Activity} {place' : Place} {outer : Nat}
    (tracks : program.Tracks dialect here place ledger state) (live : outer < state.table.depth)
    (opened : state'.table = state.table.enterUnder outer) (routines : state'.routines = state.routines)
    (stands : program.Stands dialect part place' ((state.chart ledger).enterUnder outer)) :
    program.Tracks dialect part place' ledger.enter state' := by
  have chart : state'.chart ledger.enter = (state.chart ledger).enterUnder outer := by
    rw [RunState.chart, opened]
    rfl
  refine ⟨?_, ?_, ?_⟩
  · rw [chart]
    exact tracks.sound.enterUnder live
  · refine tracks.functions.congr tracks.sound ⟨fun index name => ?_, routines⟩ ?_
      fun _ _ _ => ScopeTable.lt_depth_of_function?
    · rw [opened, ScopeTable.function?_enterUnder]
    · rw [chart]
      exact Chart.agreeBelow_enterUnder (state.chart ledger) outer
  · rwa [chart]

end Keeping

namespace Program.Tracks

variable {program : Program} {dialect : Dialect} {limit : Nat} {place : Place} {ledger : Ledger}
  {state state' : RunState} {part : Activity}

open Activity (stmt stmts arm expr exprs call frame store)

/-- What an activity within a statement consists of stands at the statement. -/
theorem stands_of_isTermOf {tree : Stmt} {names : List Name}
    (term : Activity.IsTermOf names state part state') (fewer : names ⊆ tree.uses)
    (found : program.at? place = some tree)
    (follows : program.FollowsAt dialect place (state'.chart ledger)) :
    program.Stands dialect part place (state'.chart ledger) := by
  have looked := List.Subset.trans term.fewer fewer
  cases part with
  | expr _ | exprs _ | call _ _ => exact ⟨tree, found, looked, follows⟩
  | store declares op pairs => exact ⟨tree, found, looked, follows⟩
  | frame _ _ | stmt _ | arm _ | stmts _ => cases term.term

/-- What an activity within a statement consists of tracks at the statement. -/
theorem term_of_term {here : Activity} (tracks : program.Tracks dialect here place ledger state)
    (term : here.isTerm = true) (inner : Activity.IsTermOf here.looked state part state') :
    program.Tracks dialect part place ledger state' := by
  have stands : ∃ tree, program.at? place = some tree ∧ here.looked ⊆ tree.uses ∧
      program.FollowsAt dialect place (state.chart ledger) := by
    have stands := tracks.stands
    cases here with
    | expr _ | exprs _ | call _ _ => exact stands
    | store declares op pairs => exact stands
    | frame _ _ | stmt _ | arm _ | stmts _ => cases term
  obtain ⟨tree, found, fewer, follows⟩ := stands
  exact tracks.of_shape_eq inner.shape
    (stands_of_isTermOf inner fewer found (follows.of_shape_eq tracks.sound inner.shape))

/-- A function that is called is entered at the place of the declaration that its name leads to. -/
theorem frame_of_call {callee : Name} {args : List Expr} {routine : Routine} {words : List Word}
    (sound : state.Sound) (tracks : program.Tracks dialect (call callee args) place ledger state)
    (member : (frame routine words, state') ∈ (call callee args).parts limit state) :
    program.Tracks dialect (frame routine words)
      ((call callee args).placeOf limit state place ledger (frame routine words)) ledger.enter state' := by
  obtain ⟨index, entry, middle, located, registered, counts, same, rfl⟩ :=
    Activity.entered_of_mem_parts sound member
  have bound := ScopeTable.function?_of_locate? located
  obtain ⟨routine, function, registered', rfl, site, follows⟩ := tracks.functions bound
  obtain rfl := Option.some.inj (registered.symm.trans registered')
  have entered : (call callee args).placeOf limit state place ledger (frame routine words) =
      function := by
    simp [Activity.placeOf, Chart.site?, RunState.chart, located, site]
  rw [entered]
  have tables := RunState.table_shape_of_shape_eq same
  have live : routine.scope < middle.table.depth := by
    rw [ScopeTable.depth_eq_of_shape_eq tables]
    exact ScopeTable.lt_depth_of_function? bound
  have behind : program.Tracks dialect (call callee args) place ledger middle := by
    obtain ⟨tree, found, fewer, follows⟩ := tracks.stands
    exact tracks.of_shape_eq same ⟨tree, found, fewer, follows.of_shape_eq tracks.sound same⟩
  exact behind.of_enterUnder live rfl rfl ⟨counts, callee, middle.chart ledger,
    tracks.sound.of_shape_eq tables, live, rfl, follows.congr tracks.sound (.of_shape_eq tables _)⟩

/-- The body of a function starts behind its parameters and results. -/
theorem stmts_of_frame {routine : Routine} {words : List Word} {trees : List Stmt}
    (sound : state.Sound) (tracks : program.Tracks dialect (frame routine words) place ledger state)
    (member : (stmts trees, state') ∈ (frame routine words).parts limit state) :
    program.Tracks dialect (stmts trees) place.inner ((ledger.record routine.params
      (.parameter place)).record routine.returns (.result place)) state' := by
  obtain ⟨counts, name, outside, sound', live, entered, found, printed, declared, charted, declares,
    follows⟩ := tracks.stands
  obtain ⟨rfl, middle, params, returns⟩ :=
    Activity.filled_of_mem_parts sound.nested counts member
  have sound₁ := tracks.sound.record params (.parameter place)
  have sound₂ := sound₁.record returns (.result place)
  have current : state.table.current = outside.table.depth :=
    congrArg (fun chart => chart.table.current) entered
  have empty (name : Name) : ledger.site? state.table.current name = none := by
    have ledgers : ledger = outside.ledger.enter := congrArg Chart.ledger entered
    rw [ledgers, current, Ledger.site?_enter, sound'.site?_depth]
  refine ⟨sound₂, ?_, restAt_func found, ?_, fun name site known => ?_⟩
  · -- Only the scope of the frame changes, and it binds no function.
    have agree₁ := Chart.agreeBelow_record tracks.sound params (.parameter place)
    have agree₂ := Chart.agreeBelow_record sound₁ returns (.result place)
    rw [params.current] at agree₂
    refine tracks.functions.congr tracks.sound (Activity.sameFunctions_frame sound member)
      (agree₁.trans agree₂) fun index entry name bound => ?_
    obtain ⟨_, _, _, _, site, -⟩ := tracks.functions bound
    have older := ScopeTable.lt_depth_of_function? bound
    have newest := sound.nested.current_newest
    have apart : index ≠ state.table.current := by
      rintro rfl
      rw [empty] at site
      cases site
    change index < state.table.current
    omega
  · -- The printed side opens a scope and declares the parameters and results in the same order.
    obtain ⟨opened, filled, params', returns', charted'⟩ := charted.func found declares
    have adds := ScopeTable.adds_of_insert charted.sound.nested.current_lt declares
    have printed₁ := charted.sound.record adds (.statement place)
    have printed₂ := printed₁.enter.record params' (.parameter place)
    have opens := follows.enterUnder printed₁ sound' printed₁.nested.current_lt live
    rw [← entered, ← current] at opens
    have fills := opens.record printed₁.enter tracks.sound params' params (.parameter place)
    exact ⟨_, charted', fills.record printed₂ sound₁ returns' returns (.result place)⟩
  · have newest : state'.table.current = state.table.current := returns.current.trans params.current
    simp only [RunState.chart, newest, Ledger.site?_record, empty] at known
    split at known
    · cases known
    · split at known <;> cases known

/-- The statements of a block start in a scope that binds nothing. -/
theorem stmts_of_block {body : List Stmt} (sound : state.Sound)
    (tracks : program.Tracks dialect (stmt (.block body)) place ledger state) :
    program.Tracks dialect (stmts body) place.inner ledger.enter state.opened := by
  obtain ⟨found, printed, charted, follows⟩ := tracks.stands
  have live := sound.nested.current_lt
  have opens := follows.enterUnder charted.sound tracks.sound charted.sound.nested.current_lt live
  refine tracks.of_enterUnder live rfl rfl ⟨restAt_block found, ⟨_, charted.block found,
    opens.mono fun _ _ _ => .mono fun _ => .inner⟩, fun name site known => ?_⟩
  have unbound := tracks.sound.site?_depth name
  rw [← Ledger.site?_enter] at unbound
  have known' := unbound.symm.trans known
  cases known'

section Branch

variable {condition : Expr} {chosen : Stmt}

/-- The arm behind the condition starts where the branch has changed nothing but values. -/
theorem arm_of_then {elseArm : Option Stmt}
    (tracks : program.Tracks dialect (stmt (.branch condition chosen elseArm)) place ledger state)
    (same : state'.shape = state.shape) :
    program.Tracks dialect (arm chosen) place.thenArm ledger state' := by
  obtain ⟨found, printed, charted, follows⟩ := tracks.stands
  have follows' := follows.of_shape_eq charted.sound tracks.sound rfl
    (RunState.table_shape_of_shape_eq same)
  exact tracks.of_shape_eq same ⟨at?_thenArm found, printed, charted.sound, charted.thenArm found,
    follows'.mono fun _ _ _ => .mono fun _ => .thenArm⟩

/-- So does the arm behind `else`, which is printed behind the other. -/
theorem arm_of_else {thenArm : Stmt}
    (tracks : program.Tracks dialect (stmt (.branch condition thenArm (some chosen))) place ledger state)
    (same : state'.shape = state.shape) :
    program.Tracks dialect (arm chosen) place.elseArm ledger state' := by
  obtain ⟨found, printed, charted, follows⟩ := tracks.stands
  obtain ⟨table, shape, charted'⟩ := charted.elseArm found
  have follows' := follows.of_shape_eq charted.sound tracks.sound shape
    (RunState.table_shape_of_shape_eq same)
  exact tracks.of_shape_eq same ⟨at?_elseArm found, ⟨table, printed.ledger⟩,
    charted.sound.of_shape_eq shape, charted', follows'.mono fun _ _ _ => .mono fun _ => .elseArm⟩

end Branch

/-- What a statement consists of tracks, but for declarations that are under way. -/
theorem part_of_stmt {tree : Stmt} (sound : state.Sound)
    (tracks : program.Tracks dialect (stmt tree) place ledger state)
    (member : (part, state') ∈ (stmt tree).parts limit state) :
    part.isDeclaring = true ∨ program.Tracks dialect part
      ((stmt tree).placeOf limit state place ledger part) ((stmt tree).ledgerOf place ledger part)
      state' := by
  rcases Activity.parts_stmt sound member with term | declaring | ⟨body, rfl, rfl, rfl⟩ |
    ⟨condition, thenArm, elseArm, word, rfl, outcome, same, chosen⟩
  · obtain ⟨found, follows⟩ := tracks.stands
    obtain ⟨here, recorded⟩ := Activity.placeOf_of_isTerm term.term place ledger
    rw [here, recorded]
    exact .inr (tracks.of_shape_eq term.shape (stands_of_isTermOf term (List.Subset.refl _) found
      (follows.of_shape_eq tracks.sound term.shape)))
  · exact .inl declaring
  · exact .inr (stmts_of_block sound tracks)
  · right
    rcases chosen with ⟨holds, rfl⟩ | ⟨fails, chosen, rfl, rfl⟩
    · have here : (stmt (.branch condition thenArm elseArm)).placeOf limit state place ledger
          (arm thenArm) = place.thenArm := by
        simp [Activity.placeOf, outcome, holds]
      rw [here]
      exact arm_of_then tracks same
    · have here : (stmt (.branch condition thenArm (some chosen))).placeOf limit state place ledger
          (arm chosen) = place.elseArm := by
        simp [Activity.placeOf, outcome, fails]
      rw [here]
      exact arm_of_else tracks same

/-- An arm of a branch starts in a scope of its own. -/
theorem stmt_of_arm {tree : Stmt} (sound : state.Sound)
    (tracks : program.Tracks dialect (arm tree) place ledger state)
    (member : (part, state') ∈ (arm tree).parts limit state) :
    program.Tracks dialect part place ((arm tree).ledgerOf place ledger part) state' := by
  obtain ⟨found, printed, sound', charted, follows⟩ := tracks.stands
  obtain ⟨rfl, rfl⟩ := by simpa [Activity.parts] using member
  have live := sound.nested.current_lt
  have opens := follows.enterUnder sound' tracks.sound sound'.nested.current_lt live
  cases tree with
  | block body => exact ⟨tracks.sound, tracks.functions, found, printed, charted, follows⟩
  | assign _ _ _ _ | branch _ _ _ | func _ _ _ _ | ret _ _ | expr _ | empty =>
    exact tracks.of_enterUnder live rfl rfl ⟨found, _, charted, opens⟩

section Behind

variable {tree : Stmt} {rest : List Stmt} {index entry : Nat} {name : Name}
  (tracks : program.Tracks dialect (stmts (tree :: rest)) place ledger state)
  (adds : Adds tree.declared state.table state'.table)

include tracks adds

/-- A function that is bound in front of a statement still follows behind it. -/
theorem function_kept (sound : state.Sound) (bound : state.table.function? index name = some entry) :
    ∃ routine function, state.routines[entry]? = some routine ∧ routine.scope = index ∧
      (ledger.record tree.declared (.statement place)).site? index name = some (.statement function) ∧
        program.FunctionFollows dialect function name routine
          (state'.chart (ledger.record tree.declared (.statement place))) index := by
  obtain ⟨found, -, behind⟩ := tracks.stands
  obtain ⟨routine, function, registered, scope, site, follows⟩ := tracks.functions bound
  refine ⟨routine, function, registered, scope,
    tracks.sound.site?_record_of_known adds site _, ?_⟩
  by_cases newest : index = state.table.current
  · subst newest
    exact follows.record tracks.sound adds rfl (behind name function site) (at?_of_restAt found)
  · have live := ScopeTable.lt_depth_of_function? bound
    have current := sound.nested.current_newest
    have outer : index + 1 ≤ state.table.current := by omega
    exact follows.congr tracks.sound
      ((Chart.agreeBelow_record tracks.sound adds (.statement place)).mono outer)

/-- Behind its definition a function follows what it is printed behind. -/
theorem function_defined {params returns : List Name} {body : List Stmt}
    (defines : tree = .func name params returns body) :
    (ledger.record tree.declared (.statement place)).site? state.table.current name =
        some (.statement place) ∧
      program.FunctionFollows dialect place name ⟨params, returns, body, state.table.current⟩
        (state'.chart (ledger.record tree.declared (.statement place))) state.table.current := by
  subst defines
  obtain ⟨found, ⟨printed, charted, follows⟩, -⟩ := tracks.stands
  have here := at?_of_restAt found
  obtain ⟨declared, declares⟩ := charted.declares_func here
  have adds' := ScopeTable.adds_of_insert charted.sound.nested.current_lt declares
  have behind := follows.record charted.sound tracks.sound adds' adds (.statement place)
  rw [adds.current] at behind
  have newest : state.table.current + 1 = ledger.length := tracks.sound.newest
  refine ⟨?_, here, printed, declared, charted, declares,
    behind.mono fun _ _ _ => .mono fun _ => .inner⟩
  rw [Ledger.site?_record, if_pos ⟨newest, List.mem_singleton_self _⟩]

/-- Behind a statement all functions follow, the one that it has defined among them. -/
theorem functions_behind (sound : state.Sound)
    (member : (stmts rest, state') ∈ (stmts (tree :: rest)).parts limit state) :
    program.FunctionsFollow dialect state'
      (ledger.record tree.declared (.statement place)) := by
  intro index entry name bound
  rcases Activity.functions_of_mem_parts sound member with same | ⟨defining, params, returns, body, _,
    trees, -, defined⟩
  · rw [same.bound] at bound
    rw [same.routines]
    exact function_kept tracks adds sound bound
  · obtain ⟨defines, -⟩ := List.cons.inj (Activity.stmts.inj trees)
    obtain ⟨routines, functions⟩ := Run.define_eq_ok sound defined
    rw [functions] at bound
    rw [routines]
    split at bound
    · rename_i new
      obtain ⟨rfl, rfl⟩ := new
      obtain rfl := Option.some.inj bound
      exact ⟨_, place, List.getElem?_concat_length, rfl, function_defined tracks adds defines⟩
    · obtain ⟨routine, function, registered, follows⟩ := function_kept tracks adds sound bound
      refine ⟨routine, function, ?_, follows⟩
      rw [List.getElem?_append_left (List.getElem?_eq_some_iff.1 registered).1, registered]

end Behind

/-- Of statements the first starts where they start, and the others start behind it. -/
theorem part_of_stmts {trees : List Stmt} (sound : state.Sound)
    (tracks : program.Tracks dialect (stmts trees) place ledger state)
    (member : (part, state') ∈ (stmts trees).parts limit state) :
    program.Tracks dialect part ((stmts trees).placeOf limit state place ledger part)
      ((stmts trees).ledgerOf place ledger part) state' := by
  obtain ⟨found, ⟨printed, charted, follows⟩, behind⟩ := tracks.stands
  obtain _ | ⟨tree, rest⟩ := trees
  · simp [Activity.parts] at member
  rcases List.mem_cons.1 member with first | second
  · obtain ⟨rfl, rfl⟩ := Prod.mk.inj first
    exact ⟨tracks.sound, tracks.functions, at?_of_restAt found, printed, charted, follows⟩
  · obtain ⟨flow, middle, outcome, last⟩ := Run.mem_behind.1 second
    split at last
    · obtain ⟨rfl, rfl⟩ := by simpa using last
      have adds := Run.adds_of_exec sound outcome
      obtain ⟨table, adds', charted'⟩ := charted.next (at?_of_restAt found)
      have further := follows.record charted.sound tracks.sound adds' adds (.statement place)
      refine ⟨tracks.sound.record adds _, functions_behind tracks adds sound member,
        restAt_next found, ⟨_, charted', further.mono fun _ _ _ => .mono fun _ => .next⟩,
        fun name site known => ?_⟩
      have newest : state'.table.current = state.table.current := adds.current
      have newest' : state.table.current + 1 = ledger.length := tracks.sound.newest
      simp only [RunState.chart, Activity.ledgerOf, newest, Ledger.site?_record, newest', true_and]
        at known
      split at known
      · obtain rfl := Site.statement.inj (Option.some.inj known)
        exact .next
      · exact .further (behind name site known)
    · simp at last

/-- What an activity consists of tracks, but for declarations that are under way. -/
theorem of_mem_parts {here : Activity} (sound : state.Sound)
    (tracks : program.Tracks dialect here place ledger state)
    (member : (part, state') ∈ here.parts limit state) :
    part.isDeclaring = true ∨ program.Tracks dialect part
      (here.placeOf limit state place ledger part) (here.ledgerOf place ledger part) state' := by
  cases term : here.isTerm with
  | true =>
    right
    rcases Activity.isTermOf_of_mem_parts sound term member with inner |
      ⟨callee, args, routine, words, rfl, rfl⟩
    · obtain ⟨kept, kept'⟩ := Activity.placeOf_of_isTerm inner.term place ledger
      rw [kept, kept']
      exact tracks.term_of_term term inner
    · exact frame_of_call sound tracks member
  | false =>
    cases here with
    | expr _ | exprs _ | call _ _ => cases term
    | store declares op pairs => exact .inl (Activity.isDeclaring_of_mem_parts
        (by simpa [Activity.isTerm, Activity.isDeclaring] using term) member)
    | stmt tree => exact part_of_stmt sound tracks member
    | arm tree => exact .inr (stmt_of_arm sound tracks member)
    | stmts trees => exact .inr (part_of_stmts sound tracks member)
    | frame routine words =>
      rcases Activity.parts_frame member with declaring | ⟨trees, rfl⟩
      · exact .inl declaring
      · exact .inr (stmts_of_frame sound tracks member)

end Program.Tracks

section Theorem

variable {program : Program} {dialect : Dialect} {text : String} {limit : Nat} {here : Activity}
  {around : List Activity} {place : Place} {ledger : Ledger} {state : RunState}

/-- When a program that can be printed runs, every activity follows what is printed at its place,
unless it declares names one after the other. -/
theorem Program.Traces.tracks (printed : program.emit dialect = .ok text) :
    ∀ {here : Activity} {around : List Activity} {place : Place} {ledger : Ledger} {state : RunState},
      program.Traces limit (here :: around) place ledger state →
        here.isDeclaring = true ∨ program.Tracks dialect here place ledger state
  | _, _, _, _, _, .whole => by
      have nothing (index : Nat) (name : Name) :
          RunState.new.table.function? index name = none := by
        cases index <;> rfl
      have unknown (index : Nat) (name : Name) : Chart.new.ledger.site? index name = none := by
        cases index <;> rfl
      have copies : Chart.Copies (program.LateAt dialect .first) Chart.new Chart.new 0 0 :=
        ⟨id, .inl⟩
      refine .inr ⟨Chart.sound_new, fun index entry name bound => ?_, rfl,
        ⟨_, .first printed, .outermost copies rfl⟩, fun name site known => ?_⟩
      · rw [nothing] at bound
        cases bound
      · have known' := (unknown _ name).symm.trans known
        cases known'
  | _, _, _, _, _, .part traces member => by
      rcases Traces.tracks printed traces with declaring | tracks
      · exact .inl (Activity.isDeclaring_of_mem_parts declaring member)
      · have reached := Program.reached_iff_traces.2 ⟨_, _, traces⟩
        exact tracks.of_mem_parts reached.sound_and_depth.1 member

/-- Whenever a program that can be printed, in whichever dialect, reads a variable, assigns to one or
calls a function, then the name leads to the declaration that the statement was printed for, or to one
that is late at the place: it stands behind a function around the statement, in the same list of
statements as the function. -/
theorem Program.Traces.leads_to_printed_or_late
    (undotted : ∀ name ∈ program.names, name.isDotted = false)
    (printed : program.emit dialect = .ok text)
    (traces : program.Traces limit (here :: around) place ledger state) {name : Name}
    (looks : name ∈ here.looksFor) :
    ∃ tree site site', program.at? place = some tree ∧ name ∈ tree.uses ∧
      program.printedSite? dialect place name = some site ∧
        (state.chart ledger).site? name = some site' ∧
          (site' = site ∨ program.LateAt dialect place name site site') := by
  have tracks : program.Tracks dialect here place ledger state := by
    rcases traces.tracks printed with declaring | tracks
    · cases here with
      | store declares op pairs =>
        cases declares with
        | true => simp [Activity.looksFor] at looks
        | false => cases declaring
      | expr _ | exprs _ | call _ _ | frame _ _ | stmt _ | arm _ | stmts _ => cases declaring
    · exact tracks
  obtain ⟨tree, found, fewer, chart, charted, follows⟩ : ∃ tree, program.at? place = some tree ∧
      here.looked ⊆ tree.uses ∧ program.FollowsAt dialect place (state.chart ledger) := by
    have stands := tracks.stands
    cases here with
    | expr _ | exprs _ | call _ _ | store _ _ _ => exact stands
    | frame _ _ | stmt _ | arm _ | stmts _ => simp [Activity.looksFor] at looks
  have used := fewer (here.looksFor_subset_looked looks)
  have located := charted.located found used
    (undotted name (Program.names_subset_of_at? found (tree.uses_subset_names used)))
  obtain ⟨site, site', meant, meant', leads⟩ := follows.site? charted.sound tracks.sound located
  refine ⟨tree, site, site', found, used, ?_, meant', leads⟩
  rw [Program.printedSite?, charted.at_place, Option.bind_some, meant]

end Theorem

/-- A function that reads a variable, which is declared once more behind the function and in front of
its call. -/
def Program.redeclaring : Program where
  imports := []
  body :=
    [.assign true ["x"] .set [.number "1" 1],
      .assign true ["y"] .set [.number "0" 0],
      .block
        [.func "f" [] ["r"] [.assign false ["r"] .set [.variable "x"]],
          .assign true ["x"] .set [.number "2" 2],
          .assign false ["y"] .set [.call "f" []]]]

/-- The place of the assignment in the body of the function. -/
def Program.readingPlace : Place :=
  .inner (.inner (.next (.next .first)))

/-- In the body the variable is read that was declared behind the function. -/
theorem Program.redeclaring_reads_later : ∃ around ledger state,
    redeclaring.Traces 1 (.expr (.variable "x") :: around) readingPlace ledger state ∧
      around.any Activity.isFrame = true ∧
        (state.chart ledger).site? "x" = some (.statement (.next (.inner (.next (.next .first))))) := by
  have first : redeclaring.Traces 1 _ _ _ _ := .whole
  have second := Program.Traces.part first (.tail _ (.head _))
  have third := Program.Traces.part second (.tail _ (.head _))
  have block := Program.Traces.part third (.head _)
  have defining := Program.Traces.part block (.head _)
  have declaring := Program.Traces.part defining (.tail _ (.head _))
  have calling := Program.Traces.part declaring (.tail _ (.head _))
  have assigning := Program.Traces.part calling (.head _)
  have called := Program.Traces.part assigning (.head _)
  have frame := Program.Traces.part called (.tail _ (.head _))
  have body := Program.Traces.part frame (.tail _ (.tail _ (.head _)))
  have inner := Program.Traces.part body (.head _)
  have values := Program.Traces.part inner (.head _)
  have read := Program.Traces.part values (.head _)
  exact ⟨_, _, _, read, rfl, rfl⟩

/-- A name in the body of a function need not lead to the declaration that it was printed for. -/
theorem Program.not_leads_to_printed :
    ¬ ∀ (program : Program) (dialect : Dialect) (text : String) (limit : Nat) (here : Activity)
      (around : List Activity) (place : Place) (ledger : Ledger) (state : RunState) (name : Name),
      (∀ name ∈ program.names, name.isDotted = false) → program.emit dialect = .ok text →
        program.Traces limit (here :: around) place ledger state →
          around.any Activity.isFrame = true → name ∈ here.looksFor →
            ∃ site, program.printedSite? dialect place name = some site ∧
              (state.chart ledger).site? name = some site := by
  intro claim
  obtain ⟨around, ledger, state, traces, inside, later⟩ := redeclaring_reads_later
  obtain ⟨site, printed, meant⟩ := claim redeclaring .go _ 1 _ around _ ledger state "x" (by decide) rfl
    traces inside (.head _)
  have earlier : redeclaring.printedSite? .go readingPlace "x" = some (.statement .first) := rfl
  have same := (earlier.symm.trans printed).trans (meant.symm.trans later)
  cases same

/-- The function reads a variable that is declared late, as the theorem allows. -/
theorem Program.Traces.leads_to_printed_or_late_redeclaring :
    ∃ text around ledger state, (∀ name ∈ redeclaring.names, name.isDotted = false) ∧
      redeclaring.emit .go = .ok text ∧
        redeclaring.Traces 1 (.expr (.variable "x") :: around) readingPlace ledger state ∧
          ∃ tree site site', redeclaring.at? readingPlace = some tree ∧ "x" ∈ tree.uses ∧
            redeclaring.printedSite? .go readingPlace "x" = some site ∧
              (state.chart ledger).site? "x" = some site' ∧
                (site' = site ∨ redeclaring.LateAt .go readingPlace "x" site site') := by
  obtain ⟨around, ledger, state, traces, -, -⟩ := redeclaring_reads_later
  obtain ⟨text, printed⟩ : ∃ text, redeclaring.emit .go = .ok text := ⟨_, rfl⟩
  have undotted : ∀ name ∈ redeclaring.names, name.isDotted = false := by decide
  exact ⟨text, around, ledger, state, undotted, printed, traces,
    traces.leads_to_printed_or_late undotted printed (.head _)⟩

end ScriptLang

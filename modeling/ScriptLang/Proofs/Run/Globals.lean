import ScriptLang.Proofs.Run.Charting
import ScriptLang.Proofs.Text.ByteOrder

/-!
# The variables that a program leaves behind

The statements of a program run in the root scope, and what they run in turn stands in scopes of its
own. So the root binds the variables that the statements of the program itself declare, up to the
first one that returns, and no others: each statement adds the variables that it declares
(`Run.hasVariable_of_exec`), and the statements in front of the one that returns add theirs one after
the other. The variables are reported in the order of their names.
-/

namespace ScriptLang

/-- The variables that a statement declares in the scope in which it stands. -/
def Stmt.newVariables : Stmt → List Name
  | .assign true targets _ _ => targets
  | _ => []

/-- The variables that a statement declares itself are the targets of a declaration. -/
theorem Stmt.mem_newVariables_iff {tree : Stmt} {name : Name} : name ∈ tree.newVariables ↔
    ∃ targets op values, tree = .assign true targets op values ∧ name ∈ targets := by
  constructor
  · intro declared
    cases tree with
    | assign declares targets op values =>
      cases declares with
      | true => exact ⟨targets, op, values, rfl, declared⟩
      | false => simp [newVariables] at declared
    | _ => simp [newVariables] at declared
  · rintro ⟨targets, op, values, rfl, member⟩
    exact member

/-- The results with which a statement ends the running function. -/
def Flow.results? : Flow → Option (List Word)
  | .next => none
  | .returned values => some values

namespace Scope

variable {φ : Type} {scope : Scope φ} {name : Name} {symbol : Symbol φ} {word : Word}

/-- What is looked up stands among the bindings. -/
theorem mem_of_lookup? (bound : scope.lookup? name = some symbol) : (name, symbol) ∈ scope.bindings := by
  obtain ⟨before, after, same, -⟩ := List.lookup_eq_some_iff.1 bound
  exact same ▸ List.mem_append_right _ List.mem_cons_self

/-- The variables of a scope, each with its value. -/
theorem mem_variableValues (unique : scope.names.Nodup) :
    (name, word) ∈ scope.variableValues ↔ scope.lookup? name = some (.variable word) := by
  unfold variableValues
  rw [List.mem_mergeSort, List.mem_filterMap]
  constructor
  · rintro ⟨⟨bound, value | entry⟩, member, same⟩
    · obtain ⟨rfl, rfl⟩ := Prod.mk.inj (Option.some.inj same)
      exact lookup?_of_mem unique member
    · cases same
  · exact fun bound => ⟨_, mem_of_lookup? bound, rfl⟩

/-- The variables of a scope are in the order of their names, without repetition. -/
theorem variableValues_increasing (unique : scope.names.Nodup) :
    (scope.variableValues.map Prod.fst).Pairwise (· < ·) := by
  have ordered : (scope.variableValues.map Prod.fst).Pairwise (· ≤ ·) := by
    refine List.pairwise_map.2 ?_
    have sorted : scope.variableValues.Pairwise fun first second => decide (first.1 ≤ second.1) :=
      List.pairwise_mergeSort
        (fun first second third before behind => by
          simp only [decide_eq_true_eq] at *
          exact le_trans before behind)
        (fun first second => by simpa using le_total first.1 second.1) _
    exact sorted.imp fun before => of_decide_eq_true before
  have apart : (scope.variableValues.map Prod.fst).Nodup := by
    refine ((List.mergeSort_perm ..).map Prod.fst).nodup_iff.2 (List.Nodup.sublist ?_ unique)
    unfold names
    induction scope.bindings with
    | nil => exact .slnil
    | cons binding rest ih =>
      obtain ⟨bound, value | entry⟩ := binding
      · exact ih.cons_cons bound
      · exact ih.cons bound
  exact (ordered.and apart).imp fun both => lt_of_le_of_ne both.1 both.2

end Scope

namespace ScopeTable

variable {table table' : ScopeTable Nat} {index : Nat} {name other : Name}

/-- The scope with an index binds the name to a variable. -/
def HasVariable (table : ScopeTable Nat) (index : Nat) (name : Name) : Prop :=
  ∃ word, table.symbol? index name = some (.variable word)

/-- A scope has a variable exactly if it binds the name, but to no function. -/
theorem hasVariable_iff : table.HasVariable index name ↔
    (table.symbol? index name).isSome ∧ table.function? index name = none := by
  rw [HasVariable, function?, ← symbol?]
  rcases table.symbol? index name with _ | word | entry <;> simp

/-- Names that are added without functions are variables. -/
theorem hasVariable_of_adds {names : List Name} (adds : Adds names table table')
    (same : ∀ index name, table'.function? index name = table.function? index name) :
    table'.HasVariable index name ↔
      index = table.current ∧ name ∈ names ∨ table.HasVariable index name := by
  rw [hasVariable_iff, adds.bound, same, hasVariable_iff, or_and_right]
  refine or_congr_left (and_iff_left_of_imp ?_)
  rintro ⟨rfl, new⟩
  rw [function?, ← symbol?, adds.fresh name new]
  rfl

/-- A new function is no variable, and takes no variable's place. -/
theorem hasVariable_of_declareFunction {entry : Nat} (live : table.current < table.depth)
    (declared : table.declareFunction name entry = .ok table') :
    table'.HasVariable index other ↔ table.HasVariable index other := by
  have adds := adds_of_insert live declared
  rw [hasVariable_iff, adds.bound, function?_of_insert live declared, hasVariable_iff]
  split
  · rename_i here
    obtain ⟨rfl, rfl⟩ := here
    have unbound := adds.fresh other List.mem_cons_self
    simp [unbound]
  · rename_i elsewhere
    simp [elsewhere]

/-- The variables of the root, in the order of their names. -/
theorem mem_rootVariables_iff (unique : ∀ scope, table.scopes[0]? = some scope → scope.names.Nodup) :
    name ∈ table.rootVariables.map Prod.fst ↔ table.HasVariable 0 name := by
  obtain ⟨scopes, current⟩ := table
  cases scopes with
  | nil => simp [rootVariables, HasVariable, symbol?]
  | cons root rest => simp [rootVariables, HasVariable, symbol?, Scope.mem_variableValues (unique root rfl)]

/-- The variables of the root stand in increasing order of their names, none of them twice. -/
theorem rootVariables_increasing
    (unique : ∀ scope, table.scopes[0]? = some scope → scope.names.Nodup) :
    (table.rootVariables.map Prod.fst).Pairwise (· < ·) := by
  obtain ⟨scopes, current⟩ := table
  cases scopes with
  | nil => exact .nil
  | cons root rest => exact Scope.variableValues_increasing (unique root rfl)

end ScopeTable

namespace Run

variable {limit : Nat} {state state' : RunState}

/-- A statement that is run adds the variables that it declares to those of its scope, and no other
scope gets or loses one. -/
theorem hasVariable_of_exec {tree : Stmt} {flow : Flow} (sound : state.Sound)
    (outcome : exec RunState.recycle (calls limit) tree state = .ok flow state') (index : Nat) (name : Name) :
    state'.table.HasVariable index name ↔
      index = state.table.current ∧ name ∈ tree.newVariables ∨ state.table.HasVariable index name := by
  by_cases defines : ∃ name params returns body, tree = .func name params returns body
  · obtain ⟨name, params, returns, body, rfl⟩ := defines
    have defined := exec_func_eq_ok outcome
    unfold define at defined
    split at defined
    · rename_i table declared
      cases defined
      simp [ScopeTable.hasVariable_of_declareFunction sound.nested.current_lt declared, Stmt.newVariables]
    · cases defined
  · have nothing : DefinesNothing (exec RunState.recycle (calls limit) tree) :=
      definesNothing_exec (callsRelated_stable limit limit)
        fun name params returns body same => defines ⟨name, params, returns, body, same⟩
    have same := nothing.2 state sound
    rw [after, outcome, final_ok] at same
    have declared : tree.declared = tree.newVariables := by
      cases tree with
      | func name params returns body => exact absurd ⟨name, params, returns, body, rfl⟩ defines
      | assign declares targets op values => cases declares <;> rfl
      | _ => rfl
    rw [ScopeTable.hasVariable_of_adds (adds_of_exec sound outcome) same.bound, declared]

/-- A statement leads from sound states to sound states. -/
theorem sound_of_exec {tree : Stmt} {flow : Flow} (sound : state.Sound)
    (outcome : exec RunState.recycle (calls limit) tree state = .ok flow state') : state'.Sound := by
  have stable : Stable .statements (exec RunState.recycle (calls limit) tree)
      (exec RunState.recycle (calls limit) tree) :=
    respects_stable.exec (callsRelated_stable limit limit) tree
  have sound' := (stable.extends_after sound).1
  rwa [after, outcome, final_ok] at sound'

/-- What ends a run of statements: there are no more, or the next one returns. -/
def StopsAt (leave : Leaving) (call : Caller) (behind : List Stmt) (state : RunState)
    (returned : Option (List Word)) (final : RunState) : Prop :=
  match returned with
  | none => behind = [] ∧ final = state
  | some values => ∃ tree rest, behind = tree :: rest ∧
      exec leave call tree state = .ok (.returned values) final

/-- Statements are run one after the other until one returns or there are no more. -/
theorem exists_of_execAll {leave : Leaving} {call : Caller} {body : List Stmt} {flow : Flow}
    (outcome : execAll leave call body state = .ok flow state') :
    ∃ before behind middle, body = before ++ behind ∧
      execAll leave call before state = .ok .next middle ∧
        StopsAt leave call behind middle flow.results? state' := by
  induction body generalizing state with
  | nil =>
    obtain ⟨rfl, rfl⟩ := EStateM.Result.ok.inj outcome
    exact ⟨[], [], state, rfl, rfl, rfl, rfl⟩
  | cons tree rest ih =>
    rw [execAll] at outcome
    obtain ⟨flow', middle, here, there⟩ := bind_eq_ok.1 outcome
    cases flow' with
    | next =>
      obtain ⟨before, behind, last, rfl, run, ends⟩ := ih there
      refine ⟨tree :: before, behind, last, rfl, ?_, ends⟩
      rw [execAll]
      exact bind_eq_ok.2 ⟨.next, middle, here, run⟩
    | returned values =>
      obtain ⟨rfl, rfl⟩ := EStateM.Result.ok.inj there
      exact ⟨[], tree :: rest, state, rfl, rfl, tree, rest, rfl, here⟩

/-- Statements that are run to their end add the variables that they declare themselves. -/
theorem hasVariable_of_execAll {body : List Stmt} (sound : state.Sound)
    (outcome : execAll RunState.recycle (calls limit) body state = .ok .next state') :
    state'.Sound ∧ state'.table.current = state.table.current ∧
      ∀ name, state'.table.HasVariable state.table.current name ↔
        (∃ tree ∈ body, name ∈ tree.newVariables) ∨ state.table.HasVariable state.table.current name := by
  induction body generalizing state with
  | nil =>
    obtain ⟨-, rfl⟩ := EStateM.Result.ok.inj outcome
    exact ⟨sound, rfl, fun name => by simp⟩
  | cons tree rest ih =>
    rw [execAll] at outcome
    obtain ⟨flow, middle, here, there⟩ := bind_eq_ok.1 outcome
    cases flow with
    | returned values => cases there
    | next =>
      have current := (adds_of_exec sound here).current
      obtain ⟨sound'', current', added⟩ := ih (sound_of_exec sound here) there
      refine ⟨sound'', current'.trans current, fun name => ?_⟩
      rw [current] at added
      rw [added, hasVariable_of_exec sound here]
      simp only [List.exists_mem_cons_iff, true_and, or_assoc, or_left_comm]

/-- A statement that returns declares nothing. -/
theorem newVariables_of_returned {leave : Leaving} {call : Caller} {tree : Stmt} {values : List Word}
    (outcome : exec leave call tree state = .ok (.returned values) state') : tree.newVariables = [] := by
  cases tree with
  | assign declares targets op words =>
    rw [exec] at outcome
    obtain ⟨_, _, _, ends⟩ := bind_eq_ok.1 outcome
    cases ends
  | _ => rfl

/-- What ends a run of statements adds no variable. -/
theorem StopsAt.hasVariable_iff {behind : List Stmt} {returned : Option (List Word)} (sound : state.Sound)
    (stops : StopsAt RunState.recycle (calls limit) behind state returned state') :
    state'.Sound ∧ ∀ index name,
      state'.table.HasVariable index name ↔ state.table.HasVariable index name := by
  cases returned with
  | none =>
    obtain ⟨-, rfl⟩ := stops
    exact ⟨sound, fun _ _ => Iff.rfl⟩
  | some values =>
    obtain ⟨tree, rest, -, outcome⟩ := stops
    refine ⟨sound_of_exec sound outcome, fun index name => ?_⟩
    rw [hasVariable_of_exec sound outcome, newVariables_of_returned outcome]
    simp

end Run

/-- What an execution reports is what the run of the statements leaves behind. -/
theorem Program.execute_eq_ok {program : Program} {limit : Nat} {execution : Execution}
    (outcome : program.execute limit = .ok execution) :
    ∃ flow final, Run.execAll RunState.recycle (Run.calls limit) program.body RunState.new =
        .ok flow final ∧
      execution.globals = final.table.rootVariables ∧ execution.returned = flow.results? := by
  unfold execute executeLeaving at outcome
  split at outcome
  · rename_i flow final walked
    obtain rfl := Except.ok.inj outcome
    exact ⟨flow, final, walked, rfl, by cases flow <;> rfl⟩
  · cases outcome

/-- The variables that a program leaves behind are reported in the order of the bytes of their names,
and they are those that the statements of the program itself declare, up to the first one that
returns. -/
theorem Program.execute_globals {program : Program} {limit : Nat} {execution : Execution}
    (outcome : program.execute limit = .ok execution) :
    ((execution.globals.map Prod.fst).map Text.bytes).Pairwise (· < ·) ∧
    ∃ before behind middle final, program.body = before ++ behind ∧
      Run.execAll RunState.recycle (Run.calls limit) before RunState.new = .ok .next middle ∧
      Run.StopsAt RunState.recycle (Run.calls limit) behind middle execution.returned final ∧
      ∀ name, name ∈ execution.globals.map Prod.fst ↔
        ∃ targets op values, .assign true targets op values ∈ before ∧ name ∈ targets := by
  obtain ⟨flow, final, run, globals, returned⟩ := execute_eq_ok outcome
  obtain ⟨before, behind, middle, parts, run', stops⟩ := Run.exists_of_execAll run
  obtain ⟨sound, -, added⟩ := Run.hasVariable_of_execAll RunState.sound_new run'
  obtain ⟨sound', kept⟩ := stops.hasVariable_iff sound
  rw [globals, returned]
  refine ⟨?_, before, behind, middle, final, parts, run', stops, fun name => ?_⟩
  · have increasing := ScopeTable.rootVariables_increasing fun _ => sound'.unique
    exact List.pairwise_map.2 (increasing.imp Text.bytes_lt_bytes)
  · have atStart : ¬ RunState.new.table.HasVariable 0 name := by
      rintro ⟨word, bound⟩
      cases bound
    have added' := added name
    rw [show RunState.new.table.current = 0 from rfl, or_iff_left atStart] at added'
    rw [ScopeTable.mem_rootVariables_iff fun _ => sound'.unique, kept, added']
    constructor
    · rintro ⟨tree, member, declared⟩
      obtain ⟨targets, op, values, rfl, target⟩ := Stmt.mem_newVariables_iff.1 declared
      exact ⟨targets, op, values, member, target⟩
    · rintro ⟨targets, op, values, member, target⟩
      exact ⟨_, member, target⟩

/-- A program that declares variables in a block and in a function, and one behind its `return`. -/
def Program.declaringWithin : Program where
  imports := []
  body := [.assign true ["b"] .set [.number "1" 1],
    .block [.assign true ["c"] .set [.number "2" 2]],
    .func "f" ["p"] ["r"] [.assign true ["d"] .set [.number "3" 3]],
    .expr (.call "f" [.variable "b"]),
    .ret [.variable "b"] none,
    .assign true ["a"] .set [.number "4" 4]]

/-- What the block and the function declare is not reported, and neither is what is declared behind
the `return`. -/
theorem Program.execute_globals_declaringWithin : ∃ execution,
    declaringWithin.execute 2 = .ok execution ∧ execution.returned = some [1] ∧
      execution.globals.map Prod.fst = ["b"] ∧
      ∃ before behind, declaringWithin.body = before ++ behind ∧
        ∀ name, name = "b" ↔
          ∃ targets op values, .assign true targets op values ∈ before ∧ name ∈ targets := by
  have ran : (declaringWithin.execute 2).toOption.map
      (fun execution => (execution.returned, execution.globals)) = some (some [1], [("b", 1)]) := by
    decide +kernel
  cases outcome : declaringWithin.execute 2 with
  | error fault =>
    rw [outcome] at ran
    cases ran
  | ok execution =>
    rw [outcome] at ran
    obtain ⟨returned, globals⟩ := Prod.mk.inj (Option.some.inj ran)
    obtain ⟨-, before, behind, middle, final, parts, -, -, names⟩ := execute_globals outcome
    have reported : execution.globals.map Prod.fst = ["b"] := by rw [globals]; rfl
    refine ⟨execution, rfl, returned, reported, before, behind, parts, fun name => ?_⟩
    rw [← names, reported, List.mem_singleton]

end ScriptLang

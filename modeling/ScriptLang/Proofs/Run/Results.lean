import ScriptLang.Proofs.Run.Following

/-!
# Functions that return as many results as they declare

A `return` may have any number of values, whatever the function around it declares, and one whose only
value is a call has as many as the call has results. `Program.returnsAsDeclared` tells the programs in
which the functions of a name have one number of results, and each `return` of a function has as many
values as the function declares. In such a program every call that succeeds gives as many words as the
function that is called declares results (`Run.callsReturn`).

The invariant is that the functions which are bound return as they declare. Only a definition changes
what is bound to functions, so all other statements keep it.
-/

namespace ScriptLang

section Trees

variable (counts : Name → Nat)

/-- The number of words that values give, when functions have the given numbers of results: a call
that stands alone gives all results of the function. -/
def Expr.wordCount : List Expr → Nat
  | [.call callee _] => counts callee
  | values => values.length

mutual

/-- Whether each `return` in a statement has the number of values that is expected, if any is, and
each function within the statement declares its number of results and returns as many. -/
def Stmt.returnsAsDeclared (expected : Option Nat) : Stmt → Bool
  | .branch _ thenArm elseArm =>
      thenArm.returnsAsDeclared expected && elseReturnsAsDeclared expected elseArm
  | .func name _ returns body =>
      returns.length = counts name && allReturnAsDeclared (some returns.length) body
  | .ret values _ => expected.all (Expr.wordCount counts values = ·)
  | .block body => allReturnAsDeclared expected body
  | .assign .. | .expr _ | .empty => true

/-- The same for an arm behind `else`, if there is one. -/
def Stmt.elseReturnsAsDeclared (expected : Option Nat) : Option Stmt → Bool
  | none => true
  | some arm => arm.returnsAsDeclared expected

/-- The same for statements. -/
def Stmt.allReturnAsDeclared (expected : Option Nat) : List Stmt → Bool
  | [] => true
  | stmt :: rest => stmt.returnsAsDeclared expected && allReturnAsDeclared expected rest

end

/-- Whether the functions of a program have the given numbers of results, and return as many. -/
def Program.returnsAsDeclared (program : Program) : Bool :=
  Stmt.allReturnAsDeclared counts none program.body

/-- A function with the name returns as it declares. -/
def Routine.ReturnsAsDeclared (name : Name) (routine : Routine) : Prop :=
  routine.returns.length = counts name ∧
    Stmt.allReturnAsDeclared counts (some routine.returns.length) routine.body = true

/-- Every function that is bound returns as it declares. -/
def RunState.ReturnsAsDeclared (state : RunState) : Prop :=
  ∀ ⦃index entry : Nat⦄ ⦃name : Name⦄ ⦃routine : Routine⦄,
    state.table.function? index name = some entry → state.routines[entry]? = some routine →
      routine.ReturnsAsDeclared counts name

end Trees

/-- Functions return as they declare in every state that has the same functions. -/
theorem RunState.ReturnsAsDeclared.congr {counts : Name → Nat} {state state' : RunState}
    (returns : state.ReturnsAsDeclared counts) (same : state.SameFunctions state') :
    state'.ReturnsAsDeclared counts := by
  intro index entry name routine bound registered
  rw [same.bound] at bound
  rw [same.routines] at registered
  exact returns bound registered

namespace Run

section Inversion

variable {α : Type} {leave : Leaving} {run : Run α} {state final : RunState} {value : α}

/-- What runs in a scope of its own starts where the scope was opened. -/
theorem exists_of_withScope (outcome : withScope leave run state = .ok value final) :
    ∃ inside, run state.opened = .ok value inside := by
  unfold withScope withScopeUnder at outcome
  split at outcome
  · rename_i result inside ends
    obtain ⟨rfl, -⟩ := EStateM.Result.ok.inj outcome
    exact ⟨inside, ends⟩
  · cases outcome

/-- What runs in a frame starts where the frame was opened. -/
theorem exists_of_withFrame {parent : Nat} (outcome : withFrame leave parent run state = .ok value final) :
    ∃ inside, run (state.framed parent) = .ok value inside := by
  unfold withFrame withScopeUnder at outcome
  split at outcome
  · rename_i result outside closes
    obtain ⟨rfl, -⟩ := EStateM.Result.ok.inj outcome
    split at closes
    · rename_i result inside ends
      obtain ⟨rfl, -⟩ := EStateM.Result.ok.inj closes
      exact ⟨inside, ends⟩
    · cases closes
  · cases outcome

/-- A call that succeeds enters the function that the callee means, behind the arguments. -/
theorem call_eq_ok {limit : Nat} {enter : Routine → List Word → Run (List Word)} {callee : Name}
    {arity : Nat} {args : Run (List Word)} {words : List Word}
    (outcome : call limit enter callee arity args state = .ok words final) :
    ∃ index entry routine args' middle, state.table.locate? callee = some (index, .func entry) ∧
      state.routines[entry]? = some routine ∧ args state = .ok args' middle ∧
        enter routine args' middle = .ok words final := by
  rw [call_apply] at outcome
  split at outcome
  · cases outcome
  · cases outcome
  · rename_i entry meant
    split at outcome
    · cases outcome
    · rename_i routine registered
      obtain ⟨⟨index, symbol⟩, located, rfl⟩ := Option.map_eq_some_iff.1 meant
      split_ifs at outcome
      obtain ⟨args', middle, here, behind⟩ := bind_eq_ok.1 outcome
      exact ⟨index, entry, routine, args', middle, located, registered, here, behind⟩

end Inversion

variable {counts : Name → Nat}

/-- Calls give as many words as the callee has results. -/
def CallsReturn (counts : Name → Nat) (call : Caller) : Prop :=
  ∀ ⦃callee : Name⦄ ⦃arity : Nat⦄ ⦃args : Run (List Word)⦄ ⦃state final : RunState⦄ ⦃words : List Word⦄,
    Stable .expression args args → state.Sound → state.ReturnsAsDeclared counts →
      call callee arity args state = .ok words final → words.length = counts callee

section Keeping

variable {state final : RunState}

/-- What defines no function keeps those that are bound. -/
theorem DefinesNothing.keeps {α : Type} {run : Run α} {value : α} (nothing : DefinesNothing run)
    (sound : state.Sound) (returns : state.ReturnsAsDeclared counts)
    (outcome : run state = .ok value final) : final.Sound ∧ final.ReturnsAsDeclared counts := by
  have sound' := (nothing.1.extends_after sound).1
  rw [after, outcome, final_ok] at sound'
  exact ⟨sound', returns.congr (Activity.sameFunctions_behind nothing sound outcome)⟩

/-- Behind a statement all functions return as they declare, the one that it defines among them. -/
theorem keeps_exec {call : Caller} (calls : CallsRelated Stable call call) {expected : Option Nat}
    {tree : Stmt} {flow : Flow} (fine : tree.returnsAsDeclared counts expected = true)
    (sound : state.Sound) (returns : state.ReturnsAsDeclared counts)
    (outcome : exec RunState.recycle call tree state = .ok flow final) :
    final.Sound ∧ final.ReturnsAsDeclared counts := by
  by_cases defines : ∃ name params results body, tree = .func name params results body
  · obtain ⟨name, params, results, body, rfl⟩ := defines
    have sound' := (respects_stable.exec calls (.func name params results body)).extends_after sound
    rw [after, outcome, final_ok] at sound'
    obtain ⟨routines, functions⟩ := define_eq_ok sound (exec_func_eq_ok outcome)
    refine ⟨sound'.1, fun index entry other routine bound registered => ?_⟩
    rw [functions] at bound
    rw [routines] at registered
    split at bound
    · rename_i new
      obtain rfl := Option.some.inj bound
      rw [List.getElem?_concat_length] at registered
      obtain rfl := Option.some.inj registered
      rw [new.2]
      simpa [Routine.ReturnsAsDeclared, Stmt.returnsAsDeclared] using fine
    · -- A function that was bound before is registered in front of the new one.
      obtain ⟨scope, present, found⟩ := ScopeTable.function?_eq_some_iff.1 bound
      obtain ⟨routine', registered', -⟩ := sound.registered present found
      rw [List.getElem?_append_left (List.getElem?_eq_some_iff.1 registered').1] at registered
      exact returns bound registered
  · have nothing := definesNothing_exec calls
      fun name params results body same => defines ⟨name, params, results, body, same⟩
    exact nothing.keeps sound returns outcome

end Keeping

/-- From sound states in which functions return as they declare, a statement that ends the running
function does so with as many values as are expected. -/
def EndsWith (counts : Name → Nat) (expected : Option Nat) (run : Run Flow) : Prop :=
  ∀ ⦃state final : RunState⦄ ⦃words : List Word⦄, state.Sound → state.ReturnsAsDeclared counts →
    run state = .ok (.returned words) final → ∀ count ∈ expected, words.length = count

section Ends

variable {expected : Option Nat} {run : Run Flow}

/-- What goes on with the next statement ends nothing. -/
theorem endsWith_next {α : Type} (first : Run α) :
    EndsWith counts expected (first >>= fun _ => pure .next) := by
  intro state final words _ _ outcome
  obtain ⟨value, middle, -, ends⟩ := bind_eq_ok.1 outcome
  cases (EStateM.Result.ok.inj ends).1

/-- A step that defines nothing does not change how what follows ends. -/
theorem EndsWith.bind {α : Type} {first : Run α} {second : α → Run Flow}
    (nothing : DefinesNothing first) (ends : ∀ value, EndsWith counts expected (second value)) :
    EndsWith counts expected (first >>= second) := by
  intro state final words sound returns outcome
  obtain ⟨value, middle, here, behind⟩ := bind_eq_ok.1 outcome
  obtain ⟨sound', returns'⟩ := nothing.keeps sound returns here
  exact ends value sound' returns' behind

/-- A statement ends in the same way in a scope of its own. -/
theorem EndsWith.withScope (ends : EndsWith counts expected run) :
    EndsWith counts expected (withScope RunState.recycle run) := by
  intro state final words sound returns outcome
  obtain ⟨inside, runs⟩ := exists_of_withScope outcome
  exact ends (sound.enterUnder sound.nested.current_lt) (returns.congr (.opened state)) runs

/-- An arm ends in the same way in its scope. -/
theorem EndsWith.withArmScope (ends : EndsWith counts expected run) (arm : Stmt) :
    EndsWith counts expected (withArmScope RunState.recycle arm run) := by
  unfold Run.withArmScope
  split
  · exact ends
  · exact ends.withScope

end Ends

section Walk

variable {call : Caller}

/-- Values give as many words as they are, or as the function has results whose call stands alone. -/
theorem length_results (calls : CallsRelated Stable call call) (callsReturn : CallsReturn counts call)
    {values : List Expr} {state final : RunState} {words : List Word}
    (sound : state.Sound) (returns : state.ReturnsAsDeclared counts)
    (outcome : results call values state = .ok words final) :
    words.length = Expr.wordCount counts values := by
  unfold results at outcome
  split at outcome
  · exact callsReturn (respects_stable.evalAll calls _) sound returns outcome
  · rename_i several
    rw [length_evalAll outcome, Expr.wordCount]
    exact several

mutual

/-- A statement that ends the running function does so with as many values as are expected. -/
theorem endsWith_exec (calls : CallsRelated Stable call call)
    (callsReturn : CallsReturn counts call) {expected : Option Nat} : ∀ {tree : Stmt}, tree.returnsAsDeclared counts expected = true →
      EndsWith counts expected (exec RunState.recycle call tree)
  | .assign .., _ | .func .., _ => endsWith_next _
  | .branch condition thenArm elseArm, fine => by
      rw [Stmt.returnsAsDeclared, Bool.and_eq_true] at fine
      rw [exec]
      refine .bind (respects_stable.eval calls condition).definesNothing fun word => ?_
      split
      · exact (endsWith_exec calls callsReturn fine.1).withArmScope thenArm
      · exact endsWith_execElse calls callsReturn fine.2
  | .ret values code, fine => by
      intro state final words sound returns outcome count member
      obtain ⟨words', middle, given, rest⟩ := bind_eq_ok.1 outcome
      obtain ⟨⟨⟩, middle', -, ends⟩ := bind_eq_ok.1 rest
      obtain ⟨rfl, -⟩ := Flow.returned.inj (EStateM.Result.ok.inj ends).1
      obtain rfl := Option.mem_def.1 member
      rw [length_results calls callsReturn sound returns given]
      simpa [Stmt.returnsAsDeclared] using fine
  | .block body, fine => (endsWith_execAll calls callsReturn fine).withScope
  | .expr value, _ => by
      by_cases isCall : ∃ callee args, value = .call callee args
      · obtain ⟨callee, args, rfl⟩ := isCall
        exact endsWith_next _
      · rw [exec]
        · exact endsWith_next _
        · exact fun callee args same => isCall ⟨callee, args, same⟩
  | .empty, _ => endsWith_next (pure ())

/-- The arm behind `else` ends as declared, if it returns as declared. -/
theorem endsWith_execElse (calls : CallsRelated Stable call call)
    (callsReturn : CallsReturn counts call) {expected : Option Nat} : ∀ {arm : Option Stmt},
    Stmt.elseReturnsAsDeclared counts expected arm = true →
      EndsWith counts expected (execElse RunState.recycle call arm)
  | none, _ => endsWith_next (pure ())
  | some arm, fine => (endsWith_exec calls callsReturn fine).withArmScope arm

/-- Statements end the running function with as many values as are expected. -/
theorem endsWith_execAll (calls : CallsRelated Stable call call)
    (callsReturn : CallsReturn counts call) {expected : Option Nat} : ∀ {body : List Stmt},
    Stmt.allReturnAsDeclared counts expected body = true →
      EndsWith counts expected (execAll RunState.recycle call body)
  | [], _ => endsWith_next (pure ())
  | tree :: rest, fine => by
      rw [Stmt.allReturnAsDeclared, Bool.and_eq_true] at fine
      intro state final words sound returns outcome
      rw [execAll] at outcome
      obtain ⟨flow, middle, first, behind⟩ := bind_eq_ok.1 outcome
      cases flow with
      | next =>
        obtain ⟨sound', returns'⟩ := keeps_exec calls fine.1 sound returns first
        exact endsWith_execAll calls callsReturn fine.2 sound' returns' behind
      | returned words' =>
        obtain rfl := Flow.returned.inj (EStateM.Result.ok.inj behind).1
        exact endsWith_exec calls callsReturn fine.1 sound returns first

end

/-- One word is read for each name. -/
theorem length_mapM_read {names : List Name} {words : List Word} {state final : RunState}
    (outcome : names.mapM read state = .ok words final) : words.length = names.length := by
  induction names generalizing state words final with
  | nil =>
    obtain ⟨rfl, -⟩ := EStateM.Result.ok.inj outcome
    rfl
  | cons name rest ih =>
    rw [List.mapM_cons] at outcome
    obtain ⟨word, middle, -, behind⟩ := bind_eq_ok.1 outcome
    obtain ⟨words', middle', there, ends⟩ := bind_eq_ok.1 behind
    obtain ⟨rfl, -⟩ := EStateM.Result.ok.inj ends
    rw [List.length_cons, List.length_cons, ih there]

/-- A function that returns as it declares gives as many words as it declares results. -/
theorem length_body (calls : CallsRelated Stable call call) (callsReturn : CallsReturn counts call)
    {name : Name} {routine : Routine} {args words : List Word} {state final : RunState}
    (returns : routine.ReturnsAsDeclared counts name) (sound : state.Sound)
    (all : state.ReturnsAsDeclared counts)
    (outcome : body RunState.recycle call routine args state = .ok words final) :
    words.length = routine.returns.length := by
  have params := definesNothing_storeAll true .set (routine.params.zip args)
  have results := definesNothing_storeAll true .set (routine.returns.map fun result => (result, 0))
  obtain ⟨⟨⟩, middle₁, first, outcome⟩ := bind_eq_ok.1 outcome
  obtain ⟨sound₁, all₁⟩ := params.keeps sound all first
  obtain ⟨⟨⟩, middle₂, second, outcome⟩ := bind_eq_ok.1 outcome
  obtain ⟨sound₂, all₂⟩ := results.keeps sound₁ all₁ second
  obtain ⟨flow, middle₃, runs, outcome⟩ := bind_eq_ok.1 outcome
  cases flow with
  | next => exact length_mapM_read outcome
  | returned values =>
    obtain ⟨rfl, -⟩ := EStateM.Result.ok.inj outcome
    exact endsWith_execAll calls callsReturn returns.2 sound₂ all₂ runs _ rfl

end Walk

/-- Calls give as many words as the callee has results if entering a function does that returns as it
declares. -/
theorem callsReturn_of_enter {limit : Nat} {enter : Routine → List Word → Run (List Word)}
    (entered : ∀ {name : Name} {routine : Routine} {args words : List Word} {state final : RunState},
      routine.ReturnsAsDeclared counts name → routine.scope < state.table.depth → state.Sound →
        state.ReturnsAsDeclared counts → enter routine args state = .ok words final →
          words.length = routine.returns.length) : CallsReturn counts (call limit enter) := by
  intro callee arity args state final words stable sound returns outcome
  obtain ⟨index, entry, routine, args', middle, located, registered, here, behind⟩ := call_eq_ok outcome
  have declares := returns (ScopeTable.function?_of_locate? located) registered
  obtain ⟨sound', returns'⟩ := stable.definesNothing.keeps sound returns here
  have depth := ScopeTable.depth_eq_of_shape_eq
    (RunState.table_shape_of_shape_eq (shape_of_stable stable sound here))
  have live := sound.live routine (List.mem_of_getElem? registered)
  rw [← declares.1]
  exact entered declares (by rwa [depth]) sound' returns' behind

/-- Calls give as many words as the callee has results, however many frames can be opened. -/
theorem callsReturn (limit frames : Nat) :
    CallsReturn counts (call limit (enter RunState.recycle limit frames)) := by
  induction frames with
  | zero => exact callsReturn_of_enter fun _ _ _ _ outcome => by cases outcome
  | succ frames ih =>
    refine callsReturn_of_enter fun {name routine args words state final} returns live sound all outcome => ?_
    obtain ⟨inside, runs⟩ := exists_of_withFrame outcome
    have opened := sound.enterUnder live
    have framed : (state.framed routine.scope).Sound :=
      ⟨opened.nested, opened.unique, opened.registered, opened.live⟩
    exact length_body (callsRelated_stable limit frames) ih returns framed
      (all.congr (.framed state routine.scope)) runs

end Run

namespace Program

variable {program : Program} {counts : Name → Nat}

/-- In a program that returns as it declares so do the statements at each place. -/
theorem exists_expected_restAt (declared : program.returnsAsDeclared counts = true) (place : Place) :
    ∃ expected, Stmt.allReturnAsDeclared counts expected (program.restAt place) = true := by
  induction place with
  | first => exact ⟨none, declared⟩
  | next place ih =>
    obtain ⟨expected, returns⟩ := ih
    rw [restAt]
    cases here : program.restAt place with
    | nil => exact ⟨expected, rfl⟩
    | cons tree rest =>
      rw [here, Stmt.allReturnAsDeclared, Bool.and_eq_true] at returns
      exact ⟨expected, returns.2⟩
  | inner place ih =>
    obtain ⟨expected, returns⟩ := ih
    rw [restAt]
    split
    · rename_i body rest here
      rw [here, Stmt.allReturnAsDeclared, Bool.and_eq_true] at returns
      exact ⟨expected, returns.1⟩
    · rename_i name params results body rest here
      rw [here, Stmt.allReturnAsDeclared, Stmt.returnsAsDeclared, Bool.and_eq_true,
        Bool.and_eq_true] at returns
      exact ⟨some results.length, returns.1.2⟩
    · exact ⟨none, rfl⟩
  | thenArm place ih =>
    obtain ⟨expected, returns⟩ := ih
    rw [restAt]
    split
    · rename_i condition thenArm elseArm rest here
      rw [here, Stmt.allReturnAsDeclared, Stmt.returnsAsDeclared, Bool.and_eq_true,
        Bool.and_eq_true] at returns
      exact ⟨expected, Bool.and_eq_true_iff.2 ⟨returns.1.1, rfl⟩⟩
    · exact ⟨none, rfl⟩
  | elseArm place ih =>
    obtain ⟨expected, returns⟩ := ih
    rw [restAt]
    split
    · rename_i condition thenArm elseArm rest here
      rw [here, Stmt.allReturnAsDeclared, Stmt.returnsAsDeclared, Bool.and_eq_true,
        Bool.and_eq_true] at returns
      exact ⟨expected, Bool.and_eq_true_iff.2 ⟨returns.1.2, rfl⟩⟩
    · exact ⟨none, rfl⟩

/-- A function of a program that returns as it declares. -/
theorem returnsAsDeclared_of_at? (declared : program.returnsAsDeclared counts = true) {place : Place}
    {name : Name} {routine : Routine}
    (found : program.at? place = some (.func name routine.params routine.returns routine.body)) :
    routine.ReturnsAsDeclared counts name := by
  obtain ⟨expected, returns⟩ := exists_expected_restAt declared place
  obtain ⟨rest, here⟩ := List.head?_eq_some_iff.1 found
  rw [here, Stmt.allReturnAsDeclared, Stmt.returnsAsDeclared, Bool.and_eq_true, Bool.and_eq_true,
    decide_eq_true_eq] at returns
  exact returns.1

/-- While a program runs that returns as it declares, so do all functions that are bound. -/
theorem Tracks.returnsAsDeclared {dialect : Dialect} {here : Activity} {place : Place}
    {ledger : Ledger} {state : RunState} (tracks : program.Tracks dialect here place ledger state)
    (declared : program.returnsAsDeclared counts = true) : state.ReturnsAsDeclared counts := by
  intro index entry name routine bound registered
  obtain ⟨routine', function, registered', -, -, found, -⟩ := tracks.functions bound
  obtain rfl := Option.some.inj (registered.symm.trans registered')
  exact returnsAsDeclared_of_at? declared found

end Program

end ScriptLang

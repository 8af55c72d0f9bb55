import ScriptLang.Proofs.Run.Restoration

/-!
# The functions that a run defines

Of all that a run does only one statement defines a function. What the scopes bind to functions and
the registry stay as they are while an expression, a block, a branch or an assignment runs, whether
it gives a result or meets a fault. So a part of an activity starts with the functions of the whole,
unless it is the statements behind a definition (`Activity.functions_of_mem_parts`).
-/

namespace ScriptLang

/-- What is remembered of a function; of a variable, nothing. -/
def Symbol.function? {φ : Type} : Symbol φ → Option φ
  | .variable _ => none
  | .func entry => some entry

/-- A variable is no function. -/
@[simp] theorem Symbol.function?_variable {φ : Type} (word : Word) :
    (Symbol.variable word : Symbol φ).function? = none := rfl

/-- A function is known by what is remembered of it. -/
@[simp] theorem Symbol.function?_func {φ : Type} (entry : φ) : (Symbol.func entry).function? = some entry := rfl

/-- The outline of a symbol keeps what is remembered of a function. -/
theorem Symbol.function?_outline {φ : Type} (symbol : Symbol φ) : symbol.outline.function? = symbol.function? := by
  cases symbol <;> rfl

namespace ScopeTable

variable {φ : Type} {table table' : ScopeTable φ} {index : Nat} {name other : Name} {entry : φ}

/-- What is remembered of the function that a scope binds a name to. -/
def function? (table : ScopeTable φ) (index : Nat) (name : Name) : Option φ :=
  ((table.scopes[index]?).bind (·.lookup? name)).bind Symbol.function?

/-- A scope binds a name to a function exactly if looking the name up in it finds this function. -/
theorem function?_eq_some_iff : table.function? index name = some entry ↔
    ∃ scope, table.scopes[index]? = some scope ∧ scope.lookup? name = some (.func entry) := by
  constructor
  · intro bound
    obtain ⟨symbol, found, same⟩ := Option.bind_eq_some_iff.1 bound
    obtain ⟨scope, present, found⟩ := Option.bind_eq_some_iff.1 found
    obtain word | entry' := symbol
    · cases same
    · obtain rfl := Option.some.inj same
      exact ⟨scope, present, found⟩
  · rintro ⟨scope, present, found⟩
    simp [function?, present, found]

/-- Where a name is located, the scope remembers what it means. -/
theorem function?_of_locate? {symbol : Symbol φ} (located : table.locate? name = some (index, symbol)) :
    table.function? index name = symbol.function? := by
  obtain ⟨scope, present, bound⟩ := (resolves_of_locateFrom? located).bound
  simp [function?, present, bound]

/-- In tables of one shape the scopes bind the same functions. -/
theorem function?_of_shape_eq (same : table'.shape = table.shape) (index : Nat) (name : Name) :
    table'.function? index name = table.function? index name := by
  have outlined (table : ScopeTable φ) : table.function? index name =
      ((table.shape.1[index]?).bind fun scope => scope.symbols name).bind Symbol.function? := by
    simp only [function?, shape, List.getElem?_map]
    cases table.scopes[index]? with
    | none => rfl
    | some scope =>
      simp only [Option.bind_some, Option.map_some, Scope.shape]
      cases scope.lookup? name with
      | none => rfl
      | some symbol => exact symbol.function?_outline.symm
  rw [outlined, same, ← outlined]

/-- The scope that was just opened binds no function, and the others bind what they did. -/
theorem function?_enterUnder (table : ScopeTable φ) (parent index : Nat) (name : Name) :
    (table.enterUnder parent).function? index name = table.function? index name := by
  unfold function?
  rcases Nat.lt_trichotomy index table.depth with older | rfl | beyond
  · rw [getElem?_scopes_enterUnder older]
  · have beyond : table.scopes[table.depth]? = none := List.getElem?_eq_none (Nat.le_refl _)
    rw [getElem?_scopes_enterUnder_newest, beyond]
    rfl
  · have length : (table.enterUnder parent).scopes.length ≤ index := by
      have opened := table.depth_enterUnder parent
      simp only [depth] at opened beyond ⊢
      omega
    rw [List.getElem?_eq_none length, List.getElem?_eq_none (Nat.le_of_lt beyond)]

/-- A name that was declared stands for its symbol in the current scope, and all else is as it was. -/
theorem function?_of_insert {symbol : Symbol φ} (live : table.current < table.depth)
    (inserted : table.insert name symbol = .ok table') (index : Nat) (other : Name) :
    table'.function? index other =
      if index = table.current ∧ other = name then symbol.function? else table.function? index other := by
  obtain ⟨-, rfl⟩ := insert_eq_ok_iff.1 inserted
  have present : table.scopes[table.current]? = some table.scopes[table.current] :=
    List.getElem?_eq_getElem live
  by_cases here : index = table.current
  · subst here
    by_cases same : other = name
    · simp [function?, present, Scope.lookup?_insert, same]
    · simp [function?, present, Scope.lookup?_insert, same]
  · simp [function?, here, Ne.symm here]

/-- A new variable takes no function's place. -/
theorem function?_of_declare {word : Word} (live : table.current < table.depth)
    (declared : table.declare name word = .ok table') (index : Nat) (other : Name) :
    table'.function? index other = table.function? index other := by
  rw [function?_of_insert live declared]
  split
  · rename_i new
    obtain ⟨rfl, rfl⟩ := new
    have unbound := (insert_eq_ok_iff.1 declared).1
    rw [here?] at unbound
    rw [function?, unbound]
    rfl
  · rfl

end ScopeTable

namespace RunState

/-- The scopes bind the same functions in both states, and the same routines are registered. -/
structure SameFunctions (state state' : RunState) : Prop where
  bound (index : Nat) (name : Name) :
    state'.table.function? index name = state.table.function? index name
  routines : state'.routines = state.routines

/-- A state has the functions that it has. -/
theorem SameFunctions.refl (state : RunState) : state.SameFunctions state :=
  ⟨fun _ _ => rfl, rfl⟩

/-- States that have the functions of one state have the same functions. -/
theorem SameFunctions.trans {state state' state'' : RunState} (first : state.SameFunctions state')
    (second : state'.SameFunctions state'') : state.SameFunctions state'' :=
  ⟨fun index name => (second.bound index name).trans (first.bound index name),
    second.routines.trans first.routines⟩

/-- States of one shape have the same functions. -/
theorem SameFunctions.of_shape_eq {state state' : RunState} (same : state'.shape = state.shape) :
    state.SameFunctions state' :=
  ⟨ScopeTable.function?_of_shape_eq (table_shape_of_shape_eq same), routines_of_shape_eq same⟩

/-- A new scope binds no function. -/
theorem SameFunctions.opened (state : RunState) : state.SameFunctions state.opened :=
  ⟨state.table.function?_enterUnder state.table.current, rfl⟩

/-- A frame binds no function when it is opened. -/
theorem SameFunctions.framed (state : RunState) (scope : Nat) :
    state.SameFunctions (state.framed scope) :=
  ⟨state.table.function?_enterUnder scope, rfl⟩

end RunState

namespace Run

variable {state state' : RunState}

/-- The computation is stable and defines no function. -/
def DefinesNothing {α : Type} (run : Run α) : Prop :=
  Stable .statements run run ∧ ∀ state : RunState, state.Sound → state.SameFunctions (run.after state)

/-- An expression defines no function. -/
theorem Stable.definesNothing {α : Type} {run : Run α} (stable : Stable .expression run run) :
    DefinesNothing run :=
  ⟨stable_widen stable, fun state sound => .of_shape_eq (stable state sound)⟩

/-- Two steps define nothing if neither does. -/
theorem DefinesNothing.bind {α β : Type} {first : Run α} {second : α → Run β}
    (here : DefinesNothing first) (there : ∀ value, DefinesNothing (second value)) :
    DefinesNothing (first >>= second) := by
  refine ⟨stable_bind here.1 fun value => (there value).1, fun state sound => ?_⟩
  have same := here.2 state sound
  have sound' := (here.1 state sound).1
  cases outcome : first state with
  | ok value middle =>
    rw [after, outcome, final_ok] at same sound'
    simpa [after, Bind.bind, EStateM.bind, outcome] using same.trans ((there value).2 middle sound')
  | error fault final =>
    rw [after, outcome] at same
    simpa [after, Bind.bind, EStateM.bind, outcome] using same

/-- Declaring a variable defines no function. -/
theorem definesNothing_declare (name : Name) (word : Word) : DefinesNothing (declare name word) := by
  refine ⟨respects_stable.declare name word, fun state sound => ?_⟩
  cases declared : state.table.declare name word with
  | error error =>
    simp only [after, declare, updateTable, declared, final_error]
    exact .refl state
  | ok table =>
    simp only [after, declare, updateTable, declared, final_ok]
    exact ⟨ScopeTable.function?_of_declare sound.nested.current_lt declared, rfl⟩

/-- Storing a word in a target that is not declared keeps the shape of the state. -/
theorem stable_store (op : AssignOp) (target : Name) (word : Word) :
    Stable .expression (store false op target word) (store false op target word) := by
  unfold store
  simp only [Bool.false_eq_true, if_false]
  split
  · exact respects_stable.assign target word
  · refine respects_stable.bind (respects_stable.read target) fun old => ?_
    exact respects_stable.bind (respects_stable.ofExcept fun _ => BinaryOp.isArithmetic_of_apply)
      fun combined => respects_stable.assign target combined

/-- Storing words in targets defines no function. -/
theorem definesNothing_store (declares : Bool) (op : AssignOp) (target : Name) (word : Word) :
    DefinesNothing (store declares op target word) := by
  cases declares with
  | true => exact definesNothing_declare target word
  | false => exact (stable_store op target word).definesNothing

/-- Storing values defines nothing. -/
theorem definesNothing_storeAll (declares : Bool) (op : AssignOp) (pairs : List (Name × Word)) :
    DefinesNothing (storeAll declares op pairs) := by
  induction pairs with
  | nil => exact Stable.definesNothing (respects_stable.pure ())
  | cons pair rest ih =>
    obtain ⟨target, word⟩ := pair
    exact (definesNothing_store declares op target word).bind fun _ => ih

/-- Going on unless something is refused defines no function if going on does not. -/
theorem DefinesNothing.guarded {α : Type} {refused : Prop} [Decidable refused] {fault : Fault}
    {rest : PUnit → Run α} (found : fault.isLost = false) (nothing : DefinesNothing (rest ⟨⟩)) :
    DefinesNothing (if refused then MonadExcept.throw fault >>= rest else rest ⟨⟩) := by
  split
  · exact (Stable.definesNothing (respects_stable.throw found)).bind fun _ => nothing
  · exact nothing

/-- An assignment defines no function. -/
theorem definesNothing_execAssign {call : Caller} (calls : CallsRelated Stable call call)
    (declares : Bool) (targets : List Name) (op : AssignOp) (values : List Expr) :
    DefinesNothing (execAssign call declares targets op values) := by
  have valued := respects_stable.valuesFor calls targets.length values
  unfold execAssign
  apply DefinesNothing.guarded rfl
  exact (Stable.definesNothing valued).bind fun words =>
    .guarded rfl (definesNothing_storeAll declares op _)

namespace Respects

variable {leave leave' : Leaving} {rel : Part → ∀ {α : Type}, Run α → Run α → Prop}
  (respects : Respects leave leave' rel) {call call' : Caller} (calls : CallsRelated rel call call')

include respects calls

/-- A `return` is as good as an expression. -/
theorem exec_ret (values : List Expr) (code : Option String) :
    rel .expression (Run.exec leave call (.ret values code))
      (Run.exec leave' call' (.ret values code)) := by
  rw [Run.exec, Run.exec]
  exact respects.bind (respects.results calls values) fun _ =>
    respects.bind (respects.execErrorCode code) fun _ => respects.pure _

/-- A statement that is an expression is as good as one. -/
theorem exec_expr (value : Expr) :
    rel .expression (Run.exec leave call (.expr value)) (Run.exec leave' call' (.expr value)) := by
  by_cases isCall : ∃ callee args, value = .call callee args
  · obtain ⟨callee, args, rfl⟩ := isCall
    rw [Run.exec, Run.exec]
    exact respects.bind (calls _ _ (respects.evalAll calls args)) fun _ => respects.pure _
  · rw [Run.exec, Run.exec]
    · exact respects.bind (respects.eval calls value) fun _ => respects.pure _
    · exact fun callee args same => isCall ⟨callee, args, same⟩
    · exact fun callee args same => isCall ⟨callee, args, same⟩

end Respects

/-- A statement that is no definition defines no function. -/
theorem definesNothing_exec {call : Caller} (calls : CallsRelated Stable call call) {tree : Stmt}
    (plain : ∀ name params returns body, tree ≠ .func name params returns body) :
    DefinesNothing (exec RunState.recycle call tree) := by
  have nothing (flow : Flow) : DefinesNothing (pure flow : Run Flow) :=
    Stable.definesNothing (respects_stable.pure flow)
  cases tree with
  | func name params returns body => exact absurd rfl (plain name params returns body)
  | assign declares targets op values =>
    rw [exec]
    exact (definesNothing_execAssign calls declares targets op values).bind fun _ => nothing _
  | branch condition thenArm elseArm =>
    exact (respects_stable.exec_branch calls condition thenArm elseArm).definesNothing
  | ret values code => exact (respects_stable.exec_ret calls values code).definesNothing
  | block body => exact (respects_stable.exec_block calls body).definesNothing
  | expr value => exact (respects_stable.exec_expr calls value).definesNothing
  | empty =>
    rw [exec]
    exact nothing _

/-- A definition that is met binds its name to a new entry of the registry. -/
theorem exec_func_eq_ok {leave : Leaving} {call : Caller} {name : Name} {params returns : List Name}
    {body : List Stmt} {flow : Flow}
    (outcome : exec leave call (.func name params returns body) state = .ok flow state') :
    define name params returns body state = .ok () state' := by
  rw [exec] at outcome
  simp only [Bind.bind, EStateM.bind] at outcome
  cases defined : define name params returns body state with
  | ok value final =>
    rw [defined] at outcome
    cases outcome
    rfl
  | error fault final =>
    rw [defined] at outcome
    cases outcome

end Run

namespace Activity

section Functions

variable {limit : Nat} {here part : Activity} {state state' : RunState}

/-- What starts behind a computation that defines no function finds the functions as they were. -/
theorem sameFunctions_behind {α : Type} {run : Run α} {value : α} (nothing : Run.DefinesNothing run)
    (sound : state.Sound) (outcome : run state = .ok value state') : state.SameFunctions state' := by
  have same := nothing.2 state sound
  rwa [Run.after, outcome, Run.final_ok] at same

open Run (respects_stable callsRelated_stable mem_behind)

/-- Each part of an expression finds the functions as the whole does. -/
theorem sameFunctions_expr (sound : state.Sound) : ∀ {tree : Expr},
    (part, state') ∈ (expr tree).parts limit state → state.SameFunctions state'
  | .number .., member | .string _, member | .variable _, member => by simp [parts] at member
  | .unary .., member | .cast .., member | .call .., member => by
      obtain ⟨-, rfl⟩ := by simpa [parts] using member
      exact .refl _
  | .logicPrefix op right, member => by
      simp only [parts] at member
      split at member
      · obtain ⟨-, rfl⟩ := by simpa using member
        exact .refl _
      · simp at member
  | .binary op left right, member => by
      have evaluated := respects_stable.eval (callsRelated_stable limit limit) left
      rcases List.mem_cons.1 member with first | second
      · obtain ⟨-, rfl⟩ := Prod.mk.inj first
        exact .refl _
      · obtain ⟨word, middle, outcome, last⟩ := mem_behind.1 second
        obtain ⟨-, rfl⟩ := by simpa using last
        exact sameFunctions_behind evaluated.definesNothing sound outcome
  | .logic op left right, member => by
      have evaluated := respects_stable.eval (callsRelated_stable limit limit) left
      simp only [parts] at member
      split at member
      · obtain ⟨-, rfl⟩ := by simpa using member
        exact .refl _
      · rcases List.mem_cons.1 member with first | second
        · obtain ⟨-, rfl⟩ := Prod.mk.inj first
          exact .refl _
        · obtain ⟨word, middle, outcome, last⟩ := mem_behind.1 second
          split at last
          · simp at last
          · obtain ⟨-, rfl⟩ := by simpa using last
            exact sameFunctions_behind evaluated.definesNothing sound outcome

/-- Each part of a statement finds the functions as the whole does. -/
theorem sameFunctions_stmt (sound : state.Sound) : ∀ {tree : Stmt},
    (part, state') ∈ (stmt tree).parts limit state → state.SameFunctions state'
  | .func .., member | .empty, member => by simp [parts] at member
  | .ret .., member | .expr _, member => by
      obtain ⟨-, rfl⟩ := by simpa [parts] using member
      exact .refl _
  | .block body, member => by
      obtain ⟨-, rfl⟩ := by simpa [parts] using member
      exact .opened state
  | .assign declares targets op values, member => by
      have valued := respects_stable.valuesFor (callsRelated_stable limit limit) targets.length values
      simp only [parts] at member
      split at member
      · simp at member
      · rcases List.mem_cons.1 member with first | second
        · obtain ⟨-, rfl⟩ := Prod.mk.inj first
          exact .refl _
        · obtain ⟨words, middle, outcome, last⟩ := mem_behind.1 second
          split at last
          · simp at last
          · obtain ⟨-, rfl⟩ := by simpa using last
            exact sameFunctions_behind valued.definesNothing sound outcome
  | .branch condition thenArm elseArm, member => by
      have evaluated := respects_stable.eval (callsRelated_stable limit limit) condition
      rcases List.mem_cons.1 member with first | second
      · obtain ⟨-, rfl⟩ := Prod.mk.inj first
        exact .refl _
      · obtain ⟨word, middle, outcome, last⟩ := mem_behind.1 second
        have same := sameFunctions_behind evaluated.definesNothing sound outcome
        split at last
        · obtain ⟨-, rfl⟩ := by simpa using last
          exact same
        · obtain ⟨tree, -, -, rfl⟩ := by simpa using last
          exact same

/-- Each part of a call finds the functions as the whole does: a frame opens with a scope that binds
nothing. -/
theorem sameFunctions_call {callee : Name} {args : List Expr} (sound : state.Sound)
    (member : (part, state') ∈ (call callee args).parts limit state) : state.SameFunctions state' := by
  have evaluated := respects_stable.evalAll (callsRelated_stable limit limit) args
  obtain ⟨routine, found, outcome, inner⟩ := mem_behind.1 member
  obtain ⟨rfl, -⟩ := routine_eq_ok outcome
  split at inner
  · rcases List.mem_cons.1 inner with first | second
    · obtain ⟨-, rfl⟩ := Prod.mk.inj first
      exact .refl _
    · obtain ⟨words, middle, outcome', last⟩ := mem_behind.1 second
      obtain ⟨-, rfl⟩ := by simpa using last
      exact (sameFunctions_behind evaluated.definesNothing sound outcome').trans (.framed middle _)
  · simp at inner

/-- Each part of the body of a function finds the functions as the whole does. -/
theorem sameFunctions_frame {routine : Routine} {words : List Word} (sound : state.Sound)
    (member : (part, state') ∈ (frame routine words).parts limit state) :
    state.SameFunctions state' := by
  have params := Run.definesNothing_storeAll true .set (routine.params.zip words)
  have returns := Run.definesNothing_storeAll true .set (routine.returns.map fun result => (result, 0))
  rcases List.mem_cons.1 member with first | later
  · obtain ⟨-, rfl⟩ := Prod.mk.inj first
    exact .refl _
  · obtain ⟨_, middle, outcome, later⟩ := mem_behind.1 later
    have same := sameFunctions_behind params sound outcome
    rcases List.mem_cons.1 later with second | last
    · obtain ⟨-, rfl⟩ := Prod.mk.inj second
      exact same
    · obtain ⟨_, middle', outcome', last⟩ := mem_behind.1 last
      obtain ⟨-, rfl⟩ := by simpa using last
      have sound' := (params.1.extends_after sound).1
      rw [Run.after, outcome, Run.final_ok] at sound'
      exact same.trans (sameFunctions_behind returns sound' outcome')

/-- Each part of an activity finds the functions as the whole does, but for the statements behind a
definition. -/
theorem functions_of_mem_parts (sound : state.Sound) (member : (part, state') ∈ here.parts limit state) :
    state.SameFunctions state' ∨ ∃ name params returns body rest,
      here = stmts (.func name params returns body :: rest) ∧ part = stmts rest ∧
        Run.define name params returns body state = .ok () state' := by
  cases here with
  | expr tree => exact .inl (sameFunctions_expr sound member)
  | stmt tree => exact .inl (sameFunctions_stmt sound member)
  | call callee args => exact .inl (sameFunctions_call sound member)
  | frame routine words => exact .inl (sameFunctions_frame sound member)
  | exprs trees =>
    obtain _ | ⟨tree, rest⟩ := trees
    · simp [parts] at member
    · have evaluated := respects_stable.eval (callsRelated_stable limit limit) tree
      rcases List.mem_cons.1 member with first | second
      · obtain ⟨-, rfl⟩ := Prod.mk.inj first
        exact .inl (.refl _)
      · obtain ⟨word, middle, outcome, last⟩ := mem_behind.1 second
        obtain ⟨-, rfl⟩ := by simpa using last
        exact .inl (sameFunctions_behind evaluated.definesNothing sound outcome)
  | store declares op pairs =>
    obtain _ | ⟨⟨target, word⟩, rest⟩ := pairs
    · simp [parts] at member
    · have stored := Run.definesNothing_store declares op target word
      obtain ⟨value, middle, outcome, last⟩ := mem_behind.1 member
      obtain ⟨-, rfl⟩ := by simpa using last
      exact .inl (sameFunctions_behind stored sound outcome)
  | arm tree =>
    obtain ⟨-, rfl⟩ := by simpa [parts] using member
    unfold armState
    split
    · exact .inl (.refl _)
    · exact .inl (.opened state)
  | stmts trees =>
    obtain _ | ⟨tree, rest⟩ := trees
    · simp [parts] at member
    · rcases List.mem_cons.1 member with first | second
      · obtain ⟨-, rfl⟩ := Prod.mk.inj first
        exact .inl (.refl _)
      · obtain ⟨flow, middle, outcome, last⟩ := mem_behind.1 second
        split at last
        · obtain ⟨rfl, rfl⟩ := by simpa using last
          -- Of all statements a definition alone binds a function.
          by_cases defines : ∃ name params returns body, tree = .func name params returns body
          · obtain ⟨name, params, returns, body, rfl⟩ := defines
            exact .inr ⟨name, params, returns, body, rest, rfl, rfl, Run.exec_func_eq_ok outcome⟩
          · have nothing := Run.definesNothing_exec (callsRelated_stable limit limit)
              fun name params returns body same => defines ⟨name, params, returns, body, same⟩
            exact .inl (sameFunctions_behind nothing sound outcome)
        · simp at last

end Functions

end Activity

end ScriptLang

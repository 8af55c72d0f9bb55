import ScriptLang.Proofs.Run.Activity

/-!
# What is restored

Whether they give a value, a `return` or a fault, expressions, calls, blocks and branches leave the
scopes, the frames and the registry as they found them: the same scopes are open and bind the same
names to the same functions, and only the values of variables and the error code may differ. A
statement of another kind may bind names in the current scope; in a block or in an arm of a branch
that scope is closed at the end, by whichever way it is left.
-/

namespace ScriptLang

namespace Run.Respects

variable {leave leave' : Leaving} {rel : Part → ∀ {α : Type}, Run α → Run α → Prop}
  (respects : Respects leave leave' rel) {call call' : Caller} (calls : CallsRelated rel call call')

include respects calls

/-- A block is as good as an expression, since its names are bound in a scope of its own. -/
theorem exec_block (body : List Stmt) :
    rel .expression (Run.exec leave call (.block body)) (Run.exec leave' call' (.block body)) := by
  rw [Run.exec, Run.exec]
  exact respects.withScope (respects.execAll calls body)

/-- An arm of a branch is as good as an expression. -/
theorem exec_arm (arm : Stmt) :
    rel .expression (Run.withArmScope leave arm (Run.exec leave call arm))
      (Run.withArmScope leave' arm (Run.exec leave' call' arm)) := by
  unfold Run.withArmScope
  split
  · exact respects.exec_block calls _
  · exact respects.withScope (respects.exec calls arm)

/-- A branch is as good as an expression. -/
theorem exec_branch (condition : Expr) (thenArm : Stmt) (elseArm : Option Stmt) :
    rel .expression (Run.exec leave call (.branch condition thenArm elseArm))
      (Run.exec leave' call' (.branch condition thenArm elseArm)) := by
  rw [Run.exec, Run.exec]
  refine respects.bind (respects.eval calls condition) fun word => ?_
  split
  · exact respects.exec_arm calls thenArm
  · cases elseArm with
    | none => exact respects.pure _
    | some arm => exact respects.exec_arm calls arm

end Run.Respects

namespace RunState

/-- The second state has the scopes, the frames and the registry of the first: the same scopes are
open, the same one is current, and each binds the same names, to variables where it did before and
to the same functions. -/
structure Restores (state state' : RunState) : Prop where
  scopes : state'.table.depth = state.table.depth
  current : state'.table.current = state.table.current
  frames : state'.depth = state.depth
  routines : state'.routines = state.routines
  parent {index : Nat} :
    (state'.table.scopes[index]?).map Scope.parent = (state.table.scopes[index]?).map Scope.parent
  bindsVariable {index : Nat} {scope scope' : Scope Nat} {name : Name} :
    state.table.scopes[index]? = some scope → state'.table.scopes[index]? = some scope' →
      ((∃ word, scope'.lookup? name = some (.variable word)) ↔
        ∃ word, scope.lookup? name = some (.variable word))
  bindsFunction {index entry : Nat} {scope scope' : Scope Nat} {name : Name} :
    state.table.scopes[index]? = some scope → state'.table.scopes[index]? = some scope' →
      (scope'.lookup? name = some (.func entry) ↔ scope.lookup? name = some (.func entry))

/-- Symbols of one outline are both variables, or the same function. -/
theorem outline_eq_iff {symbol symbol' : Option (Symbol Nat)}
    (same : symbol'.map Symbol.outline = symbol.map Symbol.outline) :
    ((∃ word, symbol' = some (.variable word)) ↔ ∃ word, symbol = some (.variable word)) ∧
      ∀ entry, symbol' = some (.func entry) ↔ symbol = some (.func entry) := by
  rcases symbol with _ | ⟨_ | _⟩ <;> rcases symbol' with _ | ⟨_ | _⟩ <;>
    simp_all [Symbol.outline]

/-- A state of the same shape has the scopes, the frames and the registry. -/
theorem restores_of_shape_eq {state state' : RunState} (same : state'.shape = state.shape) :
    state.Restores state' := by
  have tables := table_shape_of_shape_eq same
  have shapes (index : Nat) := ScopeTable.shape_getElem?_of_shape_eq tables index
  have outlines {index : Nat} {scope scope' : Scope Nat}
      (present : state.table.scopes[index]? = some scope)
      (present' : state'.table.scopes[index]? = some scope') (name : Name) :
      (scope'.lookup? name).map Symbol.outline = (scope.lookup? name).map Symbol.outline := by
    have shape : scope'.shape = scope.shape := by
      simpa [present, present'] using shapes index
    exact congrFun (congrArg Scope.Shape.symbols shape) name
  exact {
    scopes := ScopeTable.depth_eq_of_shape_eq tables
    current := ScopeTable.current_eq_of_shape_eq tables
    frames := congrArg (fun shape => shape.2.2) same
    routines := routines_of_shape_eq same
    parent := fun {index} => by
      simpa [Function.comp_def, Scope.shape] using congrArg (Option.map Scope.Shape.parent) (shapes index)
    bindsVariable := fun present present' => (outline_eq_iff (outlines present present' _)).1
    bindsFunction := fun present present' => (outline_eq_iff (outlines present present' _)).2 _ }

end RunState

/-- From every state that a run goes through, an expression, a call, a block and a branch lead to a
state with the same scopes, frames and registry, whether they give a result or meet a fault. -/
theorem Program.Visits.restores {program : Program} {limit : Nat} {state : RunState}
    (visits : program.Visits limit state) :
    (∀ tree, state.Restores (((Activity.expr tree).run limit).after state)) ∧
    (∀ callee args, state.Restores (((Activity.call callee args).run limit).after state)) ∧
    (∀ body, state.Restores (((Activity.stmt (.block body)).run limit).after state)) ∧
    ∀ condition thenArm elseArm,
      state.Restores (((Activity.stmt (.branch condition thenArm elseArm)).run limit).after state) := by
  have sound := visits.sound
  have respects := Run.respects_stable
  have calls := Run.callsRelated_stable limit limit
  refine ⟨fun tree => ?_, fun callee args => ?_, fun body => ?_, fun condition thenArm elseArm => ?_⟩
  · exact RunState.restores_of_shape_eq (respects.eval calls tree state sound)
  · have stable := calls callee args.length (respects.evalAll calls args)
    exact RunState.restores_of_shape_eq (stable state sound)
  · exact RunState.restores_of_shape_eq (respects.exec_block calls body state sound)
  · have stable := respects.exec_branch calls condition thenArm elseArm
    exact RunState.restores_of_shape_eq (stable state sound)

/-- A function that defines another one and then divides by its parameter. -/
def Routine.dividing : Routine where
  params := ["n"]
  returns := []
  body :=
    [.func "inner" [] [] [], .ret [.binary .div (.number "1" 1) (.variable "n")] none]
  scope := 0

/-- The definition of that function, and a call with zero. -/
def Program.dividing : Program :=
  ⟨[], [.func "outer" Routine.dividing.params [] Routine.dividing.body,
    .expr (.call "outer" [.number "0" 0])]⟩

/-- A call that ends in a division by zero leaves a state that restores the one from before. -/
theorem Program.Visits.restores_dividing :
    let defined : RunState :=
      ⟨⟨[⟨none, [("outer", .func 0)]⟩], 0⟩, [Routine.dividing], none, 0⟩
    let call := Activity.call "outer" [.number "0" 0]
    Program.dividing.Visits 1 defined ∧
      (∃ final, call.run 1 defined = .error .divisionByZero final) ∧
        defined.Restores ((call.run 1).after defined) := by
  intro defined call
  have rest : (Activity.stmts [.expr (.call "outer" [.number "0" 0])], defined) ∈
      (Activity.stmts Program.dividing.body).parts 1 RunState.new := .tail _ (.head _)
  have visits : Program.dividing.Visits 1 defined := ⟨_, _, _, .part .whole rest, .inl rfl⟩
  exact ⟨visits, ⟨_, rfl⟩, visits.restores.2.1 _ _⟩

end ScriptLang

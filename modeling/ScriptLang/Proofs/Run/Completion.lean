import Mathlib.Data.List.Forall2
import ScriptLang.Proofs.Emit.Completion
import ScriptLang.Proofs.Run.Hiding

/-!
# Falling off the end of a function

A function that ends without a `return` gives the values of its declared results. That is what the
`return` does that the body is lacking, so a completed body gives the same as the body does. A
program and the completed program run side by side: where one has registered a routine, the other
has registered the same routine or the completed one (`Routine.MayComplete`), and all else of their
states is equal. So they end in the same way (`Program.execute_completed`).
-/

namespace ScriptLang

/-- The routine that ends in the `return` that it is lacking. -/
def Routine.completed (routine : Routine) : Routine :=
  { routine with
    body := Stmt.completedAll routine.body ++ Stmt.closing routine.returns routine.body }

/-- The second routine is the first, or the first one completed. -/
inductive Routine.MayComplete (routine : Routine) : Routine → Prop where
  | same : MayComplete routine routine
  | completed : MayComplete routine routine.completed

/-- The states are equal but for routines that are completed in the second. -/
structure RunState.MayComplete (state twin : RunState) : Prop where
  table : twin.table = state.table
  routines : List.Forall₂ Routine.MayComplete state.routines twin.routines
  errorCode : twin.errorCode = state.errorCode
  depth : twin.depth = state.depth

namespace Run

section Bodies

variable {leave : Leaving} {call : Caller}

/-- Statements in front of others run first, and the others only if no `return` was met. -/
theorem execAll_append (first second : List Stmt) :
    execAll leave call (first ++ second) = (do
      match ← execAll leave call first with
      | .next => execAll leave call second
      | .returned values => return .returned values) := by
  induction first with
  | nil => rfl
  | cons stmt rest ih =>
    simp only [List.cons_append, execAll, ih, bind_assoc]
    congr 1
    funext flow
    cases flow with
    | next => rfl
    | returned values => simp only [pure_bind]

/-- Expressions that are variables are read one after the other. -/
theorem evalAll_variables (names : List Name) :
    evalAll call (names.map .variable) = names.mapM read := by
  induction names with
  | nil => rfl
  | cons name rest ih =>
    rw [List.map_cons, List.mapM_cons, evalAll, ih, eval]

/-- The values of variables are read one by one. -/
theorem results_variables (names : List Name) :
    results call (names.map .variable) = names.mapM read := by
  have read : evalAll call (names.map .variable) = names.mapM read := evalAll_variables names
  rw [← read]
  match names with
  | [] | [_] | _ :: _ :: _ => rfl

/-- The `return` of declared results gives what they hold. -/
theorem execAll_returning (returns : List Name) :
    execAll leave call [Stmt.returning returns] = (do
      let words ← returns.mapM read
      return .returned words) := by
  simp only [execAll, Stmt.returning, exec, results_variables, execErrorCode, bind_assoc, pure_bind]

/-- A body gives the same if it ends in the `return` that it is lacking. -/
theorem body_closing (routine : Routine) (stmts : List Stmt) (args : List Word) :
    body leave call
        { routine with body := stmts ++ Stmt.closing routine.returns routine.body } args =
      body leave call { routine with body := stmts } args := by
  unfold Stmt.closing
  split
  · rw [List.append_nil]
  · unfold body
    simp only [execAll_append, execAll_returning, bind_assoc]
    congr 1
    funext _
    congr 1
    funext _
    congr 1
    funext flow
    cases flow with
    | next => simp only [bind_assoc, pure_bind, bind_pure]
    | returned values => simp only [pure_bind]

end Bodies

/-- From states that are equal but for completed routines the two computations have the same
outcome, in such states again. -/
def Completes (_part : Part) {α : Type} (run run' : Run α) : Prop :=
  ∀ ⦃state twin : RunState⦄, state.MayComplete twin →
    SameOutcome RunState.MayComplete (run state) (run' twin)

section Completes

variable {part : Part} {α β : Type}

/-- Two steps complete each other if the first do and the second do behind every value. -/
theorem completes_bind {first first' : Run α} {second second' : α → Run β}
    (here : Completes part first first')
    (there : ∀ value, Completes part (second value) (second' value)) :
    Completes part (first >>= second) (first' >>= second') := by
  intro state twin alike
  have outcomes := here alike
  simp only [Bind.bind, EStateM.bind]
  generalize first state = result, first' twin = result' at outcomes ⊢
  cases outcomes with
  | ok alike' => exact there _ alike'
  | error alike' => exact .error alike'

/-- What is done to the table has the same outcome, since the tables are equal. -/
theorem completes_updateTable (change : ScopeTable Nat → Except NameError (ScopeTable Nat)) :
    Completes part (updateTable change) (updateTable change) := by
  intro state twin alike
  simp only [updateTable, alike.table]
  cases change state.table with
  | ok table => exact .ok ⟨rfl, alike.routines, alike.errorCode, alike.depth⟩
  | error error => exact .error alike

/-- Reading a variable does not depend on the routines. -/
theorem completes_read (name : Name) : Completes part (read name) (read name) := by
  intro state twin alike
  simp only [read, alike.table]
  cases state.table.value name with
  | ok word => exact .ok alike
  | error error => exact .error alike

/-- A function is registered alike if its body is completed or not. -/
theorem completes_define (name : Name) {params returns : List Name} {stmts stmts' : List Stmt}
    (completes : ∀ scope, Routine.MayComplete ⟨params, returns, stmts, scope⟩
      ⟨params, returns, stmts', scope⟩) :
    Completes part (define name params returns stmts) (define name params returns stmts') := by
  intro state twin alike
  simp only [define, alike.table, ← alike.routines.length_eq]
  cases state.table.declareFunction name state.routines.length with
  | ok table =>
    have routines := List.rel_append alike.routines (.cons (completes table.current) .nil)
    exact .ok ⟨rfl, routines, alike.errorCode, alike.depth⟩
  | error error => exact .error alike

/-- In a scope within the same one two computations complete each other. -/
theorem completes_withScopeUnder {run run' : Run α} (parent : Nat)
    (inner : Completes part run run') :
    Completes part (withScopeUnder RunState.recycle parent run)
      (withScopeUnder RunState.recycle parent run') := by
  intro state twin alike
  have closed {final final' : RunState} (alike' : final.MayComplete final') :
      (RunState.recycle state final).MayComplete (RunState.recycle twin final') := by
    refine ⟨?_, ?_, alike'.errorCode, alike'.depth⟩
    · simp only [RunState.recycle, alike.table, alike'.table]
    · simp only [RunState.recycle, ← alike.routines.length_eq]
      exact List.forall₂_take _ alike'.routines
  have outcomes := @inner { state with table := state.table.enterUnder parent }
    { twin with table := twin.table.enterUnder parent }
    ⟨congrArg (·.enterUnder parent) alike.table, alike.routines, alike.errorCode, alike.depth⟩
  simp only [withScopeUnder]
  generalize run _ = result, run' _ = result' at outcomes ⊢
  cases outcomes with
  | ok alike' => exact .ok (closed alike')
  | error alike' => exact .error (closed alike')

/-- In a frame within the same scope two computations complete each other. -/
theorem completes_withFrame {run run' : Run α} (parent : Nat) (inner : Completes part run run') :
    Completes part (withFrame RunState.recycle parent run)
      (withFrame RunState.recycle parent run') := by
  intro state twin alike
  have outcomes := @completes_withScopeUnder part α run run' parent inner
    { state with depth := state.depth + 1 } { twin with depth := twin.depth + 1 }
    ⟨alike.table, alike.routines, alike.errorCode, congrArg (· + 1) alike.depth⟩
  have closed {final final' : RunState} (alike' : final.MayComplete final') :
      RunState.MayComplete { final with depth := final.depth - 1 }
        { final' with depth := final'.depth - 1 } :=
    ⟨alike'.table, alike'.routines, alike'.errorCode, congrArg (· - 1) alike'.depth⟩
  simp only [withFrame]
  generalize withScopeUnder RunState.recycle parent run _ = result,
    withScopeUnder RunState.recycle parent run' _ = result' at outcomes ⊢
  cases outcomes with
  | ok alike' => exact .ok (closed alike')
  | error alike' => exact .error (closed alike')

/-- The walk respects equality but for completed routines. -/
theorem respects_completes : Respects RunState.recycle RunState.recycle Completes where
  pure _ := fun _ _ alike => .ok alike
  throw _ := fun _ _ alike => .error alike
  bind := completes_bind
  widen completes := completes
  read := completes_read
  assign _ _ := completes_updateTable _
  setErrorCode _ := fun _ _ alike => .ok ⟨alike.table, alike.routines, rfl, alike.depth⟩
  declare _ _ := completes_updateTable _
  define name _ _ _ := completes_define name fun _ => .same
  withScope inner state twin alike := by
    have outcomes := completes_withScopeUnder state.table.current inner alike
    simpa only [withScope, alike.table] using outcomes

end Completes

section Statements

variable {call call' : Caller}

/-- An arm and the completed arm have scopes of the same kind. -/
theorem completes_withArmScope {arm : Stmt} {run run' : Run Flow}
    (inner : Completes .statements run run') :
    Completes .statements (withArmScope RunState.recycle arm run)
      (withArmScope RunState.recycle arm.completed run') := by
  cases arm with
  | block body => exact inner
  | assign | branch | func | ret | expr | empty => exact respects_completes.withScope inner

mutual

/-- A statement does what the completed statement does, if calls do. -/
theorem completes_exec (calls : CallsRelated Completes call call') : ∀ stmt : Stmt,
    Completes .statements (exec RunState.recycle call stmt)
      (exec RunState.recycle call' stmt.completed)
  | .assign .. | .ret .. | .expr _ | .empty => respects_completes.exec calls _
  | .branch test thenArm elseArm => by
      rw [Stmt.completed, exec, exec]
      refine completes_bind (respects_completes.eval calls test) fun word => ?_
      split
      · exact completes_withArmScope (completes_exec calls thenArm)
      · exact completes_execElse calls elseArm
  | .func name params returns body => by
      rw [Stmt.completed, exec, exec]
      exact completes_bind (completes_define name fun _ => .completed) fun _ _ _ alike => .ok alike
  | .block body => by
      rw [Stmt.completed, exec, exec]
      exact respects_completes.withScope (completes_execAll calls body)

/-- The arm behind `else` and its completion complete each other. -/
theorem completes_execElse (calls : CallsRelated Completes call call') : ∀ arm : Option Stmt,
    Completes .statements (execElse RunState.recycle call arm)
      (execElse RunState.recycle call' (Stmt.completedElse arm))
  | none => respects_completes.execElse calls none
  | some arm => by
      rw [Stmt.completedElse, execElse, execElse]
      exact completes_withArmScope (completes_exec calls arm)

/-- The statements of a body and their completions complete each other. -/
theorem completes_execAll (calls : CallsRelated Completes call call') : ∀ body : List Stmt,
    Completes .statements (execAll RunState.recycle call body)
      (execAll RunState.recycle call' (Stmt.completedAll body))
  | [] => respects_completes.execAll calls []
  | stmt :: rest => by
      rw [Stmt.completedAll, execAll, execAll]
      refine completes_bind (completes_exec calls stmt) fun flow => ?_
      cases flow with
      | next => exact completes_execAll calls rest
      | returned values => exact fun _ _ alike => .ok alike

end

/-- The body of a routine gives what the body of the completed routine gives, if calls do. -/
theorem completes_body (calls : CallsRelated Completes call call') {routine routine' : Routine}
    (completes : routine.MayComplete routine') (words : List Word) :
    Completes .statements (body RunState.recycle call routine words)
      (body RunState.recycle call' routine' words) := by
  cases completes with
  | same => exact respects_completes.body calls routine routine.scope words
  | completed =>
    rw [Routine.completed, body_closing]
    refine completes_bind (respects_completes.storeAll true .set _) fun _ => ?_
    refine completes_bind (respects_completes.storeAll true .set _) fun _ => ?_
    refine completes_bind (completes_execAll calls routine.body) fun flow => ?_
    cases flow with
    | next => exact respects_completes.mapM_read routine.returns
    | returned values => exact fun _ _ alike => .ok alike

end Statements

/-- Calls do the same if entering a routine does what entering the completed one does. -/
theorem callsRelated_completes_of_enter {limit : Nat} {enter : Routine → List Word → Run (List Word)}
    (entered : ∀ {routine routine' : Routine} (words : List Word), routine.MayComplete routine' →
      Completes .expression (enter routine words) (enter routine' words)) :
    CallsRelated Completes (call limit enter) (call limit enter) := by
  intro callee arity args args' related state twin alike
  rw [call_apply, call_apply, alike.table, alike.depth]
  split
  · exact .error alike
  · exact .error alike
  · rename_i entry _
    cases registered : state.routines[entry]? with
    | none =>
      have missing : twin.routines[entry]? = none := by
        rw [List.getElem?_eq_none_iff] at registered ⊢
        rwa [← alike.routines.length_eq]
      rw [missing]
      exact .error alike
    | some routine =>
      obtain ⟨live, rfl⟩ := List.getElem?_eq_some_iff.1 registered
      have live' : entry < twin.routines.length := alike.routines.length_eq ▸ live
      have completes := (List.forall₂_iff_get.1 alike.routines).2 entry live live'
      simp only [List.get_eq_getElem] at completes
      generalize state.routines[entry] = routine at completes ⊢
      rw [List.getElem?_eq_getElem live']
      generalize twin.routines[entry] = routine' at completes ⊢
      have params : routine'.params = routine.params := by cases completes <;> rfl
      simp only [params]
      split
      · exact .error alike
      · split
        · exact .error alike
        · exact completes_bind related (fun words => entered words completes) alike

/-- Calls do the same, however many frames can be opened. -/
theorem callsRelated_completes (limit frames : Nat) :
    CallsRelated Completes (call limit (enter RunState.recycle limit frames))
      (call limit (enter RunState.recycle limit frames)) := by
  induction frames with
  | zero => exact callsRelated_completes_of_enter fun _ _ _ _ alike => .error alike
  | succ frames ih =>
    refine callsRelated_completes_of_enter fun {routine routine'} words completes => ?_
    have scope : routine'.scope = routine.scope := by cases completes <;> rfl
    rw [enter, enter, scope]
    exact completes_withFrame routine.scope (completes_body ih completes words)

end Run

/-- What a function gives that falls off its end is what the `return` gives that is printed for it:
with that `return` written at the end of every body that is lacking it, a program runs to the same
execution or fault under each limit, and it is printed as before. -/
theorem Program.execute_completed (limit : Nat) (program : Program) :
    program.completed.execute limit = program.execute limit ∧
      ∀ dialect, program.completed.emit dialect = program.emit dialect := by
  refine ⟨?_, fun dialect => program.emit_completed dialect⟩
  have calls := Run.callsRelated_completes limit limit
  have alike : RunState.new.MayComplete RunState.new := ⟨rfl, .nil, rfl, rfl⟩
  have outcomes := Run.completes_execAll calls program.body alike
  unfold execute executeLeaving walk completed
  generalize Run.execAll RunState.recycle _ program.body RunState.new = result,
    Run.execAll RunState.recycle _ (Stmt.completedAll program.body) RunState.new = result'
    at outcomes ⊢
  cases outcomes with
  | ok alike => simp only [alike.table, alike.errorCode]
  | error _ => rfl

end ScriptLang

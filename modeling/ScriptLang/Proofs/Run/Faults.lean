import ScriptLang.Proofs.Tree.Proper
import ScriptLang.Run.Execution

/-!
# What stops a proper program

The interpreter is written for trees of every shape, with faults for those that no text gives. While
a program runs, the bodies of the functions that it registers are parts of the program, so they are
proper if the program is. Every computation over proper trees keeps to this, and the faults that it
meets are those of operands, names, counts and limits.
-/

namespace ScriptLang

/-- A proper program can meet the fault: no operand is missing, every error code is a number, and
the only operators without a meaning are those on addresses. -/
def Fault.IsExpected : Fault → Prop
  | .missingOperand _ | .errorCodeNotNumber _ => False
  | .unsupportedOperator symbol => symbol = "*" ∨ symbol = "&"
  | _ => True

/-- An overflow is expected. -/
theorem Fault.isExpected_of_orOverflow {symbol : String} {result : Option Word} {fault : Fault}
    (failed : orOverflow symbol result = .error fault) : fault.IsExpected := by
  cases result with
  | some word => cases failed
  | none =>
    cases failed
    exact trivial

/-- The faults of unary operators are expected. -/
theorem UnaryOp.isExpected_of_apply {op : UnaryOp} {operand : Word} {fault : Fault}
    (failed : op.apply operand = .error fault) : fault.IsExpected := by
  cases op with
  | negate => exact Fault.isExpected_of_orOverflow failed
  | plus | not | bitNot => cases failed
  | deref =>
    cases failed
    exact .inl rfl
  | addressOf =>
    cases failed
    exact .inr rfl

/-- The faults of binary operators are expected. -/
theorem BinaryOp.isExpected_of_apply {op : BinaryOp} {left right : Word} {fault : Fault}
    (failed : op.apply left right = .error fault) : fault.IsExpected := by
  cases op with
  | add | sub | mul => exact Fault.isExpected_of_orOverflow failed
  | div =>
    by_cases zero : right = 0
    · rw [apply, if_pos zero] at failed
      cases failed
      exact trivial
    · rw [apply, if_neg zero] at failed
      exact Fault.isExpected_of_orOverflow failed
  | bitAnd | bitOr | bitXor => cases failed

/-- The bodies of all registered functions are proper. -/
def RunState.Proper (state : RunState) : Prop :=
  ∀ routine ∈ state.routines, Stmt.AllProper routine.body

namespace Run

variable {α β : Type}

/-- From a state with proper functions the computation leads to such a state or meets an expected
fault. -/
def Tame (run : Run α) : Prop :=
  ∀ ⦃state : RunState⦄, state.Proper →
    match run state with
    | .ok _ final => final.Proper
    | .error fault _ => fault.IsExpected

section Steps

/-- Giving a value is tame. -/
theorem tame_pure (value : α) : Tame (pure value) :=
  fun _ proper => proper

/-- Stopping at an expected fault is tame. -/
theorem tame_throw {fault : Fault} (expected : fault.IsExpected) : Tame (throw fault : Run α) :=
  fun _ _ => expected

/-- Two steps are tame if each is. -/
theorem Tame.bind {first : Run α} {second : α → Run β} (here : Tame first)
    (there : ∀ value, Tame (second value)) : Tame (first >>= second) := by
  intro state proper
  have leads := here proper
  simp only [Bind.bind, EStateM.bind]
  cases outcome : first state with
  | ok value middle =>
    rw [outcome] at leads
    exact there value leads
  | error fault middle =>
    rw [outcome] at leads
    exact leads

/-- Taking a result is tame if its faults are expected. -/
theorem tame_ofExcept {result : Except Fault α}
    (expected : ∀ fault, result = .error fault → fault.IsExpected) : Tame (ofExcept result) := by
  cases result with
  | ok value => exact tame_pure value
  | error fault => exact tame_throw (expected fault rfl)

/-- Going on unless something is refused is tame if the refusal is expected and going on is tame. -/
theorem tame_guarded {refused : Prop} [Decidable refused] {fault : Fault} {rest : PUnit → Run α}
    (expected : refused → fault.IsExpected) (goesOn : Tame (rest ⟨⟩)) :
    Tame (if refused then MonadExcept.throw fault >>= rest else rest ⟨⟩) := by
  split
  · rename_i stops
    exact fun _ _ => expected stops
  · exact goesOn

/-- A change of the table is tame: it fails on names only and keeps the routines. -/
theorem tame_updateTable (change : ScopeTable Nat → Except NameError (ScopeTable Nat)) :
    Tame (updateTable change) := by
  intro state proper
  unfold updateTable
  cases change state.table with
  | ok table => exact proper
  | error error => exact trivial

/-- Reading a variable is tame. -/
theorem tame_read (name : Name) : Tame (read name) := by
  intro state proper
  unfold read
  cases state.table.value name with
  | ok word => exact proper
  | error error => exact trivial

/-- A function with a proper body can be registered. -/
theorem tame_define {name : Name} {params returns : List Name} {body : List Stmt}
    (proper : Stmt.AllProper body) : Tame (define name params returns body) := by
  intro state registered
  unfold define
  cases state.table.declareFunction name state.routines.length with
  | error error => exact trivial
  | ok table =>
    intro routine member
    rcases List.mem_append.1 member with old | new
    · exact registered routine old
    · obtain rfl := List.mem_singleton.1 new
      exact proper

/-- A scope that is closed leaves some of the functions that were registered in it. -/
theorem Tame.withScopeUnder {run : Run α} (tame : Tame run) (parent : Nat) :
    Tame (withScopeUnder RunState.recycle parent run) := by
  intro state proper
  have leads := @tame { state with table := state.table.enterUnder parent } proper
  unfold Run.withScopeUnder
  cases outcome : run { state with table := state.table.enterUnder parent } with
  | ok value final =>
    rw [outcome] at leads
    exact fun routine member => leads routine (List.mem_of_mem_take member)
  | error fault final =>
    rw [outcome] at leads
    exact leads

/-- A tame computation is tame in a scope of its own. -/
theorem Tame.withScope {run : Run α} (tame : Tame run) :
    Tame (withScope RunState.recycle run) :=
  fun state proper => tame.withScopeUnder state.table.current proper

/-- A tame computation is tame in a frame of its own. -/
theorem Tame.withFrame {run : Run α} (tame : Tame run) (parent : Nat) :
    Tame (withFrame RunState.recycle parent run) := by
  intro state proper
  have tame' := tame.withScopeUnder parent
  have leads := @tame' { state with depth := state.depth + 1 } proper
  unfold Run.withFrame
  cases outcome : Run.withScopeUnder RunState.recycle parent run
      { state with depth := state.depth + 1 } with
  | ok value final | error fault final =>
    rw [outcome] at leads
    exact leads

/-- Storing a value is tame. -/
theorem tame_store (declares : Bool) (op : AssignOp) (target : Name) (word : Word) :
    Tame (store declares op target word) := by
  unfold store
  split
  · exact tame_updateTable _
  · split
    · exact tame_updateTable _
    · exact (tame_read target).bind fun _ =>
        (tame_ofExcept fun _ => BinaryOp.isExpected_of_apply).bind fun _ => tame_updateTable _

/-- Storing several values is tame. -/
theorem tame_storeAll (declares : Bool) (op : AssignOp) (pairs : List (Name × Word)) :
    Tame (storeAll declares op pairs) := by
  induction pairs with
  | nil => exact tame_pure ()
  | cons pair rest ih =>
    obtain ⟨target, word⟩ := pair
    exact (tame_store declares op target word).bind fun _ => ih

/-- Reading several variables is tame. -/
theorem tame_mapM_read (names : List Name) : Tame (names.mapM read) := by
  induction names with
  | nil => exact tame_pure []
  | cons name rest ih =>
    rw [List.mapM_cons]
    exact (tame_read name).bind fun _ => ih.bind fun _ => tame_pure _

/-- The error code of a proper `return` is a number. -/
theorem tame_execErrorCode {code : Option String}
    (numeral : ∀ literal ∈ code, ∃ value, IsNumeral literal value) : Tame (execErrorCode code) := by
  cases code with
  | none => exact tame_pure ()
  | some literal =>
    obtain ⟨value, -, denotes⟩ := numeral literal rfl
    simp only [execErrorCode, denotes]
    exact fun _ proper => proper

end Steps

/-- Calls with tame arguments are tame. -/
def CallsTame (call : Caller) : Prop :=
  ∀ (callee : Name) (arity : Nat) {args : Run (List Word)}, Tame args → Tame (call callee arity args)

section Walk

variable {call : Caller}

mutual

/-- Evaluating a proper expression is tame. -/
theorem tame_eval (calls : CallsTame call) : ∀ {tree : Expr}, tree.Proper → Tame (eval call tree)
  | .number _ value, _ => tame_pure value
  | .string _, _ => tame_throw trivial
  | .variable name, _ => tame_read name
  | .unary op operand, proper => by
      rw [Expr.proper_unary] at proper
      exact (tame_eval calls proper).bind fun _ => tame_ofExcept fun _ => UnaryOp.isExpected_of_apply
  | .binary op left right, proper => by
      obtain ⟨first, second⟩ := Expr.proper_binary.1 proper
      exact (tame_eval calls first).bind fun _ => (tame_eval calls second).bind fun _ =>
        tame_ofExcept fun _ => BinaryOp.isExpected_of_apply
  | .cast value type, proper => by
      rw [eval]
      exact tame_eval calls (Expr.proper_cast.1 proper).1
  | .logic op left right, proper => by
      obtain ⟨joins, first, second⟩ := Expr.proper_logic.1 proper
      rw [eval]
      · refine (tame_eval calls first).bind fun word => ?_
        split
        · exact tame_pure _
        · exact (tame_eval calls second).bind fun _ => tame_pure _
      · exact joins
  | .logicPrefix op right, proper => by
      obtain ⟨rfl, operand⟩ := Expr.proper_logicPrefix.1 proper
      exact (tame_eval calls operand).bind fun _ => tame_pure _
  | .call callee args, proper => by
      obtain ⟨-, words⟩ := Expr.proper_call.1 proper
      refine (calls callee args.length (tame_evalAll calls words)).bind fun results => ?_
      split
      · exact tame_pure _
      · exact tame_throw trivial

/-- Evaluating proper expressions in turn is tame. -/
theorem tame_evalAll (calls : CallsTame call) : ∀ {trees : List Expr}, (∀ tree ∈ trees, tree.Proper) →
    Tame (evalAll call trees)
  | [], _ => tame_pure []
  | tree :: rest, proper => by
      obtain ⟨first, others⟩ := List.forall_mem_cons.1 proper
      exact (tame_eval calls first).bind fun _ => (tame_evalAll calls others).bind fun _ => tame_pure _

end

/-- A call that stands alone is tame if it is proper. -/
theorem tame_call (calls : CallsTame call) {callee : Name} {args : List Expr}
    (proper : (Expr.call callee args).Proper) :
    Tame (call callee args.length (evalAll call args)) :=
  calls callee args.length (tame_evalAll calls (Expr.proper_call.1 proper).2)

/-- The results of proper expressions are computed tamely. -/
theorem tame_results (calls : CallsTame call) {values : List Expr}
    (proper : ∀ tree ∈ values, tree.Proper) :
    Tame (results call values) := by
  unfold results
  split
  · exact tame_call calls (proper _ List.mem_cons_self)
  · exact tame_evalAll calls proper

/-- The values for a number of targets are computed tamely from proper expressions. -/
theorem tame_valuesFor (calls : CallsTame call) (targets : Nat) {values : List Expr}
    (proper : ∀ tree ∈ values, tree.Proper) : Tame (valuesFor call targets values) := by
  unfold valuesFor
  split
  · refine (tame_call calls (proper _ List.mem_cons_self)).bind fun words => ?_
    split
    · exact tame_pure _
    · split
      · exact tame_pure _
      · exact tame_throw trivial
  · exact tame_evalAll calls proper

/-- A proper declaration has no operator of its own, so none is refused. -/
theorem tame_execAssign (calls : CallsTame call) {declares : Bool} (targets : List Name)
    {op : AssignOp} {values : List Expr}
    (plain : declares → op = .set) (proper : ∀ tree ∈ values, tree.Proper) :
    Tame (execAssign call declares targets op values) := by
  unfold execAssign
  refine tame_guarded (fun refused => absurd (plain refused.1) refused.2) ?_
  refine (tame_valuesFor calls _ proper).bind fun words => ?_
  exact tame_guarded (fun _ => trivial) (tame_storeAll declares op _)

/-- An arm that is tame is tame in its scope. -/
theorem Tame.withArmScope {run : Run Flow} (tame : Tame run) (arm : Stmt) :
    Tame (withArmScope RunState.recycle arm run) := by
  unfold Run.withArmScope
  split
  · exact tame
  · exact tame.withScope

mutual

/-- Running a proper statement is tame. -/
theorem tame_exec (calls : CallsTame call) : ∀ {stmt : Stmt}, stmt.Proper →
    Tame (exec RunState.recycle call stmt)
  | .assign declares targets op values, proper => by
      obtain ⟨⟨-, -, plain, -⟩, trees⟩ := Stmt.proper_assign.1 proper
      exact (tame_execAssign calls targets plain trees).bind fun _ => tame_pure _
  | .branch test thenArm elseArm, proper => by
      obtain ⟨condition, first, second⟩ := Stmt.proper_branch.1 proper
      rw [exec]
      refine (tame_eval calls condition).bind fun word => ?_
      split
      · exact (tame_exec calls first).withArmScope thenArm
      · exact tame_execElse calls second
  | .func name params returns body, proper =>
      (tame_define (Stmt.proper_func.1 proper).2.2).bind fun _ => tame_pure _
  | .ret values code, proper => by
      obtain ⟨⟨-, numeral⟩, trees⟩ := Stmt.proper_ret.1 proper
      exact (tame_results calls trees).bind fun _ =>
        (tame_execErrorCode numeral).bind fun _ => tame_pure _
  | .block body, proper => (tame_execAll calls (Stmt.proper_block.1 proper)).withScope
  | .expr value, proper => by
      rw [Stmt.proper_expr] at proper
      by_cases isCall : ∃ callee args, value = .call callee args
      · obtain ⟨callee, args, rfl⟩ := isCall
        exact (tame_call calls proper).bind fun _ => tame_pure _
      · rw [exec]
        · exact (tame_eval calls proper).bind fun _ => tame_pure _
        · exact fun callee args same => isCall ⟨callee, args, same⟩
  | .empty, _ => tame_pure _

/-- The arm behind `else` is tame if it is proper, and so is its absence. -/
theorem tame_execElse (calls : CallsTame call) : ∀ {arm : Option Stmt}, (∀ stmt ∈ arm, stmt.Proper) →
    Tame (execElse RunState.recycle call arm)
  | none, _ => tame_pure _
  | some arm, proper => (tame_exec calls (proper arm rfl)).withArmScope arm

/-- Running proper statements in turn is tame. -/
theorem tame_execAll (calls : CallsTame call) : ∀ {body : List Stmt}, Stmt.AllProper body →
    Tame (execAll RunState.recycle call body)
  | [], _ => tame_pure _
  | stmt :: rest, proper => by
      obtain ⟨first, others⟩ := Stmt.allProper_cons.1 proper
      refine (tame_exec calls first.2).bind fun flow => ?_
      cases flow with
      | next => exact tame_execAll calls others
      | returned values => exact tame_pure _

end

/-- Running the body of a proper function is tame. -/
theorem tame_body (calls : CallsTame call) {routine : Routine}
    (proper : Stmt.AllProper routine.body) (words : List Word) :
    Tame (body RunState.recycle call routine words) := by
  unfold body
  refine (tame_storeAll true .set _).bind fun _ => (tame_storeAll true .set _).bind fun _ => ?_
  refine (tame_execAll calls proper).bind fun flow => ?_
  cases flow with
  | next => exact tame_mapM_read _
  | returned values => exact tame_pure _

end Walk

/-- Calls are tame if entering a proper function is: what a name means was registered, and its body
is proper. -/
theorem callsTame_of_enter {limit : Nat} {enter : Routine → List Word → Run (List Word)}
    (entered : ∀ {routine : Routine} {words : List Word}, Stmt.AllProper routine.body →
      Tame (enter routine words)) : CallsTame (call limit enter) := by
  intro callee arity args tame state proper
  rw [call_apply]
  cases state.table.get? callee with
  | none => exact trivial
  | some symbol =>
    obtain word | entry := symbol
    · exact trivial
    · cases registered : state.routines[entry]? with
      | none => simp only [registered, Fault.IsExpected]
      | some routine =>
        have proper' := proper routine (List.mem_of_getElem? registered)
        have enters := tame.bind fun words => @entered routine words proper'
        simp only [registered]
        by_cases counts : arity = routine.params.length
        · by_cases full : limit ≤ state.depth
          · simp only [counts, full, ne_eq, not_true_eq_false, if_false, if_true, Fault.IsExpected]
          · simpa only [counts, full, ne_eq, not_true_eq_false, if_false] using enters proper
        · simp only [counts, ne_eq, not_false_eq_true, if_true, Fault.IsExpected]

/-- Calls are tame, however many frames can be opened. -/
theorem callsTame (limit frames : Nat) :
    CallsTame (call limit (enter RunState.recycle limit frames)) := by
  induction frames with
  | zero => exact callsTame_of_enter fun _ => tame_throw trivial
  | succ frames ih =>
    exact callsTame_of_enter fun proper => (tame_body ih proper _).withFrame _

end Run

namespace Program

/-- A run of a proper program meets expected faults only. -/
theorem isExpected_of_execute {program : Program} (proper : Stmt.AllProper program.body)
    {limit : Nat} {fault : Fault} (failed : program.execute limit = .error fault) :
    fault.IsExpected := by
  have tame := Run.tame_execAll (Run.callsTame limit limit) proper
  have leads := @tame RunState.new fun _ none => absurd none List.not_mem_nil
  unfold execute executeLeaving walk at failed
  generalize Run.execAll RunState.recycle _ program.body RunState.new = result at leads failed
  cases result with
  | ok flow final => cases failed
  | error met final =>
    obtain rfl := Except.error.inj failed
    exact leads

end Program

end ScriptLang

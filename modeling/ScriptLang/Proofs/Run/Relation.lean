import ScriptLang.Run.Execution

/-!
# Relations that a walk respects

Two runs of one program can differ in the state that they start from, in the way in which functions
are entered, and in the way in which scopes are left. A relation between computations that the few
primitive steps respect is respected by the whole walk over a program. A property of one run is the
case of a relation that looks at one side only.

Within an expression no name is bound, within statements names are bound in the current scope.
`Part` tells the two apart, so that a relation can say more of expressions than of statements.
-/

namespace ScriptLang

/-- The part of a program that a computation belongs to. -/
inductive Part where
  | expression
  | statements
deriving DecidableEq

/-- A function symbol referred to a routine that is not registered. -/
def Fault.isLost : Fault → Bool
  | .lostRoutine _ => true
  | _ => false

/-- An operator was not supported, or it has no result for its operands. -/
def Fault.isArithmetic : Fault → Bool
  | .unsupportedOperator _ | .divisionByZero | .overflow _ => true
  | _ => false

/-- The faults of operators are arithmetic. -/
theorem UnaryOp.isArithmetic_of_apply {op : UnaryOp} {operand : Word} {fault : Fault}
    (failed : op.apply operand = .error fault) : fault.isArithmetic = true := by
  unfold UnaryOp.apply orOverflow at failed
  repeat' split at failed
  all_goals cases failed
  all_goals rfl

/-- The faults of binary operators are arithmetic. -/
theorem BinaryOp.isArithmetic_of_apply {op : BinaryOp} {left right : Word} {fault : Fault}
    (failed : op.apply left right = .error fault) : fault.isArithmetic = true := by
  unfold BinaryOp.apply orOverflow at failed
  repeat' split at failed
  all_goals cases failed
  all_goals rfl

/-- An arithmetic fault is not a lost routine. -/
theorem Fault.isLost_of_isArithmetic {fault : Fault} (arithmetic : fault.isArithmetic = true) :
    fault.isLost = false := by
  cases fault <;> first | rfl | cases arithmetic

namespace Run

/-- The steps that a walk is made of respect a relation between computations, whose scopes are left
in the one way on the left and in the other way on the right. -/
structure Respects (leave leave' : Leaving) (rel : Part → ∀ {α : Type}, Run α → Run α → Prop) :
    Prop where
  pure {α : Type} (value : α) : rel .expression (pure value) (pure value)
  throw {α : Type} {fault : Fault} : fault.isLost = false →
    rel .expression (throw fault : Run α) (throw fault)
  bind {part : Part} {α β : Type} {first first' : Run α} {second second' : α → Run β} :
    rel part first first' → (∀ value, rel part (second value) (second' value)) →
      rel part (first >>= second) (first' >>= second')
  widen {α : Type} {run run' : Run α} : rel .expression run run' → rel .statements run run'
  read (name : Name) : rel .expression (read name) (read name)
  assign (name : Name) (word : Word) : rel .expression (assign name word) (assign name word)
  setErrorCode (code : Word) : rel .expression (setErrorCode code) (setErrorCode code)
  declare (name : Name) (word : Word) : rel .statements (declare name word) (declare name word)
  define (name : Name) (params returns : List Name) (body : List Stmt) :
    rel .statements (define name params returns body) (define name params returns body)
  withScope {run run' : Run Flow} : rel .statements run run' →
    rel .expression (withScope leave run) (withScope leave' run')

/-- Calls whose arguments are related are related. -/
def CallsRelated (rel : Part → ∀ {α : Type}, Run α → Run α → Prop) (call call' : Caller) : Prop :=
  ∀ (callee : Name) (arity : Nat) {args args' : Run (List Word)},
    rel .expression args args' →
      rel .expression (call callee arity args) (call' callee arity args')

namespace Respects

variable {leave leave' : Leaving} {rel : Part → ∀ {α : Type}, Run α → Run α → Prop}
  (respects : Respects leave leave' rel)

include respects

/-- A relation holds of every part of which it holds as of an expression. -/
theorem ofExpression {α : Type} {run run' : Run α} (part : Part)
    (related : rel .expression run run') : rel part run run' := by
  cases part with
  | expression => exact related
  | statements => exact respects.widen related

/-- Taking a result whose faults are arithmetic is related to itself. -/
theorem ofExcept {α : Type} {result : Except Fault α}
    (arithmetic : ∀ fault, result = .error fault → fault.isArithmetic = true) :
    rel .expression (ofExcept result) (ofExcept result) := by
  cases result with
  | ok value => exact respects.pure value
  | error fault => exact respects.throw (Fault.isLost_of_isArithmetic (arithmetic fault rfl))

/-- Going on unless something is refused respects the relation if going on does. -/
theorem guarded {part : Part} {α : Type} {refused : Prop} [Decidable refused] {fault : Fault}
    {rest rest' : PUnit → Run α} (found : fault.isLost = false)
    (related : rel part (rest ⟨⟩) (rest' ⟨⟩)) :
    rel part (if refused then MonadExcept.throw fault >>= rest else rest ⟨⟩)
      (if refused then MonadExcept.throw fault >>= rest' else rest' ⟨⟩) := by
  split
  · exact respects.bind (respects.ofExpression part (respects.throw found)) fun _ => related
  · exact related

/-- Storing a word in a target binds a name at most in the current scope. -/
theorem store (declares : Bool) (op : AssignOp) (target : Name) (word : Word) :
    rel .statements (store declares op target word) (store declares op target word) := by
  unfold Run.store
  split
  · exact respects.declare target word
  · split
    · exact respects.widen (respects.assign target word)
    · refine respects.widen (respects.bind (respects.read target) fun old => ?_)
      exact respects.bind (respects.ofExcept fun _ => BinaryOp.isArithmetic_of_apply)
        fun combined => respects.assign target combined

/-- Storing values is related to itself. -/
theorem storeAll (declares : Bool) (op : AssignOp) (pairs : List (Name × Word)) :
    rel .statements (storeAll declares op pairs) (storeAll declares op pairs) := by
  induction pairs with
  | nil => exact respects.widen (respects.pure ())
  | cons pair rest ih =>
    obtain ⟨target, word⟩ := pair
    exact respects.bind (respects.store declares op target word) fun _ => ih

/-- Reading variables is related to itself. -/
theorem mapM_read (names : List Name) :
    rel .expression (names.mapM Run.read) (names.mapM Run.read) := by
  induction names with
  | nil => exact respects.pure []
  | cons name rest ih =>
    rw [List.mapM_cons]
    exact respects.bind (respects.read name) fun _ => respects.bind ih fun _ => respects.pure _

variable {call call' : Caller}

mutual

/-- If calls respect the relation then evaluating an expression does. -/
theorem eval (calls : CallsRelated rel call call') :
    ∀ expr : Expr, rel .expression (eval call expr) (eval call' expr)
  | .number _ value => respects.pure value
  | .string _ => respects.throw rfl
  | .variable name => respects.read name
  | .unary _ operand =>
      respects.bind (eval calls operand) fun _ =>
        respects.ofExcept fun _ => UnaryOp.isArithmetic_of_apply
  | .binary _ left right =>
      respects.bind (eval calls left) fun _ => respects.bind (eval calls right) fun _ =>
        respects.ofExcept fun _ => BinaryOp.isArithmetic_of_apply
  | .cast value _ => eval calls value
  | .logic op left right => by
      by_cases negates : op = .not
      · subst negates
        exact respects.bind (eval calls right) fun _ => respects.pure _
      · rw [Run.eval, Run.eval]
        · refine respects.bind (eval calls left) fun first => ?_
          split
          · exact respects.pure _
          · exact respects.bind (eval calls right) fun _ => respects.pure _
        · exact negates
        · exact negates
  | .logicPrefix op right => by
      by_cases negates : op = .not
      · subst negates
        exact respects.bind (eval calls right) fun _ => respects.pure _
      · rw [Run.eval, Run.eval]
        · exact respects.throw rfl
        · exact negates
        · exact negates
  | .call callee args => by
      refine respects.bind (calls callee args.length (evalAll calls args)) fun words => ?_
      split
      · exact respects.pure _
      · exact respects.throw rfl

/-- If calls respect the relation then evaluating expressions in turn does. -/
theorem evalAll (calls : CallsRelated rel call call') :
    ∀ exprs : List Expr, rel .expression (evalAll call exprs) (evalAll call' exprs)
  | [] => respects.pure []
  | expr :: rest =>
      respects.bind (eval calls expr) fun _ => respects.bind (evalAll calls rest) fun _ => respects.pure _

end

/-- The results of expressions are related if the calls are. -/
theorem results (calls : CallsRelated rel call call') (values : List Expr) :
    rel .expression (results call values) (results call' values) := by
  unfold Run.results
  split
  · exact calls _ _ (respects.evalAll calls _)
  · exact respects.evalAll calls _

/-- The values for a number of targets are related if the calls are. -/
theorem valuesFor (calls : CallsRelated rel call call') (targets : Nat) (values : List Expr) :
    rel .expression (valuesFor call targets values) (valuesFor call' targets values) := by
  unfold Run.valuesFor
  split
  · refine respects.bind (calls _ _ (respects.evalAll calls _)) fun words => ?_
    split
    · exact respects.pure _
    · split
      · exact respects.pure _
      · exact respects.throw rfl
  · exact respects.evalAll calls _

/-- Assignments are related if the calls are. -/
theorem execAssign (calls : CallsRelated rel call call') (declares : Bool) (targets : List Name)
    (op : AssignOp) (values : List Expr) :
    rel .statements (execAssign call declares targets op values)
      (execAssign call' declares targets op values) := by
  unfold Run.execAssign
  apply respects.guarded rfl
  refine respects.bind (respects.widen (respects.valuesFor calls _ values)) fun words => ?_
  exact respects.guarded rfl (respects.storeAll declares op _)

/-- Setting an error code is related to itself. -/
theorem execErrorCode (code : Option String) :
    rel .expression (execErrorCode code) (execErrorCode code) := by
  unfold Run.execErrorCode
  split
  · exact respects.pure ()
  · split
    · exact respects.setErrorCode _
    · exact respects.throw rfl

/-- Related arms are related in their scopes. -/
theorem withArmScope (arm : Stmt) {run run' : Run Flow} (related : rel .statements run run') :
    rel .statements (withArmScope leave arm run) (withArmScope leave' arm run') := by
  unfold Run.withArmScope
  split
  · exact related
  · exact respects.widen (respects.withScope related)

mutual

/-- If calls respect the relation then running a statement does. -/
theorem exec (calls : CallsRelated rel call call') :
    ∀ stmt : Stmt, rel .statements (exec leave call stmt) (exec leave' call' stmt)
  | .assign declares targets op values =>
      respects.bind (respects.execAssign calls declares targets op values) fun _ =>
        respects.widen (respects.pure _)
  | .branch condition thenArm elseArm => by
      refine respects.bind (respects.widen (respects.eval calls condition)) fun word => ?_
      split
      · exact respects.withArmScope thenArm (exec calls thenArm)
      · exact execElse calls elseArm
  | .func name params returns body =>
      respects.bind (respects.define name params returns body) fun _ =>
        respects.widen (respects.pure _)
  | .ret values code =>
      respects.bind (respects.widen (respects.results calls values)) fun _ =>
        respects.bind (respects.widen (respects.execErrorCode code)) fun _ =>
          respects.widen (respects.pure _)
  | .block body => respects.widen (respects.withScope (execAll calls body))
  | .expr value => by
      by_cases isCall : ∃ callee args, value = .call callee args
      · obtain ⟨callee, args, rfl⟩ := isCall
        exact respects.bind (respects.widen (calls _ _ (respects.evalAll calls args))) fun _ =>
          respects.widen (respects.pure _)
      · rw [Run.exec, Run.exec]
        · exact respects.bind (respects.widen (respects.eval calls value)) fun _ =>
            respects.widen (respects.pure _)
        · exact fun callee args same => isCall ⟨callee, args, same⟩
        · exact fun callee args same => isCall ⟨callee, args, same⟩
  | .empty => respects.widen (respects.pure _)

/-- If calls respect the relation then running the arm behind `else` does. -/
theorem execElse (calls : CallsRelated rel call call') : ∀ arm : Option Stmt,
    rel .statements (execElse leave call arm) (execElse leave' call' arm)
  | none => respects.widen (respects.pure _)
  | some arm => respects.withArmScope arm (exec calls arm)

/-- If calls respect the relation then running statements in turn does. -/
theorem execAll (calls : CallsRelated rel call call') : ∀ stmts : List Stmt,
    rel .statements (execAll leave call stmts) (execAll leave' call' stmts)
  | [] => respects.widen (respects.pure _)
  | stmt :: rest => by
      refine respects.bind (exec calls stmt) fun flow => ?_
      cases flow with
      | next => exact execAll calls rest
      | returned values => exact respects.widen (respects.pure _)

end

/-- If calls respect the relation then running the body of a function does, whatever the scope of
its definition. -/
theorem body (calls : CallsRelated rel call call') (routine : Routine) (scope : Nat)
    (args : List Word) :
    rel .statements (body leave call routine args)
      (body leave' call' { routine with scope } args) := by
  refine respects.bind (respects.storeAll true .set _) fun _ => ?_
  refine respects.bind (respects.storeAll true .set _) fun _ => ?_
  refine respects.bind (respects.execAll calls routine.body) fun flow => ?_
  cases flow with
  | next => exact respects.widen (respects.mapM_read _)
  | returned values => exact respects.widen (respects.pure values)

end Respects

end Run

end ScriptLang

import ScriptLang.Numeral
import ScriptLang.Run.Arithmetic
import ScriptLang.Run.State

/-!
# Walking over a program

Expressions give words and statements tell whether a `return` was met. The walk over a tree is
given the way in which a function is entered and the way in which a scope is left; `Run.enter` ties
the knot, with one frame less to open each time, so that a run always ends.
-/

namespace ScriptLang

/-- How a statement ends: the next one follows, or the running function ends with results. -/
inductive Flow where
  | next
  | returned (values : List Word)
deriving DecidableEq, Repr

/-- What calling a function means: its name, the number of its arguments, and their evaluation. -/
abbrev Caller : Type := Name → Nat → Run (List Word) → Run (List Word)

namespace Run

section Expressions

variable (call : Caller)

mutual

/-- The word that an expression gives. -/
def eval : Expr → Run Word
  | .number _ value => pure value
  | .string text => throw (.stringAsNumber text)
  | .variable name => read name
  | .unary op operand => do
      let word ← eval operand
      ofExcept (op.apply word)
  | .binary op left right => do
      let first ← eval left
      let second ← eval right
      ofExcept (op.apply first second)
  | .cast value _ => eval value
  | .logic .not _ right => do
      let word ← eval right
      return Word.ofBool (!word.isTrue)
  | .logic op left right => do
      let first ← eval left
      match op.shortcut? first with
      | some word => return word
      | none =>
          let second ← eval right
          return Word.ofBool (op.holds first second)
  | .logicPrefix .not right => do
      let word ← eval right
      return Word.ofBool (!word.isTrue)
  | .logicPrefix op _ => throw (.missingOperand op)
  | .call callee args => do
      match ← call callee args.length (evalAll args) with
      | first :: _ => return first
      | [] => throw (.noValue callee)

/-- The words that expressions give, from left to right. -/
def evalAll : List Expr → Run (List Word)
  | [] => return []
  | expr :: rest => do
      let word ← eval expr
      let words ← evalAll rest
      return word :: words

end

/-- The results of a call, or one word for each expression: a call that stands alone passes all of
its results on. -/
def results : List Expr → Run (List Word)
  | [.call callee args] => call callee args.length (evalAll call args)
  | values => evalAll call values

/-- The words for a number of targets. A call that stands alone spreads its results over the
targets if the counts agree, and otherwise stands for its first result. -/
def valuesFor (targets : Nat) : List Expr → Run (List Word)
  | [.call callee args] => do
      let words ← call callee args.length (evalAll call args)
      if words.length = targets then
        return words
      else
        match words with
        | first :: _ => return [first]
        | [] => throw (.noValue callee)
  | values => evalAll call values

end Expressions

/-- Pairs targets with words; a single word is for every target. -/
def pair (targets : List Name) : List Word → List (Name × Word)
  | [word] => targets.map fun target => (target, word)
  | words => targets.zip words

/-- Gives one target its word. -/
def store (declares : Bool) (op : AssignOp) (target : Name) (word : Word) : Run Unit :=
  if declares then declare target word
  else
    match op.arithmetic? with
    | none => assign target word
    | some arithmetic => do
        let old ← read target
        let combined ← ofExcept (arithmetic.apply old word)
        assign target combined

/-- Gives targets their words, from left to right. -/
def storeAll (declares : Bool) (op : AssignOp) : List (Name × Word) → Run Unit
  | [] => return ()
  | (target, word) :: rest => do
      store declares op target word
      storeAll declares op rest

/-- An assignment. Every word is computed before any target changes. -/
def execAssign (call : Caller) (declares : Bool) (targets : List Name) (op : AssignOp)
    (values : List Expr) : Run Unit := do
  if declares ∧ op ≠ .set then
    throw (.unsupportedOperator op.symbol)
  let words ← valuesFor call targets.length values
  if words.length ≠ 1 ∧ words.length ≠ targets.length then
    throw (.shapeMismatch targets.length words.length)
  storeAll declares op (pair targets words)

/-- The error code of a `return`, from the way it is written. -/
def execErrorCode : Option String → Run Unit
  | none => return ()
  | some literal =>
      match Numeral.value? literal with
      | some code => setErrorCode code
      | none => throw (.errorCodeNotNumber literal)

section Statements

variable (leave : Leaving)

/-- Runs an arm of a branch in a scope of its own, which a block opens itself. -/
def withArmScope (arm : Stmt) (run : Run Flow) : Run Flow :=
  match arm with
  | .block _ => run
  | _ => withScope leave run

variable (call : Caller)

mutual

/-- Runs a statement. -/
def exec : Stmt → Run Flow
  | .assign declares targets op values => do
      execAssign call declares targets op values
      return .next
  | .branch condition thenArm elseArm => do
      let word ← eval call condition
      if word.isTrue then
        withArmScope leave thenArm (exec thenArm)
      else
        execElse elseArm
  | .func name params returns body => do
      define name params returns body
      return .next
  | .ret values code => do
      let words ← results call values
      execErrorCode code
      return .returned words
  | .block body => withScope leave (execAll body)
  | .expr (.call callee args) => do
      let _ ← call callee args.length (evalAll call args)
      return .next
  | .expr value => do
      let _ ← eval call value
      return .next
  | .empty => return .next

/-- Runs the arm behind `else`, if there is one. -/
def execElse : Option Stmt → Run Flow
  | none => return .next
  | some arm => withArmScope leave arm (exec arm)

/-- Runs statements one after the other until a `return` is met. -/
def execAll : List Stmt → Run Flow
  | [] => return .next
  | stmt :: rest => do
      match ← exec stmt with
      | .next => execAll rest
      | .returned values => return .returned values

end

end Statements

/-- Calls a function: it must be a function, take that many arguments, and be within the limit of
open frames before its arguments are evaluated. -/
def call (limit : Nat) (enter : Routine → List Word → Run (List Word)) : Caller :=
  fun callee arity args => do
    let routine ← routine callee
    if arity ≠ routine.params.length then
      throw (.arityMismatch callee routine.params.length arity)
    if limit ≤ (← get).depth then
      throw (.callDepthExceeded limit)
    let words ← args
    enter routine words

/-- A call asks for a registered function, for the number of its arguments and for a frame, in this
order, and then evaluates its arguments and enters the function. -/
theorem call_apply (limit : Nat) (enter : Routine → List Word → Run (List Word)) (callee : Name)
    (arity : Nat) (args : Run (List Word)) (state : RunState) :
    call limit enter callee arity args state =
      match state.table.get? callee with
      | none => .error (.name (.undefinedReference callee)) state
      | some (.variable _) => .error (.name (.kindMismatch callee .func .variable)) state
      | some (.func entry) =>
          match state.routines[entry]? with
          | none => .error (.lostRoutine entry) state
          | some routine =>
              if arity ≠ routine.params.length then
                .error (.arityMismatch callee routine.params.length arity) state
              else if limit ≤ state.depth then .error (.callDepthExceeded limit) state
              else (args >>= enter routine) state := by
  simp only [call, Bind.bind, EStateM.bind, routine]
  cases state.table.get? callee with
  | none => rfl
  | some symbol =>
    obtain word | entry := symbol
    · rfl
    · dsimp only
      cases state.routines[entry]? with
      | none => rfl
      | some routine =>
        by_cases arities : arity = routine.params.length
        · by_cases full : limit ≤ state.depth
          · simp only [arities, ne_eq, not_true_eq_false, if_false]
            change (if limit ≤ state.depth then _ else _ : Run (List Word)) state = _
            rw [if_pos full, if_pos full]
            rfl
          · simp only [arities, ne_eq, not_true_eq_false, if_false]
            change (if limit ≤ state.depth then _ else _ : Run (List Word)) state = _
            rw [if_neg full, if_neg full]
            rfl
        · simp only [ne_eq, arities, not_false_eq_true, if_true]
          rfl

/-- Runs the body of a function. Without a `return` the declared results are its results. -/
def body (leave : Leaving) (call : Caller) (routine : Routine) (args : List Word) : Run (List Word) := do
  storeAll true .set (routine.params.zip args)
  storeAll true .set (routine.returns.map fun result => (result, 0))
  match ← execAll leave call routine.body with
  | .returned values => return values
  | .next => routine.returns.mapM read

/-- Enters a function while at most the given number of frames can still be opened. A call is
refused at the limit before it is entered, so the last frame opens none. -/
def enter (leave : Leaving) (limit : Nat) : Nat → Routine → List Word → Run (List Word)
  | 0, _, _ => throw (.callDepthExceeded limit)
  | frames + 1, routine, args =>
      withFrame leave routine.scope (body leave (call limit (enter leave limit frames)) routine args)

end Run

end ScriptLang

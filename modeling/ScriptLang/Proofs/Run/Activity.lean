import ScriptLang.Proofs.Run.Frames

/-!
# What a run is busy with

At every moment of a run a number of activities are under way, each a part of the one around it: an
expression within a statement, a statement within the body of a function, the body within a call.
`Activity.parts` lists the activities that an activity consists of, in their order and each with the
state in which it starts, and `Program.Reached` tells which activities can be under way at once. The
frames that are open are the bodies of functions among them.

Each part starts from a sound state if the whole does, and only the body of a function starts with
one frame more than the whole.
-/

namespace ScriptLang

namespace Run

/-- What comes behind a computation that gives a result; behind a fault nothing comes. -/
def behind {α β : Type} (outcome : EStateM.Result Fault RunState α)
    (next : α → RunState → List β) : List β :=
  match outcome with
  | .ok value state => next value state
  | .error .. => []

/-- What comes behind a computation comes behind its result. -/
theorem mem_behind {α β : Type} {outcome : EStateM.Result Fault RunState α}
    {next : α → RunState → List β} {later : β} :
    later ∈ behind outcome next ↔
      ∃ value state, outcome = .ok value state ∧ later ∈ next value state := by
  cases outcome with
  | ok value state =>
    constructor
    · exact fun member => ⟨value, state, rfl, member⟩
    · rintro ⟨_, _, same, member⟩
      cases same
      exact member
  | error fault state => simp [behind]

end Run

/-- What a run can be busy with. -/
inductive Activity where
  | expr (tree : Expr)
  | exprs (trees : List Expr)
  | call (callee : Name) (args : List Expr)
  /-- The body of a function in its frame. -/
  | frame (routine : Routine) (words : List Word)
  | store (declares : Bool) (op : AssignOp) (pairs : List (Name × Word))
  | stmt (tree : Stmt)
  | arm (tree : Stmt)
  | stmts (trees : List Stmt)

namespace RunState

/-- The state in which a block starts. -/
def opened (state : RunState) : RunState :=
  { state with table := state.table.enter }

/-- The state in which the body of a function starts that was defined in the given scope. -/
def framed (state : RunState) (scope : Nat) : RunState :=
  { state with table := state.table.enterUnder scope, depth := state.depth + 1 }

end RunState

namespace Activity

/-- Whether the activity is the body of a function in its frame. -/
def isFrame : Activity → Bool
  | frame .. => true
  | _ => false

/-- What an activity gives. -/
def Result : Activity → Type
  | expr _ => Word
  | exprs _ | call .. | frame .. => List Word
  | store .. => Unit
  | stmt _ | arm _ | stmts _ => Flow

/-- An expression whose value is asked for, where a call need not have a value. -/
def ofValue : Expr → Activity
  | .call callee args => call callee args
  | tree => expr tree

/-- Expressions of which a call that stands alone passes all of its results on. -/
def ofValues : List Expr → Activity
  | [.call callee args] => call callee args
  | trees => exprs trees

/-- The state in which an arm of a branch starts. -/
def armState (state : RunState) : Stmt → RunState
  | .block _ => state
  | _ => state.opened

section

variable (limit : Nat)

/-- The activities that an activity consists of, and the states in which they start. -/
def parts : Activity → RunState → List (Activity × RunState)
  | expr (.number ..), _ | expr (.string _), _ | expr (.variable _), _ => []
  | expr (.unary _ operand), state => [(expr operand, state)]
  | expr (.binary _ left right), state =>
      (expr left, state) ::
        Run.behind (Run.eval (Run.calls limit) left state) fun _ state => [(expr right, state)]
  | expr (.cast value _), state => [(expr value, state)]
  | expr (.logic op left right), state =>
      if op = .not then [(expr right, state)]
      else
        (expr left, state) ::
          Run.behind (Run.eval (Run.calls limit) left state) fun word state =>
            if (op.shortcut? word).isSome then [] else [(expr right, state)]
  | expr (.logicPrefix op right), state => if op = .not then [(expr right, state)] else []
  | expr (.call callee args), state => [(call callee args, state)]
  | exprs [], _ => []
  | exprs (tree :: rest), state =>
      (expr tree, state) ::
        Run.behind (Run.eval (Run.calls limit) tree state) fun _ state => [(exprs rest, state)]
  | call callee args, state =>
      Run.behind (Run.routine callee state) fun routine state =>
        if args.length = routine.params.length ∧ state.depth < limit then
          (exprs args, state) ::
            Run.behind (Run.evalAll (Run.calls limit) args state) fun words state =>
              [(frame routine words, state.framed routine.scope)]
        else []
  | frame routine words, state =>
      let params := routine.params.zip words
      let returns := routine.returns.map fun result => (result, 0)
      (store true .set params, state) ::
        Run.behind (Run.storeAll true .set params state) fun _ state =>
          (store true .set returns, state) ::
            Run.behind (Run.storeAll true .set returns state) fun _ state =>
              [(stmts routine.body, state)]
  | store _ _ [], _ => []
  | store declares op ((target, word) :: rest), state =>
      Run.behind (Run.store declares op target word state) fun _ state =>
        [(store declares op rest, state)]
  | stmt (.assign declares targets op values), state =>
      if declares ∧ op ≠ .set then []
      else
        (ofValues values, state) ::
          Run.behind (Run.valuesFor (Run.calls limit) targets.length values state)
            fun words state =>
              if words.length ≠ 1 ∧ words.length ≠ targets.length then []
              else [(store declares op (Run.pair targets words), state)]
  | stmt (.branch condition thenArm elseArm), state =>
      (expr condition, state) ::
        Run.behind (Run.eval (Run.calls limit) condition state) fun word state =>
          if word.isTrue then [(arm thenArm, state)]
          else elseArm.toList.map fun elseArm => (arm elseArm, state)
  | stmt (.func ..), _ => []
  | stmt (.ret values _), state => [(ofValues values, state)]
  | stmt (.block body), state => [(stmts body, state.opened)]
  | stmt (.expr value), state => [(ofValue value, state)]
  | stmt .empty, _ => []
  | arm tree, state => [(stmt tree, armState state tree)]
  | stmts [], _ => []
  | stmts (tree :: rest), state =>
      (stmt tree, state) ::
        Run.behind (Run.exec RunState.recycle (Run.calls limit) tree state) fun flow state =>
          if flow = .next then [(stmts rest, state)] else []

/-- What an activity does. -/
def run : (activity : Activity) → Run activity.Result
  | expr tree => Run.eval (Run.calls limit) tree
  | exprs trees => Run.evalAll (Run.calls limit) trees
  | call callee args => Run.calls limit callee args.length (Run.evalAll (Run.calls limit) args)
  | frame routine words => Run.body RunState.recycle (Run.calls limit) routine words
  | store declares op pairs => Run.storeAll declares op pairs
  | stmt tree => Run.exec RunState.recycle (Run.calls limit) tree
  | arm tree =>
      Run.withArmScope RunState.recycle tree (Run.exec RunState.recycle (Run.calls limit) tree)
  | stmts trees => Run.execAll RunState.recycle (Run.calls limit) trees

end

end Activity

/-- While an activity runs from a state the given activities can be under way at once, the innermost
first, and this one starts in the second state. -/
inductive Activity.Reaches (limit : Nat) (whole : Activity) (initial : RunState) :
    List Activity → RunState → Prop where
  | whole : Reaches limit whole initial [whole] initial
  | part {here part : Activity} {around : List Activity} {state state' : RunState} :
      Reaches limit whole initial (here :: around) state →
        (part, state') ∈ here.parts limit state →
          Reaches limit whole initial (part :: here :: around) state'

/-- The activities that can be under way at once while a program runs, and the state in which the
innermost of them starts. -/
def Program.Reached (program : Program) (limit : Nat) : List Activity → RunState → Prop :=
  Activity.Reaches limit (.stmts program.body) RunState.new

/-- The states that a run of a program goes through: those in which its activities start or end. -/
def Program.Visits (program : Program) (limit : Nat) (state : RunState) : Prop :=
  ∃ activity around start, program.Reached limit (activity :: around) start ∧
    (state = start ∨ state = (activity.run limit).after start)

namespace Activity

/-- Bounds how much of an activity is left to do before a function is entered. -/
noncomputable def weight : Activity → Nat
  | expr tree => 2 * sizeOf tree
  | exprs trees => 2 * sizeOf trees
  | call _ args => 2 * sizeOf args + 1
  | frame routine _ => routine.params.length + routine.returns.length + 2 * sizeOf routine.body + 1
  | store _ _ pairs => pairs.length
  | stmt tree => 2 * sizeOf tree
  | arm tree => 2 * sizeOf tree + 1
  | stmts trees => 2 * sizeOf trees

/-- How a part of an activity starts: in a state as sound as that of the whole, and either it is
smaller than the whole with the same number of open frames, or it is the body of a function with one
frame more, within the limit. -/
structure Leads (limit : Nat) (here : Activity) (state : RunState) (part : Activity)
    (state' : RunState) : Prop where
  sound : state.Sound → state'.Sound
  depth : state'.depth = state.depth + if part.isFrame then 1 else 0
  below : part.isFrame → state.depth < limit
  smaller : part.isFrame = false → part.weight < here.weight

section Leads

variable {limit : Nat} {here part : Activity} {state state' : RunState}

/-- A smaller part that starts behind a steady computation. -/
theorem leads_behind {kind : Part} {α : Type} {run : Run α} {value : α}
    (steady : Run.Steady kind run run) (outcome : run state = .ok value state')
    (plain : part.isFrame = false) (smaller : part.weight < here.weight) :
    Leads limit here state part state' := by
  have depth := steady.depth_after state
  have sound (whole : state.Sound) := steady.sound_after whole
  simp only [Run.after, outcome, Run.final_ok] at depth sound
  exact ⟨sound, by simpa [plain] using depth, by simp [plain], fun _ => smaller⟩

/-- A smaller part that starts where the whole starts. -/
theorem leads_first (plain : part.isFrame = false) (smaller : part.weight < here.weight) :
    Leads limit here state part state :=
  ⟨id, by simp [plain], by simp [plain], fun _ => smaller⟩

/-- A smaller part that starts in a scope of its own. -/
theorem leads_opened (plain : part.isFrame = false) (smaller : part.weight < here.weight) :
    Leads limit here state part state.opened :=
  ⟨fun sound => sound.enterUnder sound.nested.current_lt, by simp [plain, RunState.opened],
    by simp [plain], fun _ => smaller⟩

/-- A statement weighs twice its size. -/
theorem weight_stmt (tree : Stmt) : (stmt tree).weight = 2 * sizeOf tree := rfl

/-- A list has no more members than its size. -/
theorem length_le_sizeOf (targets : List Name) : targets.length ≤ sizeOf targets := by
  induction targets with
  | nil => simp
  | cons target rest ih =>
    rw [List.length_cons, List.cons.sizeOf_spec]
    omega

/-- At most as many words are stored as there are targets. -/
theorem length_pair_le (targets : List Name) (words : List Word) :
    (Run.pair targets words).length ≤ targets.length := by
  unfold Run.pair
  split
  · simp
  · simp only [List.length_zip]
    omega

/-- What computes a value is no frame. -/
theorem isFrame_ofValue (tree : Expr) : (ofValue tree).isFrame = false := by
  unfold ofValue
  split <;> rfl

/-- What computes values is no frame. -/
theorem isFrame_ofValues (trees : List Expr) : (ofValues trees).isFrame = false := by
  unfold ofValues
  split <;> rfl

/-- What computes the value of an expression weighs at most twice the size of the expression. -/
theorem weight_ofValue_le (tree : Expr) : (ofValue tree).weight ≤ 2 * sizeOf tree := by
  unfold ofValue
  split
  · simp only [weight, Expr.call.sizeOf_spec]
    omega
  · exact Nat.le_refl _

/-- What computes the values of expressions weighs at most twice their size. -/
theorem weight_ofValues_le (trees : List Expr) : (ofValues trees).weight ≤ 2 * sizeOf trees := by
  unfold ofValues
  split
  · simp only [weight, List.cons.sizeOf_spec, Expr.call.sizeOf_spec]
    omega
  · exact Nat.le_refl _

open Run (respects_steady callsRelated_steady mem_behind)

/-- Each part of an expression leads on from it. -/
theorem leads_expr : ∀ {tree : Expr}, (part, state') ∈ (expr tree).parts limit state →
    Leads limit (expr tree) state part state'
  | .number .., member | .string _, member | .variable _, member => by simp [parts] at member
  | .unary op operand, member => by
      obtain ⟨rfl, rfl⟩ := by simpa [parts] using member
      exact leads_first rfl (by simp only [weight, Expr.unary.sizeOf_spec]; omega)
  | .binary op left right, member => by
      simp only [parts, List.mem_cons, Prod.mk.injEq, mem_behind, List.not_mem_nil, or_false] at member
      rcases member with ⟨rfl, rfl⟩ | ⟨word, middle, outcome, rfl, rfl⟩
      · exact leads_first rfl (by simp only [weight, Expr.binary.sizeOf_spec]; omega)
      · have steady := respects_steady.eval (callsRelated_steady limit) left
        exact leads_behind steady outcome rfl
          (by simp only [weight, Expr.binary.sizeOf_spec]; omega)
  | .cast value type, member => by
      obtain ⟨rfl, rfl⟩ := by simpa [parts] using member
      exact leads_first rfl (by simp only [weight, Expr.cast.sizeOf_spec]; omega)
  | .logic op left right, member => by
      simp only [parts] at member
      split at member
      · obtain ⟨rfl, rfl⟩ := by simpa using member
        exact leads_first rfl (by simp only [weight, Expr.logic.sizeOf_spec]; omega)
      · rcases List.mem_cons.1 member with first | second
        · obtain ⟨rfl, rfl⟩ := Prod.mk.inj first
          exact leads_first rfl (by simp only [weight, Expr.logic.sizeOf_spec]; omega)
        · obtain ⟨word, middle, outcome, last⟩ := mem_behind.1 second
          split at last
          · simp at last
          · obtain ⟨rfl, rfl⟩ := by simpa using last
            have steady := respects_steady.eval (callsRelated_steady limit) left
            exact leads_behind steady outcome rfl
              (by simp only [weight, Expr.logic.sizeOf_spec]; omega)
  | .logicPrefix op right, member => by
      simp only [parts] at member
      split at member
      · obtain ⟨rfl, rfl⟩ := by simpa using member
        exact leads_first rfl (by simp only [weight, Expr.logicPrefix.sizeOf_spec]; omega)
      · simp at member
  | .call callee args, member => by
      obtain ⟨rfl, rfl⟩ := by simpa [parts] using member
      exact leads_first rfl (by simp only [weight, Expr.call.sizeOf_spec]; omega)

/-- Each part of a statement leads on from it. -/
theorem leads_stmt : ∀ {tree : Stmt}, (part, state') ∈ (stmt tree).parts limit state →
    Leads limit (stmt tree) state part state'
  | .func .., member | .empty, member => by simp [parts] at member
  | .assign declares targets op values, member => by
      simp only [parts] at member
      split at member
      · simp at member
      · rcases List.mem_cons.1 member with first | second
        · obtain ⟨rfl, rfl⟩ := Prod.mk.inj first
          have smaller := weight_ofValues_le values
          exact leads_first (isFrame_ofValues values)
            (by rw [weight_stmt, Stmt.assign.sizeOf_spec]; omega)
        · obtain ⟨words, middle, outcome, last⟩ := mem_behind.1 second
          split at last
          · simp at last
          · obtain ⟨rfl, rfl⟩ := by simpa using last
            have steady := respects_steady.valuesFor (callsRelated_steady limit) targets.length values
            have smaller : (store declares op (Run.pair targets words)).weight ≤ sizeOf targets :=
              Nat.le_trans (length_pair_le targets words) (length_le_sizeOf targets)
            exact leads_behind steady outcome rfl
              (by rw [weight_stmt, Stmt.assign.sizeOf_spec]; omega)
  | .branch condition thenArm elseArm, member => by
      rcases List.mem_cons.1 member with first | second
      · obtain ⟨rfl, rfl⟩ := Prod.mk.inj first
        exact leads_first rfl (by simp only [weight, Stmt.branch.sizeOf_spec]; omega)
      · obtain ⟨word, middle, outcome, last⟩ := mem_behind.1 second
        have steady := respects_steady.eval (callsRelated_steady limit) condition
        split at last
        · obtain ⟨rfl, rfl⟩ := by simpa using last
          exact leads_behind steady outcome rfl
            (by simp only [weight, Stmt.branch.sizeOf_spec]; omega)
        · obtain ⟨tree, present, rfl, rfl⟩ := by simpa using last
          exact leads_behind steady outcome rfl
            (by simp only [weight, Stmt.branch.sizeOf_spec, present, Option.some.sizeOf_spec]; omega)
  | .ret values code, member => by
      obtain ⟨rfl, rfl⟩ := by simpa [parts] using member
      have smaller := weight_ofValues_le values
      exact leads_first (isFrame_ofValues values) (by rw [weight_stmt, Stmt.ret.sizeOf_spec]; omega)
  | .block body, member => by
      obtain ⟨rfl, rfl⟩ := by simpa [parts] using member
      exact leads_opened rfl (by simp [weight])
  | .expr value, member => by
      obtain ⟨rfl, rfl⟩ := by simpa [parts] using member
      have smaller := weight_ofValue_le value
      exact leads_first (isFrame_ofValue value) (by rw [weight_stmt, Stmt.expr.sizeOf_spec]; omega)

/-- Asking for a routine changes nothing. -/
theorem routine_eq_ok {callee : Name} {routine : Routine}
    (found : Run.routine callee state = .ok routine state') :
    state' = state ∧ routine ∈ state.routines := by
  unfold Run.routine at found
  split at found
  · simp at found
  · simp at found
  · split at found
    · rename_i known
      obtain ⟨rfl, rfl⟩ := by simpa using found
      exact ⟨rfl, List.mem_of_getElem? known⟩
    · simp at found

/-- Each part of a call leads on from it: the arguments, and the body of the function. -/
theorem leads_call {callee : Name} {args : List Expr}
    (member : (part, state') ∈ (call callee args).parts limit state) :
    Leads limit (call callee args) state part state' := by
  obtain ⟨routine, found, outcome, inner⟩ := mem_behind.1 member
  obtain ⟨rfl, registered⟩ := routine_eq_ok outcome
  split at inner
  · rename_i allowed
    rcases List.mem_cons.1 inner with first | second
    · obtain ⟨rfl, rfl⟩ := Prod.mk.inj first
      exact leads_first rfl (by simp [weight])
    · obtain ⟨words, middle, outcome', last⟩ := mem_behind.1 second
      obtain ⟨rfl, rfl⟩ := by simpa using last
      have steady := respects_steady.evalAll (callsRelated_steady limit) args
      have depth := steady.depth_after found
      have same := steady.1 found
      have sound (whole : found.Sound) := steady.sound_after whole
      simp only [Run.after, outcome', Run.final_ok] at depth same sound
      refine ⟨fun whole => ?_, by simp [isFrame, RunState.framed, depth], fun _ => allowed.2,
        by simp [isFrame]⟩
      have live : routine.scope < middle.table.depth := by
        rw [ScopeTable.depth_eq_of_shape_eq (RunState.table_shape_of_shape_eq (same whole))]
        exact whole.live routine registered
      have opened := (sound whole).enterUnder live
      exact ⟨opened.nested, opened.unique, opened.registered, opened.live⟩
  · simp at inner

/-- Each part of the body of a function leads on from it: the parameters, the declared results, and
the statements. -/
theorem leads_frame {routine : Routine} {words : List Word}
    (member : (part, state') ∈ (frame routine words).parts limit state) :
    Leads limit (frame routine words) state part state' := by
  have steady := respects_steady.storeAll true .set (routine.params.zip words)
  have steady' := respects_steady.storeAll true .set (routine.returns.map fun result => (result, 0))
  rcases List.mem_cons.1 member with first | later
  · obtain ⟨rfl, rfl⟩ := Prod.mk.inj first
    exact leads_first rfl (by simp only [weight, List.length_zip]; omega)
  · obtain ⟨_, middle, outcome, later⟩ := mem_behind.1 later
    rcases List.mem_cons.1 later with second | last
    · obtain ⟨rfl, rfl⟩ := Prod.mk.inj second
      exact leads_behind steady outcome rfl (by simp only [weight, List.length_map]; omega)
    · obtain ⟨_, middle', outcome', last⟩ := mem_behind.1 last
      obtain ⟨rfl, rfl⟩ := by simpa using last
      have both := respects_steady.bind steady fun _ => steady'
      have outcomes : (Run.storeAll true .set (routine.params.zip words) >>= fun _ =>
          Run.storeAll true .set (routine.returns.map fun result => (result, 0))) state =
            .ok () state' := by
        simp only [Bind.bind, EStateM.bind, outcome, outcome']
      exact leads_behind both outcomes rfl (by simp only [weight]; omega)

/-- Each part of an activity leads on from it. -/
theorem leads_of_mem_parts (member : (part, state') ∈ here.parts limit state) :
    Leads limit here state part state' := by
  cases here with
  | expr tree => exact leads_expr member
  | stmt tree => exact leads_stmt member
  | call callee args => exact leads_call member
  | frame routine words => exact leads_frame member
  | exprs trees =>
    obtain _ | ⟨tree, rest⟩ := trees
    · simp [parts] at member
    · rcases List.mem_cons.1 member with first | second
      · obtain ⟨rfl, rfl⟩ := Prod.mk.inj first
        exact leads_first rfl (by simp only [weight, List.cons.sizeOf_spec]; omega)
      · obtain ⟨word, middle, outcome, last⟩ := mem_behind.1 second
        obtain ⟨rfl, rfl⟩ := by simpa using last
        have steady := respects_steady.eval (callsRelated_steady limit) tree
        exact leads_behind steady outcome rfl (by simp only [weight, List.cons.sizeOf_spec]; omega)
  | store declares op pairs =>
    obtain _ | ⟨⟨target, word⟩, rest⟩ := pairs
    · simp [parts] at member
    · obtain ⟨value, middle, outcome, last⟩ := mem_behind.1 member
      obtain ⟨rfl, rfl⟩ := by simpa using last
      have steady := respects_steady.store declares op target word
      exact leads_behind steady outcome rfl (by simp [weight])
  | arm tree =>
    obtain ⟨rfl, rfl⟩ := by simpa [parts] using member
    unfold armState
    split
    · exact leads_first rfl (by simp [weight])
    · exact leads_opened rfl (by simp [weight])
  | stmts trees =>
    obtain _ | ⟨tree, rest⟩ := trees
    · simp [parts] at member
    · rcases List.mem_cons.1 member with first | second
      · obtain ⟨rfl, rfl⟩ := Prod.mk.inj first
        exact leads_first rfl (by simp only [weight, List.cons.sizeOf_spec]; omega)
      · obtain ⟨flow, middle, outcome, last⟩ := mem_behind.1 second
        have steady := respects_steady.exec (callsRelated_steady limit) tree
        split at last
        · obtain ⟨rfl, rfl⟩ := by simpa using last
          exact leads_behind steady outcome rfl
            (by simp only [weight, List.cons.sizeOf_spec]; omega)
        · simp at last

end Leads

end Activity

section Reached

variable {program : Program} {limit : Nat} {stack : List Activity} {state : RunState}

/-- Every activity of a program starts in a sound state, and as many frames are open as bodies of
functions are under way. -/
theorem Program.Reached.sound_and_depth (reached : program.Reached limit stack state) :
    state.Sound ∧ state.depth = stack.countP Activity.isFrame := by
  induction reached with
  | whole => exact ⟨RunState.sound_new, rfl⟩
  | part _ member ih =>
    have leads := Activity.leads_of_mem_parts member
    refine ⟨leads.sound ih.1, ?_⟩
    rw [leads.depth, ih.2]
    exact List.countP_cons.symm

/-- No more frames are open than the limit allows. -/
theorem Program.Reached.depth_le (reached : program.Reached limit stack state) :
    state.depth ≤ limit := by
  induction reached with
  | whole => exact Nat.zero_le limit
  | part _ member ih =>
    have leads := Activity.leads_of_mem_parts member
    rw [leads.depth]
    split
    · rename_i isFrame
      exact leads.below isFrame
    · exact ih

/-- Every activity is steady. -/
theorem Activity.steady_run (limit : Nat) : ∀ activity : Activity,
    Run.Steady .statements (activity.run limit) (activity.run limit) := by
  have respects := Run.respects_steady
  have calls := Run.callsRelated_steady limit
  intro activity
  cases activity with
  | expr tree => exact respects.widen (respects.eval calls tree)
  | exprs trees => exact respects.widen (respects.evalAll calls trees)
  | call callee args =>
    exact respects.widen (calls callee args.length (respects.evalAll calls args))
  | frame routine words => exact respects.body calls routine routine.scope words
  | store declares op pairs => exact respects.storeAll declares op pairs
  | stmt tree => exact respects.exec calls tree
  | arm tree => exact respects.withArmScope tree (respects.exec calls tree)
  | stmts trees => exact respects.execAll calls trees

/-- Every state that a run goes through is sound. -/
theorem Program.Visits.sound (visits : program.Visits limit state) : state.Sound := by
  obtain ⟨activity, around, start, reached, rfl | rfl⟩ := visits
  · exact reached.sound_and_depth.1
  · exact (activity.steady_run limit).sound_after reached.sound_and_depth.1

end Reached

end ScriptLang

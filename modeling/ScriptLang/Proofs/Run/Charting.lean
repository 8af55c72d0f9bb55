import ScriptLang.Proofs.Emit.Charting
import ScriptLang.Proofs.Run.Registry
import ScriptLang.Proofs.Run.Safety
import ScriptLang.Proofs.Run.Splitting

/-!
# Charts of a program that runs

While a program runs, every activity belongs to a place of the program, and beside the table of
scopes stands a ledger that tells by which declaration each name was bound. `Program.Traces` is
`Program.Reached` with both: place and ledger do not change what happens, they follow from it. A
function that is called is entered at the place of the declaration that its name leads to.
-/

namespace ScriptLang

/-- The table of scopes with a ledger beside it. -/
def RunState.chart (state : RunState) (ledger : Ledger) : Chart := ⟨state.table, ledger⟩

namespace Activity

/-- The names that an activity looks for itself when it starts: those of a variable that is read, a
function that is called, and a target that is assigned to. -/
def looksFor : Activity → List Name
  | expr (.variable name) => [name]
  | call callee _ => [callee]
  | store false _ ((target, _) :: _) => [target]
  | _ => []

section

variable (limit : Nat) (state : RunState) (place : Place) (ledger : Ledger)

/-- The place of a part of an activity that starts at the place in the state. -/
def placeOf : Activity → Activity → Place
  | stmts _, stmts _ => place.next
  | stmt (.block _), stmts _ => place.inner
  | stmt (.branch condition _ _), arm _ =>
      match Run.eval (Run.calls limit) condition state with
      | .ok word _ => if word.isTrue then place.thenArm else place.elseArm
      | .error .. => place
  | call callee _, frame .. =>
      match (state.chart ledger).site? callee with
      | some (.statement function) => function
      | _ => place
  | frame .., stmts _ => place.inner
  | _, _ => place

/-- The ledger with which a part of an activity starts. The names of a declaration are recorded when
all of them are declared. -/
def ledgerOf : Activity → Activity → Ledger
  | stmts (tree :: _), stmts _ => ledger.record tree.declared (.statement place)
  | stmt (.block _), stmts _ => ledger.enter
  | arm (.block _), stmt _ => ledger
  | arm _, stmt _ => ledger.enter
  | call .., frame .. => ledger.enter
  | frame routine _, stmts _ =>
      (ledger.record routine.params (.parameter place)).record routine.returns (.result place)
  | _, _ => ledger

end

end Activity

/-- The activities that can be under way at once while a program runs, with the place, the ledger and
the state with which the innermost of them starts. -/
inductive Program.Traces (program : Program) (limit : Nat) :
    List Activity → Place → Ledger → RunState → Prop where
  | whole : Traces program limit [.stmts program.body] .first [[]] RunState.new
  | part {here part : Activity} {around : List Activity} {place : Place} {ledger : Ledger}
      {state state' : RunState} : Traces program limit (here :: around) place ledger state →
        (part, state') ∈ here.parts limit state →
          Traces program limit (part :: here :: around) (here.placeOf limit state place ledger part)
            (here.ledgerOf place ledger part) state'

/-- What can be under way has a place and a ledger. -/
theorem Program.reached_iff_traces {program : Program} {limit : Nat} {stack : List Activity}
    {state : RunState} :
    program.Reached limit stack state ↔ ∃ place ledger, program.Traces limit stack place ledger state := by
  constructor
  · intro reached
    induction reached with
    | whole => exact ⟨_, _, .whole⟩
    | part _ member ih =>
      obtain ⟨place, ledger, traces⟩ := ih
      exact ⟨_, _, .part traces member⟩
  · rintro ⟨place, ledger, traces⟩
    induction traces with
    | whole => exact .whole
    | part _ member ih => exact .part ih member

namespace Run

variable {limit : Nat} {state state' : RunState}

open ScopeTable (Adds)

/-- A computation that is stable as an expression ends in a state of the same shape. -/
theorem shape_of_stable {α : Type} {run : Run α} {value : α} (stable : Stable .expression run run)
    (sound : state.Sound) (outcome : run state = .ok value state') : state'.shape = state.shape := by
  have same := stable state sound
  rwa [after, outcome, final_ok] at same

/-- Declaring targets adds their names. -/
theorem adds_of_storeAll {op : AssignOp} {pairs : List (Name × Word)} (nested : state.table.Nested)
    (stored : storeAll true op pairs state = .ok () state') :
    Adds (pairs.map Prod.fst) state.table state'.table := by
  induction pairs generalizing state with
  | nil =>
    obtain ⟨-, rfl⟩ := EStateM.Result.ok.inj stored
    exact .of_shape_eq rfl
  | cons pair rest ih =>
    obtain ⟨target, word⟩ := pair
    obtain ⟨⟨⟩, middle, here, there⟩ := bind_eq_ok.1 stored
    have updated : updateTable (·.declare target word) state = .ok () middle := here
    have adds := ScopeTable.adds_of_insert nested.current_lt (change_of_updateTable updated)
    exact adds.trans (ih (nested.of_adds adds) there)

/-- Storing words in targets that are not declared keeps the shape of the state. -/
theorem stable_storeAll (op : AssignOp) (pairs : List (Name × Word)) :
    Stable .expression (storeAll false op pairs) (storeAll false op pairs) := by
  induction pairs with
  | nil => exact respects_stable.pure ()
  | cons pair rest ih =>
    obtain ⟨target, word⟩ := pair
    exact respects_stable.bind (stable_store op target word) fun _ => ih

/-- An assignment computes its words and stores one in each target. -/
theorem storeAll_of_execAssign {call : Caller} {declares : Bool} {targets : List Name} {op : AssignOp}
    {values : List Expr} (assigned : execAssign call declares targets op values state = .ok () state') :
    ∃ words middle, valuesFor call targets.length values state = .ok words middle ∧
      (pair targets words).map Prod.fst = targets ∧
        storeAll declares op (pair targets words) middle = .ok () state' := by
  unfold execAssign at assigned
  split_ifs at assigned with refused
  · cases assigned
  · obtain ⟨words, middle, computed, behind⟩ := bind_eq_ok.1 assigned
    split_ifs at behind with uneven
    · cases behind
    · exact ⟨words, middle, computed, map_fst_pair (by tauto), behind⟩

/-- A statement that is run adds the names that it declares. -/
theorem adds_of_exec {tree : Stmt} {flow : Flow} (sound : state.Sound)
    (outcome : exec RunState.recycle (calls limit) tree state = .ok flow state') :
    Adds tree.declared state.table state'.table := by
  have calls := callsRelated_stable limit limit
  have plain (stable : Stable .expression (exec RunState.recycle (Run.calls limit) tree)
      (exec RunState.recycle (Run.calls limit) tree)) : Adds [] state.table state'.table :=
    .of_shape_eq (RunState.table_shape_of_shape_eq (shape_of_stable stable sound outcome))
  cases tree with
  | assign declares targets op values =>
    rw [exec] at outcome
    obtain ⟨⟨⟩, final, assigned, ends⟩ := bind_eq_ok.1 outcome
    obtain ⟨-, rfl⟩ := EStateM.Result.ok.inj ends
    obtain ⟨words, middle, computed, named, stored⟩ := storeAll_of_execAssign assigned
    have valued := shape_of_stable (respects_stable.valuesFor calls targets.length values) sound computed
    have adds : Adds [] state.table middle.table :=
      .of_shape_eq (RunState.table_shape_of_shape_eq valued)
    cases declares with
    | true =>
      have declared := adds_of_storeAll (sound.nested.of_adds adds) stored
      rw [named] at declared
      exact adds.trans declared
    | false =>
      have same := shape_of_stable (stable_storeAll op _) (sound.of_shape_eq valued) stored
      exact adds.trans (.of_shape_eq (RunState.table_shape_of_shape_eq same))
  | func name params returns body =>
    have defined := exec_func_eq_ok outcome
    unfold define at defined
    split at defined
    · rename_i table inserted
      cases defined
      exact ScopeTable.adds_of_insert sound.nested.current_lt inserted
    · cases defined
  | branch condition thenArm elseArm =>
    exact plain (respects_stable.exec_branch calls condition thenArm elseArm)
  | ret values code => exact plain (respects_stable.exec_ret calls values code)
  | block body => exact plain (respects_stable.exec_block calls body)
  | expr value => exact plain (respects_stable.exec_expr calls value)
  | empty =>
    rw [exec] at outcome
    obtain ⟨-, rfl⟩ := EStateM.Result.ok.inj outcome
    exact .of_shape_eq rfl

/-- Expressions give one word each. -/
theorem length_evalAll {call : Caller} {trees : List Expr} {words : List Word}
    (evaluated : evalAll call trees state = .ok words state') : words.length = trees.length := by
  induction trees generalizing state words with
  | nil =>
    obtain ⟨rfl, -⟩ := EStateM.Result.ok.inj evaluated
    rfl
  | cons tree rest ih =>
    obtain ⟨word, middle, here, behind⟩ := bind_eq_ok.1 evaluated
    obtain ⟨words', middle', there, ends⟩ := bind_eq_ok.1 behind
    obtain ⟨rfl, rfl⟩ := EStateM.Result.ok.inj ends
    rw [List.length_cons, List.length_cons, ih there]

end Run

namespace Activity

/-- The names that an activity within a statement looks for, itself or in its parts. -/
def looked : Activity → List Name
  | expr tree => tree.looked
  | exprs trees => Expr.lookedAll trees
  | call callee args => callee :: Expr.lookedAll args
  | store false _ pairs => pairs.map Prod.fst
  | _ => []

/-- Whether an activity belongs to a single statement and declares nothing. -/
def isTerm : Activity → Bool
  | expr _ | exprs _ | call .. => true
  | store declares _ _ => !declares
  | _ => false

/-- Whether an activity declares names one after the other. -/
def isDeclaring : Activity → Bool
  | store declares _ _ => declares
  | _ => false

/-- A part belongs to the same statement as the whole, looks for some of the names, and starts where
nothing but values has changed. -/
structure IsTermOf (names : List Name) (state : RunState) (part : Activity) (state' : RunState) :
    Prop where
  term : part.isTerm = true
  fewer : part.looked ⊆ names
  shape : state'.shape = state.shape

section Parts

variable {limit : Nat} {here part : Activity} {state state' : RunState} {names : List Name}

/-- An activity that belongs to a statement has the place and the ledger of the statement. -/
theorem placeOf_of_isTerm (term : part.isTerm = true) (place : Place) (ledger : Ledger) :
    here.placeOf limit state place ledger part = place ∧ here.ledgerOf place ledger part = ledger := by
  cases part with
  | frame _ _ | stmt _ | arm _ | stmts _ => cases term
  | expr _ | exprs _ | call _ _ | store _ _ _ =>
    constructor
    · unfold placeOf
      split <;> first | rfl | contradiction
    · unfold ledgerOf
      split <;> first | rfl | contradiction

/-- The names that an activity looks for itself are among those that it looks for in all. -/
theorem looksFor_subset_looked (here : Activity) : here.looksFor ⊆ here.looked := by
  unfold looksFor
  split
  · simp [looked, Expr.looked]
  · simp [looked]
  · simp [looked]
  · simp

/-- Computing values is part of the statement in which the expressions stand. -/
theorem isTermOf_ofValues {trees : List Expr} (fewer : Expr.lookedAll trees ⊆ names) :
    IsTermOf names state (ofValues trees) state := by
  unfold ofValues
  split
  · exact ⟨rfl, fun _ member => fewer (by simpa [looked, Expr.lookedAll, Expr.looked] using member), rfl⟩
  · exact ⟨rfl, fewer, rfl⟩

/-- Computing a value is part of the statement in which the expression stands. -/
theorem isTermOf_ofValue {tree : Expr} (fewer : tree.looked ⊆ names) :
    IsTermOf names state (ofValue tree) state := by
  unfold ofValue
  split
  · exact ⟨rfl, fun _ member => fewer (by simpa [looked, Expr.looked] using member), rfl⟩
  · exact ⟨rfl, fewer, rfl⟩

open Run (respects_stable callsRelated_stable mem_behind shape_of_stable)

/-- What an expression consists of belongs to the same statement. -/
theorem isTermOf_expr (sound : state.Sound) : ∀ {tree : Expr},
    (part, state') ∈ (expr tree).parts limit state → IsTermOf tree.looked state part state'
  | .number .., member | .string _, member | .variable _, member => by simp [parts] at member
  | .unary op operand, member => by
      obtain ⟨rfl, rfl⟩ := by simpa [parts] using member
      exact ⟨rfl, List.Subset.refl _, rfl⟩
  | .binary op left right, member => by
      rcases List.mem_cons.1 member with first | second
      · obtain ⟨rfl, rfl⟩ := Prod.mk.inj first
        exact ⟨rfl, List.subset_append_left _ _, rfl⟩
      · obtain ⟨word, middle, outcome, last⟩ := mem_behind.1 second
        obtain ⟨rfl, rfl⟩ := by simpa using last
        have stable := respects_stable.eval (callsRelated_stable limit limit) left
        exact ⟨rfl, List.subset_append_right _ _, shape_of_stable stable sound outcome⟩
  | .cast value type, member => by
      obtain ⟨rfl, rfl⟩ := by simpa [parts] using member
      exact ⟨rfl, List.subset_append_left _ _, rfl⟩
  | .logic op left right, member => by
      simp only [parts] at member
      split at member
      · obtain ⟨rfl, rfl⟩ := by simpa using member
        exact ⟨rfl, List.subset_append_right _ _, rfl⟩
      · rename_i positive
        rcases List.mem_cons.1 member with first | second
        · obtain ⟨rfl, rfl⟩ := Prod.mk.inj first
          refine ⟨rfl, ?_, rfl⟩
          rw [Expr.looked, if_neg positive]
          exact List.subset_append_left _ _
        · obtain ⟨word, middle, outcome, last⟩ := mem_behind.1 second
          split at last
          · simp at last
          · obtain ⟨rfl, rfl⟩ := by simpa using last
            have stable := respects_stable.eval (callsRelated_stable limit limit) left
            exact ⟨rfl, List.subset_append_right _ _, shape_of_stable stable sound outcome⟩
  | .logicPrefix op right, member => by
      simp only [parts] at member
      split at member
      · obtain ⟨rfl, rfl⟩ := by simpa using member
        exact ⟨rfl, List.Subset.refl _, rfl⟩
      · simp at member
  | .call callee args, member => by
      obtain ⟨rfl, rfl⟩ := by simpa [parts] using member
      exact ⟨rfl, List.Subset.refl _, rfl⟩

/-- What an activity within a statement consists of belongs to the same statement, but for the frame
of a function that is called. -/
theorem isTermOf_of_mem_parts (sound : state.Sound) (term : here.isTerm = true)
    (member : (part, state') ∈ here.parts limit state) :
    IsTermOf here.looked state part state' ∨
      ∃ callee args routine words, here = call callee args ∧ part = frame routine words := by
  cases here with
  | frame _ _ | stmt _ | arm _ | stmts _ => cases term
  | expr tree => exact .inl (isTermOf_expr sound member)
  | exprs trees =>
    left
    obtain _ | ⟨tree, rest⟩ := trees
    · simp [parts] at member
    · rcases List.mem_cons.1 member with first | second
      · obtain ⟨rfl, rfl⟩ := Prod.mk.inj first
        exact ⟨rfl, List.subset_append_left _ _, rfl⟩
      · obtain ⟨word, middle, outcome, last⟩ := mem_behind.1 second
        obtain ⟨rfl, rfl⟩ := by simpa using last
        have stable := respects_stable.eval (callsRelated_stable limit limit) tree
        exact ⟨rfl, List.subset_append_right _ _, shape_of_stable stable sound outcome⟩
  | store declares op pairs =>
    left
    obtain rfl : declares = false := by simpa [isTerm] using term
    obtain _ | ⟨⟨target, word⟩, rest⟩ := pairs
    · simp [parts] at member
    · obtain ⟨value, middle, outcome, last⟩ := mem_behind.1 member
      obtain ⟨rfl, rfl⟩ := by simpa using last
      exact ⟨rfl, List.subset_cons_self _ _,
        shape_of_stable (Run.stable_store op target word) sound outcome⟩
  | call callee args =>
    obtain ⟨routine, found, outcome, inner⟩ := mem_behind.1 member
    obtain ⟨rfl, -⟩ := routine_eq_ok outcome
    split at inner
    · rcases List.mem_cons.1 inner with first | second
      · obtain ⟨rfl, rfl⟩ := Prod.mk.inj first
        exact .inl ⟨rfl, List.subset_cons_self _ _, rfl⟩
      · obtain ⟨words, middle, -, last⟩ := mem_behind.1 second
        obtain ⟨rfl, -⟩ := by simpa using last
        exact .inr ⟨callee, args, routine, words, rfl, rfl⟩
    · simp at inner

/-- The frame of a call belongs to the routine of the function that the callee means. It opens behind
the arguments, of which there are as many as parameters. -/
theorem entered_of_mem_parts {callee : Name} {args : List Expr} {routine : Routine}
    {words : List Word} (sound : state.Sound)
    (member : (frame routine words, state') ∈ (call callee args).parts limit state) :
    ∃ (index entry : Nat) (middle : RunState), state.table.locate? callee = some (index, .func entry) ∧
      state.routines[entry]? = some routine ∧ words.length = routine.params.length ∧
        middle.shape = state.shape ∧ state' = middle.framed routine.scope := by
  obtain ⟨called, found, outcome, inner⟩ := mem_behind.1 member
  split at inner
  · rename_i allowed
    obtain ⟨words', middle, evaluated, last⟩ := mem_behind.1 (by simpa using inner)
    obtain ⟨⟨rfl, rfl⟩, rfl⟩ := by simpa using last
    obtain ⟨rfl, -⟩ := routine_eq_ok outcome
    have stable := respects_stable.evalAll (callsRelated_stable limit limit) args
    have same := shape_of_stable stable sound evaluated
    unfold Run.routine at outcome
    split at outcome
    · cases outcome
    · cases outcome
    · rename_i entry meant
      split at outcome
      · rename_i registered
        obtain ⟨rfl, -⟩ := EStateM.Result.ok.inj outcome
        obtain ⟨⟨index, symbol⟩, located, rfl⟩ := Option.map_eq_some_iff.1 meant
        exact ⟨index, entry, middle, located, registered,
          (Run.length_evalAll evaluated).trans allowed.1, same, rfl⟩
      · cases outcome
  · simp at inner

/-- Declarations go on with declarations. -/
theorem isDeclaring_of_mem_parts (declaring : here.isDeclaring = true)
    (member : (part, state') ∈ here.parts limit state) : part.isDeclaring = true := by
  cases here with
  | expr _ | exprs _ | call _ _ | frame _ _ | stmt _ | arm _ | stmts _ => cases declaring
  | store declares op pairs =>
    obtain _ | ⟨⟨target, word⟩, rest⟩ := pairs
    · simp [parts] at member
    · obtain ⟨value, middle, outcome, last⟩ := mem_behind.1 member
      obtain ⟨rfl, rfl⟩ := by simpa using last
      exact declaring

/-- In its frame a function declares names and then runs its statements. -/
theorem parts_frame {routine : Routine} {words : List Word}
    (member : (part, state') ∈ (frame routine words).parts limit state) :
    part.isDeclaring = true ∨ ∃ trees, part = stmts trees := by
  rcases List.mem_cons.1 member with first | later
  · obtain ⟨rfl, -⟩ := Prod.mk.inj first
    exact .inl rfl
  · obtain ⟨_, middle, -, later⟩ := mem_behind.1 later
    rcases List.mem_cons.1 later with second | last
    · obtain ⟨rfl, -⟩ := Prod.mk.inj second
      exact .inl rfl
    · obtain ⟨_, middle', -, last⟩ := mem_behind.1 last
      obtain ⟨rfl, -⟩ := by simpa using last
      exact .inr ⟨_, rfl⟩

/-- The body of a function starts where its parameters and results are declared. -/
theorem filled_of_mem_parts {routine : Routine} {words : List Word} {trees : List Stmt}
    (nested : state.table.Nested) (counts : words.length = routine.params.length)
    (member : (stmts trees, state') ∈ (frame routine words).parts limit state) :
    trees = routine.body ∧ ∃ middle : RunState,
      ScopeTable.Adds routine.params state.table middle.table ∧
        ScopeTable.Adds routine.returns middle.table state'.table := by
  obtain ⟨⟨⟩, middle, filled, later⟩ := mem_behind.1 (by simpa [parts] using member)
  obtain ⟨⟨⟩, middle', filled', last⟩ := mem_behind.1 (by simpa using later)
  obtain ⟨rfl, rfl⟩ := by simpa using last
  have params := Run.adds_of_storeAll nested filled
  rw [List.map_fst_zip (Nat.le_of_eq counts.symm)] at params
  have returns := Run.adds_of_storeAll (nested.of_adds params) filled'
  rw [List.map_map] at returns
  exact ⟨rfl, middle, params, by simpa [Function.comp_def] using returns⟩

/-- What a statement consists of: activities that belong to it, the declarations of its targets, the
statements of a block, or the arm that the condition of a branch chooses. -/
theorem parts_stmt {tree : Stmt} (sound : state.Sound)
    (member : (part, state') ∈ (stmt tree).parts limit state) :
    IsTermOf tree.uses state part state' ∨ part.isDeclaring = true ∨
      (∃ body, tree = .block body ∧ part = stmts body ∧ state' = state.opened) ∨
      ∃ condition thenArm elseArm word, tree = .branch condition thenArm elseArm ∧
        Run.eval (Run.calls limit) condition state = .ok word state' ∧
        state'.shape = state.shape ∧
        (word.isTrue = true ∧ part = arm thenArm ∨
          word.isTrue = false ∧ ∃ chosen, elseArm = some chosen ∧ part = arm chosen) := by
  have calls := callsRelated_stable limit limit
  cases tree with
  | func _ _ _ _ | empty => simp [parts] at member
  | ret values code =>
    obtain ⟨rfl, rfl⟩ := by simpa [parts] using member
    exact .inl (isTermOf_ofValues (List.Subset.refl _))
  | expr value =>
    obtain ⟨rfl, rfl⟩ := by simpa [parts] using member
    exact .inl (isTermOf_ofValue (List.Subset.refl _))
  | block body =>
    obtain ⟨rfl, rfl⟩ := by simpa [parts] using member
    exact .inr (.inr (.inl ⟨body, rfl, rfl, rfl⟩))
  | branch condition thenArm elseArm =>
    rcases List.mem_cons.1 member with first | second
    · obtain ⟨rfl, rfl⟩ := Prod.mk.inj first
      exact .inl ⟨rfl, List.Subset.refl _, rfl⟩
    · obtain ⟨word, middle, outcome, last⟩ := mem_behind.1 second
      have same := shape_of_stable (respects_stable.eval calls condition) sound outcome
      refine .inr (.inr (.inr ⟨condition, thenArm, elseArm, word, rfl, ?_⟩))
      split at last
      · rename_i holds
        obtain ⟨rfl, rfl⟩ := by simpa using last
        exact ⟨outcome, same, .inl ⟨holds, rfl⟩⟩
      · rename_i fails
        obtain ⟨chosen, present, rfl, rfl⟩ := by simpa using last
        exact ⟨outcome, same, .inr ⟨by simpa using fails, chosen, present, rfl⟩⟩
  | assign declares targets op values =>
    simp only [parts] at member
    split at member
    · simp at member
    · rcases List.mem_cons.1 member with first | second
      · obtain ⟨rfl, rfl⟩ := Prod.mk.inj first
        exact .inl (isTermOf_ofValues (List.subset_append_left _ _))
      · obtain ⟨words, middle, outcome, last⟩ := mem_behind.1 second
        have same := shape_of_stable (respects_stable.valuesFor calls targets.length values) sound outcome
        split at last
        · simp at last
        · rename_i even
          obtain ⟨rfl, rfl⟩ := by simpa using last
          cases declares with
          | true => exact .inr (.inl rfl)
          | false =>
            have named : (Run.pair targets words).map Prod.fst = targets :=
              Run.map_fst_pair (by tauto)
            exact .inl ⟨rfl, by simp [looked, Stmt.uses, named], same⟩

end Parts

end Activity

end ScriptLang

import ScriptLang.Proofs.Emit.Growth
import ScriptLang.Proofs.Tree.Proper

/-!
# The parentheses of conditions

The condition of a branch is printed without its outermost parentheses, since the branch brings its
own. An operator between two operands is always printed in parentheses, so one opening and one
closing parenthesis are what is taken off, and the printing of a proper program can only stop at a
name.
-/

namespace ScriptLang

namespace Emit

/-- Whenever the computation fails, a name is the cause. -/
def FailsOnNames {α : Type} (outcome : Except EmitError α) : Prop :=
  ∀ error, outcome = .error error → ∃ cause, error = .name cause

section FailsOnNames

variable {α β : Type}

/-- If two steps succeed then each of them does. -/
theorem exists_of_bind_eq_ok {first : Except EmitError α} {second : α → Except EmitError β}
    {result : β} (succeeded : first >>= second = .ok result) :
    ∃ value, first = .ok value ∧ second value = .ok result := by
  cases first with
  | ok value => exact ⟨value, rfl, succeeded⟩
  | error error => cases succeeded

/-- A computation that succeeds does not fail on anything but names. -/
theorem failsOnNames_ok (value : α) : FailsOnNames (.ok value) :=
  fun _ failed => nomatch failed

/-- Two steps fail on nothing but names if this is so of each step. -/
theorem FailsOnNames.bind {first : Except EmitError α} {second : α → Except EmitError β}
    (here : FailsOnNames first) (there : ∀ value, first = .ok value → FailsOnNames (second value)) :
    FailsOnNames (first >>= second) := by
  intro error failed
  cases outcome : first with
  | ok value => exact there value outcome error (by rwa [outcome] at failed)
  | error met =>
    rw [outcome] at failed
    obtain rfl : met = error := Except.error.inj failed
    exact here met outcome

/-- What is done with a result cannot fail. -/
theorem FailsOnNames.map {first : Except EmitError α} (here : FailsOnNames first) (change : α → β) :
    FailsOnNames (change <$> first) := by
  intro error failed
  cases outcome : first with
  | ok value =>
    rw [outcome] at failed
    cases failed
  | error met =>
    rw [outcome] at failed
    obtain rfl : met = error := Except.error.inj failed
    exact here met outcome

variable {dialect : Dialect} {table : ScopeTable Nat}

/-- The check of a name fails on names only. -/
theorem failsOnNames_check (name : Name) : FailsOnNames (check table name) := by
  intro error failed
  unfold check at failed
  split at failed
  · cases failed
  · cases failed
    exact ⟨_, rfl⟩

mutual

/-- An expression is printed unless a name in it means nothing. -/
theorem failsOnNames_expr : ∀ tree : Expr, FailsOnNames (expr dialect table tree)
  | .number .. | .string _ => failsOnNames_ok _
  | .variable name => (failsOnNames_check name).map _
  | .unary _ operand => (failsOnNames_expr operand).map _
  | .binary _ left right =>
      (failsOnNames_expr left).bind fun _ _ => (failsOnNames_expr right).map _
  | .cast value type => by
      refine (failsOnNames_expr value).bind fun _ _ => ?_
      split
      · exact (failsOnNames_ok _).map _
      · exact (failsOnNames_expr type).map _
  | .logic op left right => by
      by_cases negates : op = .not
      · subst negates
        exact (failsOnNames_expr right).map _
      · rw [expr]
        · exact (failsOnNames_expr right).bind fun _ _ => (failsOnNames_expr left).map _
        · exact negates
  | .logicPrefix _ right => (failsOnNames_expr right).map _
  | .call callee args =>
      (failsOnNames_check callee).bind fun _ _ => (failsOnNames_exprs args).map _

/-- The printing of expressions fails on names only. -/
theorem failsOnNames_exprs : ∀ trees : List Expr, FailsOnNames (exprs dialect table trees)
  | [] => failsOnNames_ok _
  | tree :: rest => (failsOnNames_expr tree).bind fun _ _ => (failsOnNames_exprs rest).map _

end

end FailsOnNames

section Conditions

variable {dialect : Dialect} {table : ScopeTable Nat}

/-- What is taken off a text in parentheses is the parentheses. -/
theorem stripEnds?_parentheses (inner : String) : stripEnds? ("(" ++ inner ++ ")") = some inner := by
  obtain ⟨letters, rfl⟩ : ∃ letters, inner = String.ofList letters := ⟨_, String.ofList_toList.symm⟩
  have whole : ("(" ++ String.ofList letters ++ ")").toList = '(' :: (letters ++ [')']) := by
    simp
  unfold stripEnds?
  rw [whole]
  cases letters with
  | nil => rfl
  | cons first rest =>
    have last : (first :: (rest ++ [')'])).getLast (List.cons_ne_nil _ _) = ')' :=
      List.getLast_append_singleton (first :: rest)
    have front : (first :: (rest ++ [')'])).dropLast = first :: rest :=
      @List.dropLast_concat _ (first :: rest) ')'
    simp only [List.cons_append, last, front]
    rfl

/-- Two operands are printed in parentheses, with the operator between them. -/
theorem between_eq (symbol first second : String) :
    between symbol first second = "(" ++ (first ++ " " ++ symbol ++ " " ++ second) ++ ")" := by
  simp [between, String.append_assoc]

/-- An operator between two operands is printed in parentheses. -/
theorem exists_parentheses_of_expr {test : Expr} (wrapped : isWrapped test = true)
    (joins : ∀ op left right, test = .logic op left right → op ≠ .not) {text : String}
    (printed : expr dialect table test = .ok text) : ∃ inner, text = "(" ++ inner ++ ")" := by
  match test, wrapped, joins with
  | .binary op left right, _, _ =>
    rw [expr] at printed
    obtain ⟨first, -, printed⟩ := exists_of_bind_eq_ok printed
    obtain ⟨second, -, printed⟩ := exists_of_bind_eq_ok printed
    exact ⟨_, (Except.ok.inj printed).symm.trans (between_eq op.symbol first second)⟩
  | .logic op left right, _, joins =>
    rw [expr] at printed
    · obtain ⟨second, -, printed⟩ := exists_of_bind_eq_ok printed
      obtain ⟨first, -, printed⟩ := exists_of_bind_eq_ok printed
      exact ⟨_, (Except.ok.inj printed).symm.trans (between_eq op.symbol first second)⟩
    · exact joins op left right rfl

/-- An operator with two operands is printed in parentheses. -/
theorem expr_of_isWrapped {test : Expr} (proper : test.Proper) (wrapped : isWrapped test = true)
    {text : String} (printed : expr dialect table test = .ok text) :
    ∃ inner, text = "(" ++ inner ++ ")" :=
  exists_parentheses_of_expr wrapped
    (fun _ _ _ same => (Expr.proper_logic.1 (same ▸ proper)).1) printed

/-- The condition of a branch is printed without one opening and one closing parenthesis, if it is
printed in parentheses, and in full otherwise. -/
theorem condition_eq {test : Expr} (proper : test.Proper) {text : String}
    (printed : expr dialect table test = .ok text) :
    ∃ inner, condition dialect table test = .ok inner ∧
      text = if isWrapped test then "(" ++ inner ++ ")" else inner := by
  unfold condition
  rw [printed]
  by_cases wrapped : isWrapped test = true
  · obtain ⟨inner, rfl⟩ := expr_of_isWrapped proper wrapped printed
    refine ⟨inner, ?_, by rw [if_pos wrapped]⟩
    simp only [Bind.bind, Except.bind, wrapped, stripEnds?_parentheses, if_true]
    rfl
  · refine ⟨text, ?_, by rw [if_neg wrapped]⟩
    simp only [Bind.bind, Except.bind, wrapped]
    rfl

/-- The condition of a branch fails on names only: the characters that it strips are parentheses. -/
theorem failsOnNames_condition {test : Expr} (proper : test.Proper) :
    FailsOnNames (condition dialect table test) := by
  cases outcome : expr dialect table test with
  | ok text =>
    obtain ⟨inner, stripped, -⟩ := condition_eq proper outcome
    rw [stripped]
    exact failsOnNames_ok inner
  | error error =>
    refine (failsOnNames_expr test).bind fun text printed => ?_
    rw [outcome] at printed
    cases printed

end Conditions

/-- From every table the printing fails on names only. -/
def StopsAtNames {α : Type} (printing : Emit α) : Prop :=
  ∀ table : ScopeTable Nat, FailsOnNames (printing table)

section StopsAtNames

variable {α β : Type}

/-- Nothing fails where nothing is printed. -/
theorem stopsAtNames_pure (value : α) : StopsAtNames (pure value) :=
  fun _ => failsOnNames_ok _

/-- Two printings stop at nothing but names if this is so of each. -/
theorem StopsAtNames.bind {first : Emit α} {second : α → Emit β} (here : StopsAtNames first)
    (there : ∀ value, StopsAtNames (second value)) : StopsAtNames (first >>= second) :=
  fun table => (here table).bind fun found _ => there found.1 found.2

/-- A question to the table stops at nothing but names if its answer fails on nothing else. -/
theorem stopsAtNames_ask {question : ScopeTable Nat → Except EmitError α}
    (stops : ∀ table, FailsOnNames (question table)) : StopsAtNames (ask question) := by
  intro table
  change FailsOnNames (question table >>= fun value => .ok (value, table))
  exact (stops table).bind fun _ _ => failsOnNames_ok _

/-- A change of the table stops at names only. -/
theorem stopsAtNames_change (update : ScopeTable Nat → Except NameError (ScopeTable Nat)) :
    StopsAtNames (change update) := by
  intro table error failed
  cases outcome : update table with
  | ok updated =>
    rw [change_eq_ok.2 outcome] at failed
    cases failed
  | error cause =>
    have met : change update table = .error (.name cause) := by
      simp only [change, bind, StateT.bind, get, getThe, MonadStateOf.get, StateT.get, pure,
        Except.pure, Except.bind, outcome]
      rfl
    exact ⟨cause, Except.error.inj (failed.symm.trans met)⟩

/-- Within a scope of its own, too, a printing stops at names only. -/
theorem StopsAtNames.withScope {body : Emit α} (stops : StopsAtNames body) :
    StopsAtNames (withScope body) := by
  intro table
  change FailsOnNames (body table.enter >>= fun found => .ok (found.1, found.2.exit table.current))
  exact (stops table.enter).bind fun _ _ => failsOnNames_ok _

/-- The declaration of a name, or the check of one, stops at names only. -/
theorem stopsAtNames_introduce (declares : Bool) (name : Name) :
    StopsAtNames (introduce declares name) := by
  unfold introduce
  split
  · exact stopsAtNames_change _
  · exact stopsAtNames_ask fun _ => failsOnNames_check name

/-- A step for each name stops at nothing but names if this is so of each of them. -/
theorem stopsAtNames_forM {action : Name → Emit PUnit} (stops : ∀ name, StopsAtNames (action name))
    (names : List Name) : StopsAtNames (names.forM action) := by
  induction names with
  | nil => exact stopsAtNames_pure ()
  | cons name rest ih => exact (stops name).bind fun _ => ih

/-- An arm stops at names only, whether or not a scope is opened for it. -/
theorem StopsAtNames.armScope {lines : Emit (List Line)} (stops : StopsAtNames lines) (arm : Stmt) :
    StopsAtNames (armScope arm lines) := by
  unfold Emit.armScope
  split
  · exact stops
  · exact stops.withScope

variable (dialect : Dialect)

/-- The printing of an assignment stops at names only. -/
theorem stopsAtNames_assignment (declares : Bool) (targets : List Name) (op : AssignOp)
    (values : List Expr) : StopsAtNames (assignment dialect declares targets op values) := by
  unfold assignment
  refine (stopsAtNames_ask fun _ => failsOnNames_exprs values).bind fun texts => ?_
  refine (stopsAtNames_ask failsOnNames_ok).bind fun table => ?_
  refine (stopsAtNames_forM (stopsAtNames_introduce declares) targets).bind fun _ => ?_
  split <;> exact stopsAtNames_pure _

mutual

/-- Printing a proper statement stops at names only. -/
theorem stopsAtNames_inner : ∀ {stmt : Stmt}, stmt.Proper → StopsAtNames (inner dialect stmt)
  | .assign declares targets op values, _ =>
      stopsAtNames_assignment dialect declares targets op values
  | .branch test thenArm elseArm, proper => by
      obtain ⟨condition, first, second⟩ := Stmt.proper_branch.1 proper
      exact (stopsAtNames_ask fun _ => failsOnNames_condition condition).bind fun _ =>
        ((stopsAtNames_inner first).armScope thenArm).bind fun _ =>
          (stopsAtNames_elseLines second).bind fun _ => stopsAtNames_pure _
  | .func name params returns body, proper => by
      obtain ⟨-, -, body⟩ := Stmt.proper_func.1 proper
      exact (stopsAtNames_change _).bind fun _ => StopsAtNames.withScope <|
        (stopsAtNames_forM (fun _ => stopsAtNames_change _) _).bind fun _ =>
          (stopsAtNames_all body).bind fun _ => stopsAtNames_pure _
  | .ret values _, _ =>
      (stopsAtNames_ask fun _ => failsOnNames_exprs values).bind fun _ => stopsAtNames_pure _
  | .block body, proper => (stopsAtNames_all (Stmt.proper_block.1 proper)).withScope
  | .expr value, _ =>
      (stopsAtNames_ask fun _ => failsOnNames_expr value).bind fun _ => stopsAtNames_pure _
  | .empty, _ => stopsAtNames_pure _

/-- The arm behind `else` stops at names only, and so does its absence. -/
theorem stopsAtNames_elseLines : ∀ {arm : Option Stmt}, (∀ stmt ∈ arm, stmt.Proper) →
    StopsAtNames (elseLines dialect arm)
  | none, _ => stopsAtNames_pure _
  | some arm, proper =>
      ((stopsAtNames_inner (proper arm rfl)).armScope arm).bind fun _ => stopsAtNames_pure _

/-- The statements of a body stop at names only. -/
theorem stopsAtNames_all : ∀ {body : List Stmt}, Stmt.AllProper body →
    StopsAtNames (all dialect body)
  | [], _ => stopsAtNames_pure _
  | stmt :: rest, proper => by
      obtain ⟨first, others⟩ := Stmt.allProper_cons.1 proper
      exact (stopsAtNames_inner first.2).bind fun _ =>
        (stopsAtNames_all others).bind fun _ => stopsAtNames_pure _

end

end StopsAtNames

end Emit

/-- A proper program is printed unless a name in it means nothing or is declared twice. -/
theorem Program.failsOnNames_emit {program : Program} (proper : Stmt.AllProper program.body)
    (dialect : Dialect) : Emit.FailsOnNames (program.emit dialect) := by
  have stops := Emit.stopsAtNames_all dialect proper ScopeTable.new
  exact (stops.bind fun _ _ => Emit.failsOnNames_ok _).map Line.renderAll

end ScriptLang

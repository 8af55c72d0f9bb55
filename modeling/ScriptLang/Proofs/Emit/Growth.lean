import ScriptLang.Proofs.Emit.Names
import ScriptLang.Proofs.Scope.Shape

/-!
# Scopes while a program is printed

Printing a statement declares names in the current scope and closes every scope that it opens, so
the table of scopes only grows. The lemmas `inner_assign`, `inner_branch` and so on tell what the
printing of each statement has looked for and declared on its way, without the text.
-/

namespace ScriptLang

namespace Emit

variable {α β : Type} {table table' : ScopeTable Nat}

section Steps

/-- Two steps succeed exactly if the first does and the second does behind it. -/
theorem bind_eq_ok {first : Emit α} {second : α → Emit β} {result : β × ScopeTable Nat} :
    (first >>= second) table = .ok result ↔
      ∃ value table', first table = .ok (value, table') ∧ second value table' = .ok result := by
  simp only [Bind.bind, StateT.bind, Except.bind]
  cases first table with
  | error error => simp
  | ok found =>
    obtain ⟨value, table'⟩ := found
    simp [and_assoc]

/-- A step that does nothing gives its value and leaves the table. -/
theorem pure_eq_ok {value result : α} :
    (pure value : Emit α) table = .ok (result, table') ↔ value = result ∧ table = table' := by
  change (Except.ok (value, table) : Except EmitError _) = .ok (result, table') ↔ _
  simp

/-- The table that is asked for is the one that is there. -/
theorem get_eq_ok {value : ScopeTable Nat} :
    (get : Emit (ScopeTable Nat)) table = .ok (value, table') ↔ table = value ∧ table = table' := by
  simp [get, getThe, MonadStateOf.get, StateT.get, pure, Except.pure]

/-- A question is answered from the table and leaves it. -/
theorem ask_eq_ok {question : ScopeTable Nat → Except EmitError α} {value : α} :
    ask question table = .ok (value, table') ↔ question table = .ok value ∧ table = table' := by
  simp only [ask, bind, StateT.bind, get, getThe, MonadStateOf.get, StateT.get, pure, Except.pure,
    Except.bind, liftM, monadLift, MonadLift.monadLift, StateT.lift]
  cases question table with
  | error error => simp
  | ok found => simp

/-- A change leaves the table that the update makes of the one before. -/
theorem change_eq_ok {update : ScopeTable Nat → Except NameError (ScopeTable Nat)} :
    change update table = .ok ((), table') ↔ update table = .ok table' := by
  simp only [change, bind, StateT.bind, get, getThe, MonadStateOf.get, StateT.get, pure, Except.pure,
    Except.bind]
  cases update table with
  | error error => simp [throw, throwThe, MonadExceptOf.throw, StateT.lift, Except.bind, bind]
  | ok updated =>
    change (Except.ok ((), updated) : Except EmitError _) = .ok ((), table') ↔ _
    simp

/-- A printing in a scope of its own is one behind the opening of the scope, which is closed
afterwards. -/
theorem withScope_eq_ok {body : Emit α} {result : α} :
    withScope body table = .ok (result, table') ↔
      ∃ final, body table.enter = .ok (result, final) ∧ final.exit table.current = table' := by
  change (body table.enter).bind (fun found =>
    .ok (found.1, found.2.exit table.current)) = .ok (result, table') ↔ _
  cases body table.enter with
  | error error => simp [Except.bind]
  | ok found => simp [Except.bind, Prod.ext_iff, and_assoc]

end Steps

/-- Whenever the printing succeeds, the table grows. -/
def Growing (printing : Emit α) : Prop :=
  ∀ ⦃table table' : ScopeTable Nat⦄ ⦃result : α⦄, table.Nested →
    printing table = .ok (result, table') → table.Grows table'

/-- Where nothing is done the table grows by nothing. -/
theorem growing_pure (value : α) : Growing (pure value) := by
  intro table table' result _ printed
  obtain ⟨-, rfl⟩ := pure_eq_ok.1 printed
  exact .refl table

/-- Two steps let the table grow if each does. -/
theorem growing_bind {first : Emit α} {second : α → Emit β} (here : Growing first)
    (there : ∀ value, Growing (second value)) : Growing (first >>= second) := by
  intro table table'' result nested printed
  obtain ⟨value, table', printed', further⟩ := bind_eq_ok.1 printed
  have grows := here nested printed'
  exact grows.trans (there value (nested.of_grows grows) further)

/-- A question leaves the table, so it grows by nothing. -/
theorem growing_ask (question : ScopeTable Nat → Except EmitError α) : Growing (ask question) := by
  intro table table' result _ printed
  obtain ⟨-, rfl⟩ := ask_eq_ok.1 printed
  exact .refl table

/-- Binding a name in the current scope lets the table grow. -/
theorem growing_insert (name : Name) (symbol : Symbol Nat) :
    Growing (change (·.insert name symbol)) := by
  intro table table' _ _ printed
  exact ScopeTable.grows_of_insert (change_eq_ok.1 printed)

/-- Printing in a scope of its own gives the table its shape back. -/
theorem shape_withScope {body : Emit α} {result : α} (growing : Growing body)
    (nested : table.Nested) (printed : withScope body table = .ok (result, table')) :
    table'.shape = table.shape := by
  obtain ⟨final, inside, rfl⟩ := withScope_eq_ok.1 printed
  have live := nested.current_lt
  have grows := growing (nested.enterUnder live) inside
  exact ScopeTable.shape_exit_of_grows (Nat.zero_lt_of_lt live) grows table.current

/-- A printing lets the table grow in a scope of its own too. -/
theorem growing_withScope {body : Emit α} (growing : Growing body) : Growing (withScope body) :=
  fun _ _ _ nested printed => .of_shape_eq (shape_withScope growing nested printed)

/-- A step for each name lets the table grow if each of them does. -/
theorem growing_forM {action : Name → Emit PUnit} (growing : ∀ name, Growing (action name))
    (names : List Name) : Growing (names.forM action) := by
  induction names with
  | nil => exact growing_pure ()
  | cons name rest ih => exact growing_bind (growing name) fun _ => ih

/-- Names that were declared are seen. -/
theorem sees_of_forM_declare {names : List Name} (nested : table.Nested)
    (introduced : names.forM declare table = .ok ((), table')) :
    ∀ name ∈ names, Sees table'.scopes name table'.current := by
  induction names generalizing table with
  | nil => simp
  | cons first rest ih =>
    obtain ⟨⟨⟩, middle, here, there⟩ := bind_eq_ok.1 introduced
    have inserted := change_eq_ok.1 here
    have nested' := nested.of_grows (ScopeTable.grows_of_insert inserted)
    have grows := growing_forM (fun name => growing_insert name _) rest nested' there
    intro name member
    rcases List.mem_cons.1 member with rfl | later
    · rw [grows.current]
      exact grows.sees (ScopeTable.sees_insert nested.current_lt inserted)
    · exact ih nested' there name later

/-- The declaration of a name lets the table grow, and so does the check of one. -/
theorem growing_introduce (declares : Bool) (name : Name) : Growing (introduce declares name) := by
  unfold introduce
  split
  · exact growing_insert name _
  · exact growing_ask _

/-- An arm lets the table grow, whether or not a scope is opened for it. -/
theorem growing_armScope (arm : Stmt) {lines : Emit (List Line)} (growing : Growing lines) :
    Growing (armScope arm lines) := by
  unfold armScope
  split
  · exact growing
  · exact growing_withScope growing

variable (dialect : Dialect)

/-- The printing of an assignment lets the table grow. -/
theorem growing_assignment (declares : Bool) (targets : List Name) (op : AssignOp)
    (values : List Expr) : Growing (assignment dialect declares targets op values) := by
  unfold assignment
  refine growing_bind (growing_ask _) fun texts => ?_
  refine growing_bind (growing_ask .ok) fun table => ?_
  refine growing_bind (growing_forM (growing_introduce declares) targets) fun _ => ?_
  split <;> exact growing_pure _

mutual

/-- Printing a statement makes the table grow. -/
theorem growing_inner : ∀ stmt : Stmt, Growing (inner dialect stmt)
  | .assign declares targets op values => growing_assignment dialect declares targets op values
  | .branch _ thenArm elseArm =>
      growing_bind (growing_ask _) fun _ =>
        growing_bind (growing_armScope thenArm (growing_inner thenArm)) fun _ =>
          growing_bind (growing_elseLines elseArm) fun _ => growing_pure _
  | .func name _ _ body =>
      growing_bind (growing_insert name _) fun _ => growing_withScope <|
        growing_bind (growing_forM (fun name => growing_insert name _) _) fun _ =>
          growing_bind (growing_all body) fun _ => growing_pure _
  | .ret _ _ => growing_bind (growing_ask _) fun _ => growing_pure _
  | .block body => growing_withScope (growing_all body)
  | .expr _ => growing_bind (growing_ask _) fun _ => growing_pure _
  | .empty => growing_pure _

/-- The arm behind `else` lets the table grow. -/
theorem growing_elseLines : ∀ arm : Option Stmt, Growing (elseLines dialect arm)
  | none => growing_pure _
  | some arm =>
      growing_bind (growing_armScope arm (growing_inner arm)) fun _ => growing_pure _

/-- The statements of a body let the table grow. -/
theorem growing_all : ∀ stmts : List Stmt, Growing (all dialect stmts)
  | [] => growing_pure _
  | stmt :: rest =>
      growing_bind (growing_inner stmt) fun _ =>
        growing_bind (growing_all rest) fun _ => growing_pure _

end

section Traces

variable {dialect : Dialect} {lines : List Line}

/-- An arm declares nothing behind it. -/
theorem shape_armScope {arm : Stmt} (nested : table.Nested)
    (printed : armScope arm (inner dialect arm) table = .ok (lines, table')) :
    table'.shape = table.shape := by
  unfold armScope at printed
  split at printed
  · rw [inner] at printed
    exact shape_withScope (growing_all dialect _) nested printed
  · exact shape_withScope (growing_inner dialect arm) nested printed

/-- An assignment looks for the names in its values, and then declares or finds its targets. -/
theorem inner_assign {declares : Bool} {targets : List Name} {op : AssignOp} {values : List Expr}
    (printed : inner dialect (.assign declares targets op values) table = .ok (lines, table')) :
    (∀ name ∈ Expr.lookedAll values, Known table name) ∧
      targets.forM (introduce declares) table = .ok ((), table') := by
  rw [inner, assignment] at printed
  obtain ⟨texts, table₁, asked, printed⟩ := bind_eq_ok.1 printed
  obtain ⟨found, rfl⟩ := ask_eq_ok.1 asked
  obtain ⟨_, table₂, asked, printed⟩ := bind_eq_ok.1 printed
  obtain ⟨rfl, rfl⟩ := get_eq_ok.1 asked
  obtain ⟨⟨⟩, table₃, introduced, printed⟩ := bind_eq_ok.1 printed
  obtain rfl : table₃ = table' := by
    split at printed <;> exact (pure_eq_ok.1 printed).2
  exact ⟨(exprs_eq_ok_iff values).1 ⟨texts, found⟩, introduced⟩

/-- A branch looks for the names in its condition and prints one arm after the other. -/
theorem inner_branch {test : Expr} {thenArm : Stmt} {elseArm : Option Stmt}
    (printed : inner dialect (.branch test thenArm elseArm) table = .ok (lines, table')) :
    (∀ name ∈ test.looked, Known table name) ∧ ∃ first table₁ second,
      armScope thenArm (inner dialect thenArm) table = .ok (first, table₁) ∧
        elseLines dialect elseArm table₁ = .ok (second, table') := by
  obtain ⟨text, table₁, asked, printed⟩ := bind_eq_ok.1 printed
  obtain ⟨found, rfl⟩ := ask_eq_ok.1 asked
  obtain ⟨first, table₂, here, printed⟩ := bind_eq_ok.1 printed
  obtain ⟨second, table₃, there, printed⟩ := bind_eq_ok.1 printed
  obtain ⟨-, rfl⟩ := pure_eq_ok.1 printed
  obtain ⟨inner, shown, -⟩ := succeeds_bind.1 ⟨text, found⟩
  exact ⟨(expr_eq_ok_iff test).1 ⟨inner, shown⟩, first, table₂, second, here, there⟩

/-- A function is declared, and its body is printed in a scope with its parameters and results. -/
theorem inner_func {name : Name} {params returns : List Name} {body : List Stmt}
    (printed : inner dialect (.func name params returns body) table = .ok (lines, table')) :
    ∃ table₁ table₂ table₃ lines', table.declareFunction name returns.length = .ok table₁ ∧
      (params ++ returns).forM declare table₁.enter = .ok ((), table₂) ∧
        all dialect body table₂ = .ok (lines', table₃) ∧
          table₃.exit table₁.current = table' := by
  obtain ⟨⟨⟩, table₁, declared, printed⟩ := bind_eq_ok.1 printed
  obtain ⟨final, inside, rfl⟩ := withScope_eq_ok.1 printed
  obtain ⟨⟨⟩, table₂, introduced, inside⟩ := bind_eq_ok.1 inside
  obtain ⟨lines', table₃, shown, inside⟩ := bind_eq_ok.1 inside
  obtain ⟨-, rfl⟩ := pure_eq_ok.1 inside
  exact ⟨table₁, table₂, table₃, lines', change_eq_ok.1 declared, introduced, shown, rfl⟩

/-- A `return` looks for the names in its values. -/
theorem inner_ret {values : List Expr} {code : Option String}
    (printed : inner dialect (.ret values code) table = .ok (lines, table')) :
    (∀ name ∈ Expr.lookedAll values, Known table name) ∧ table = table' := by
  obtain ⟨texts, table₁, asked, printed⟩ := bind_eq_ok.1 printed
  obtain ⟨found, rfl⟩ := ask_eq_ok.1 asked
  exact ⟨(exprs_eq_ok_iff values).1 ⟨texts, found⟩, (pure_eq_ok.1 printed).2⟩

/-- An expression that stands alone looks for its names. -/
theorem inner_expr {value : Expr}
    (printed : inner dialect (.expr value) table = .ok (lines, table')) :
    (∀ name ∈ value.looked, Known table name) ∧ table = table' := by
  obtain ⟨text, table₁, asked, printed⟩ := bind_eq_ok.1 printed
  obtain ⟨found, rfl⟩ := ask_eq_ok.1 asked
  exact ⟨(expr_eq_ok_iff value).1 ⟨text, found⟩, (pure_eq_ok.1 printed).2⟩

/-- An arm behind `else` is printed as the arm of a branch. -/
theorem elseLines_some {arm : Stmt}
    (printed : elseLines dialect (some arm) table = .ok (lines, table')) :
    ∃ lines', armScope arm (inner dialect arm) table = .ok (lines', table') := by
  obtain ⟨lines', table₁, here, printed⟩ := bind_eq_ok.1 printed
  obtain ⟨-, rfl⟩ := pure_eq_ok.1 printed
  exact ⟨lines', here⟩

/-- The arm behind `else` declares nothing behind it. -/
theorem shape_elseLines {arm : Option Stmt} (nested : table.Nested)
    (printed : elseLines dialect arm table = .ok (lines, table')) : table'.shape = table.shape := by
  cases arm with
  | none =>
    rw [elseLines] at printed
    obtain ⟨-, rfl⟩ := pure_eq_ok.1 printed
    rfl
  | some arm =>
    obtain ⟨lines', here⟩ := elseLines_some printed
    exact shape_armScope nested here

/-- The scope of a body declares nothing behind it. -/
theorem shape_body {names : List Name} {body : List Stmt} {opened closed : ScopeTable Nat}
    (nested : table.Nested) (introduced : names.forM declare table.enter = .ok ((), opened))
    (printed : all dialect body opened = .ok (lines, closed)) :
    (closed.exit table.current).shape = table.shape := by
  have live := nested.current_lt
  have nested' : table.enter.Nested := nested.enterUnder live
  have grows := growing_forM (fun name => growing_insert name _) names nested' introduced
  have grows' := growing_all dialect body (nested'.of_grows grows) printed
  exact ScopeTable.shape_exit_of_grows (Nat.zero_lt_of_lt live) (grows.trans grows') table.current

/-- Statements are printed one after the other. -/
theorem all_cons {stmt : Stmt} {rest : List Stmt}
    (printed : all dialect (stmt :: rest) table = .ok (lines, table')) :
    ∃ first table₁ others, inner dialect stmt table = .ok (first, table₁) ∧
      all dialect rest table₁ = .ok (others, table') := by
  rw [all] at printed
  obtain ⟨first, table₁, here, printed⟩ := bind_eq_ok.1 printed
  obtain ⟨others, table₂, there, printed⟩ := bind_eq_ok.1 printed
  obtain ⟨-, rfl⟩ := pure_eq_ok.1 printed
  exact ⟨first, table₁, others, here, there⟩

end Traces

end Emit

/-- A program is printed by printing its statements with the root scope. -/
theorem Program.all_of_emit {program : Program} {dialect : Dialect} {text : String}
    (printed : program.emit dialect = .ok text) :
    ∃ lines table, Emit.all dialect program.body ScopeTable.new = .ok (lines, table) := by
  unfold emit emitLines at printed
  cases outcome : (Emit.all dialect program.body).run ScopeTable.new with
  | error error => simp [outcome, Bind.bind, Except.bind, Except.map] at printed
  | ok found => exact ⟨found.1, found.2, outcome⟩

/-- The imports are printed in front of the statements. -/
theorem Program.emit_of_all {program : Program} {dialect : Dialect} {lines : List Line}
    {table : ScopeTable Nat} (shown : Emit.all dialect program.body ScopeTable.new = .ok (lines, table)) :
    program.emit dialect = .ok (Line.renderAll
      (program.imports.map (fun path => Line.outer (dialect.importLine path)) ++ lines)) := by
  unfold emit emitLines
  rw [StateT.run, shown]
  rfl

end ScriptLang

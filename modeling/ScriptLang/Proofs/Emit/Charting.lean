import ScriptLang.Proofs.Emit.Growth
import ScriptLang.Proofs.Scope.Charts

/-!
# Charts of a program that is printed

`Program.chartAt?` is the table of scopes with which the statement at a place is printed, and beside
it the ledger that tells where its names were declared. All names that the statement uses are looked
for in this table. If a whole program can be printed then there is a chart for each of its places, and
`Program.Charted` leads from the chart of a statement to those of the statements behind and within
it.
-/

namespace ScriptLang

/-- A scope is opened for an arm of a branch, unless it is a block, which opens one itself. -/
def Chart.enterArm (chart : Chart) : Stmt → Chart
  | .block _ => chart
  | _ => chart.enter

/-- What holds of a chart and of the chart with a scope opened holds where an arm starts. -/
theorem Chart.enterArm_cases {property : Chart → Prop} {chart : Chart} (here : property chart)
    (opened : property chart.enter) (arm : Stmt) : property (chart.enterArm arm) := by
  unfold enterArm
  split
  · exact here
  · exact opened

/-- Table and ledger still fit together where an arm starts. -/
theorem Chart.Sound.enterArm {chart : Chart} (sound : chart.Sound) (arm : Stmt) :
    (chart.enterArm arm).Sound :=
  Chart.enterArm_cases sound sound.enter arm

namespace Emit

/-- The table behind a printing that succeeds. -/
def tableBehind? {α : Type} (printing : Emit α) (table : ScopeTable Nat) : Option (ScopeTable Nat) :=
  match printing table with
  | .ok (_, table') => some table'
  | .error _ => none

end Emit

/-- The chart with which the statement at a place is printed. -/
def Program.chartAt? (program : Program) (dialect : Dialect) : Place → Option Chart
  | .first => some Chart.new
  | .next place =>
      match program.at? place, program.chartAt? dialect place with
      | some tree, some chart => do
          let table ← Emit.tableBehind? (Emit.inner dialect tree) chart.table
          return ⟨table, chart.ledger.record tree.declared (.statement place)⟩
      | _, _ => none
  | .inner place =>
      match program.at? place, program.chartAt? dialect place with
      | some (.block _), some chart => some chart.enter
      | some (.func name params returns _), some chart => do
          let table ← (chart.table.declareFunction name returns.length).toOption
          let table ← Emit.tableBehind? ((params ++ returns).forM Emit.declare) table.enter
          return ⟨table, ((chart.ledger.record [name] (.statement place)).enter.record params
            (.parameter place)).record returns (.result place)⟩
      | _, _ => none
  | .thenArm place =>
      match program.at? place, program.chartAt? dialect place with
      | some (.branch _ thenArm _), some chart => some (chart.enterArm thenArm)
      | _, _ => none
  | .elseArm place =>
      match program.at? place, program.chartAt? dialect place with
      | some (.branch _ thenArm (some elseArm)), some chart => do
          let table ← Emit.tableBehind? (Emit.armScope thenArm (Emit.inner dialect thenArm)) chart.table
          return (Chart.mk table chart.ledger).enterArm elseArm
      | _, _ => none

/-- The declaration at which the name is found when the statement at a place is printed. -/
def Program.printedSite? (program : Program) (dialect : Dialect) (place : Place) (name : Name) :
    Option Site :=
  (program.chartAt? dialect place).bind (·.site? name)

/-- A declaration is late for a name at a place: it declares the name and stands behind a function
around the place, in the same list of statements as the function, where the name leads to the site
when the function is printed. -/
def Program.LateAt (program : Program) (dialect : Dialect) (place : Place) (name : Name)
    (site later : Site) : Prop :=
  ∃ function callee params returns body declaration tree,
    program.at? function = some (.func callee params returns body) ∧ function.Encloses place ∧
      program.printedSite? dialect function name = some site ∧
        function.Behind declaration ∧ program.at? declaration = some tree ∧
          name ∈ tree.declared ∧ later = .statement declaration

/-- What is late at a place is late at a place that stands within the same functions. -/
theorem Program.LateAt.mono {program : Program} {dialect : Dialect} {place place' : Place}
    (deeper : ∀ outer : Place, outer.Encloses place → outer.Encloses place') {name : Name}
    {site later : Site} (late : program.LateAt dialect place name site later) :
    program.LateAt dialect place' name site later := by
  obtain ⟨function, callee, params, returns, body, declaration, tree, found, encloses, rest⟩ := late
  exact ⟨function, callee, params, returns, body, declaration, tree, found, deeper function encloses,
    rest⟩

namespace Emit

variable {table table' : ScopeTable Nat} {dialect : Dialect} {lines : List Line} {tree : Stmt}

open ScopeTable (Adds)

/-- A printing that succeeds leaves the table that is behind it. -/
theorem tableBehind?_eq_some {α : Type} {printing : Emit α} {result : α}
    (printed : printing table = .ok (result, table')) : tableBehind? printing table = some table' := by
  rw [tableBehind?, printed]

/-- Names that are declared in turn are added. -/
theorem adds_of_forM_declare {names : List Name} (nested : table.Nested)
    (introduced : names.forM declare table = .ok ((), table')) : Adds names table table' := by
  induction names generalizing table with
  | nil =>
    obtain ⟨-, rfl⟩ := pure_eq_ok.1 introduced
    exact .of_shape_eq rfl
  | cons name rest ih =>
    obtain ⟨⟨⟩, middle, here, there⟩ := bind_eq_ok.1 introduced
    have first := ScopeTable.adds_of_insert nested.current_lt (change_eq_ok.1 here)
    exact first.trans (ih (nested.of_adds first) there)

/-- Targets that are not declared are all found, and nothing changes. -/
theorem known_of_forM_introduce {targets : List Name}
    (introduced : targets.forM (introduce false) table = .ok ((), table')) :
    table' = table ∧ ∀ target ∈ targets, Known table target := by
  induction targets generalizing table with
  | nil =>
    obtain ⟨-, rfl⟩ := pure_eq_ok.1 introduced
    simp
  | cons target rest ih =>
    obtain ⟨⟨⟩, middle, here, there⟩ := bind_eq_ok.1 introduced
    obtain ⟨found, rfl⟩ := ask_eq_ok.1 here
    obtain ⟨rfl, known⟩ := ih there
    exact ⟨rfl, List.forall_mem_cons.2 ⟨check_eq_ok_iff.1 found, known⟩⟩

/-- A statement that is printed declares its targets, declares a function, or declares nothing. -/
theorem declares_of_inner (nested : table.Nested)
    (printed : inner dialect tree table = .ok (lines, table')) :
    (∃ targets op values, tree = .assign true targets op values ∧
        targets.forM declare table = .ok ((), table')) ∨
      (∃ name params returns body table₁, tree = .func name params returns body ∧
        table.declareFunction name returns.length = .ok table₁ ∧ table'.shape = table₁.shape) ∨
      tree.declared = [] ∧ table'.shape = table.shape := by
  cases tree with
  | assign declares targets op values =>
    have introduced := (inner_assign printed).2
    cases declares with
    | true => exact .inl ⟨targets, op, values, rfl, introduced⟩
    | false =>
      obtain ⟨rfl, -⟩ := known_of_forM_introduce introduced
      exact .inr (.inr ⟨rfl, rfl⟩)
  | branch condition thenArm elseArm =>
    obtain ⟨-, first, table₁, second, here, there⟩ := inner_branch printed
    have same := shape_armScope nested here
    have nested' := nested.of_adds (.of_shape_eq same)
    exact .inr (.inr ⟨rfl, (shape_elseLines nested' there).trans same⟩)
  | func name params returns body =>
    obtain ⟨table₁, table₂, table₃, lines', declared, introduced, shown, rfl⟩ := inner_func printed
    have adds := ScopeTable.adds_of_insert nested.current_lt declared
    have same := shape_body (nested.of_adds adds) introduced shown
    exact .inr (.inl ⟨name, params, returns, body, table₁, rfl, declared, same⟩)
  | ret values code =>
    obtain ⟨-, rfl⟩ := inner_ret printed
    exact .inr (.inr ⟨rfl, rfl⟩)
  | block body =>
    rw [inner] at printed
    exact .inr (.inr ⟨rfl, shape_withScope (growing_all dialect body) nested printed⟩)
  | expr value =>
    obtain ⟨-, rfl⟩ := inner_expr printed
    exact .inr (.inr ⟨rfl, rfl⟩)
  | empty =>
    rw [inner] at printed
    obtain ⟨-, rfl⟩ := pure_eq_ok.1 printed
    exact .inr (.inr ⟨rfl, rfl⟩)

/-- Printing a statement adds the names that it declares. -/
theorem adds_of_inner (nested : table.Nested)
    (printed : inner dialect tree table = .ok (lines, table')) : Adds tree.declared table table' := by
  rcases declares_of_inner nested printed with ⟨targets, op, values, rfl, introduced⟩ |
    ⟨name, params, returns, body, table₁, rfl, declared, same⟩ | ⟨nothing, same⟩
  · exact adds_of_forM_declare nested introduced
  · exact (ScopeTable.adds_of_insert nested.current_lt declared).trans (.of_shape_eq same)
  · rw [nothing]
    exact .of_shape_eq same

/-- A statement that is printed finds all names that it uses. -/
theorem known_of_inner (printed : inner dialect tree table = .ok (lines, table')) :
    ∀ name ∈ tree.uses, Known table name := by
  cases tree with
  | assign declares targets op values =>
    obtain ⟨read, introduced⟩ := inner_assign printed
    intro name member
    rcases List.mem_append.1 member with value | target
    · exact read name value
    · cases declares with
      | true => simp at target
      | false => exact (known_of_forM_introduce introduced).2 name target
  | branch condition thenArm elseArm => exact (inner_branch printed).1
  | ret values code => exact (inner_ret printed).1
  | expr value => exact (inner_expr printed).1
  | func name params returns body => simp [Stmt.uses]
  | block body => simp [Stmt.uses]
  | empty => simp [Stmt.uses]

/-- An arm is printed with the table of its own scope. -/
theorem inner_of_armScope {arm : Stmt} (chart : Chart)
    (printed : armScope arm (inner dialect arm) chart.table = .ok (lines, table')) :
    ∃ result, all dialect [arm] (chart.enterArm arm).table = .ok result := by
  have single {final : ScopeTable Nat} {table : ScopeTable Nat}
      (printed : inner dialect arm table = .ok (lines, final)) :
      ∃ result, all dialect [arm] table = .ok result := by
    refine ⟨(braced arm lines ++ [], final), ?_⟩
    rw [all]
    exact bind_eq_ok.2 ⟨lines, final, printed, bind_eq_ok.2 ⟨[], final, rfl, rfl⟩⟩
  unfold armScope at printed
  split at printed
  · exact single printed
  · rename_i unbraced
    obtain ⟨final, inside, -⟩ := withScope_eq_ok.1 printed
    have opened : (chart.enterArm arm).table = chart.table.enter := by
      unfold Chart.enterArm
      split
      · exact absurd rfl (unbraced _)
      · rfl
    rw [opened]
    exact single inside

end Emit

/-- The chart at a place: table and ledger fit together, and what stands there can be printed. -/
structure Program.Charted (program : Program) (dialect : Dialect) (place : Place) (chart : Chart) :
    Prop where
  at_place : program.chartAt? dialect place = some chart
  sound : chart.Sound
  printed : ∃ result, Emit.all dialect (program.restAt place) chart.table = .ok result

namespace Program.Charted

variable {program : Program} {dialect : Dialect} {place : Place} {chart : Chart}

open Emit (bind_eq_ok)
open ScopeTable (Adds)

/-- At the start of a program that is printed the chart is new. -/
theorem first {text : String} (printed : program.emit dialect = .ok text) :
    program.Charted dialect .first Chart.new where
  at_place := rfl
  sound := Chart.sound_new
  printed := by
    obtain ⟨lines, table, shown⟩ := program.all_of_emit printed
    exact ⟨_, shown⟩

variable (charted : program.Charted dialect place chart)

include charted

/-- The statement at the place can be printed, and then those behind it. -/
theorem inner_at {tree : Stmt} (found : program.at? place = some tree) :
    ∃ first table, Emit.inner dialect tree chart.table = .ok (first, table) ∧
      ∃ result, Emit.all dialect (program.restAt place.next) table = .ok result := by
  obtain ⟨⟨lines, final⟩, printed⟩ := charted.printed
  obtain ⟨rest, found⟩ := List.head?_eq_some_iff.1 found
  rw [found] at printed
  obtain ⟨first, table, others, here, there⟩ := Emit.all_cons printed
  rw [restAt_next found]
  exact ⟨first, table, here, _, there⟩

/-- Behind a statement its names are declared. -/
theorem next {tree : Stmt} (found : program.at? place = some tree) :
    ∃ table, Adds tree.declared chart.table table ∧ program.Charted dialect place.next
      ⟨table, chart.ledger.record tree.declared (.statement place)⟩ := by
  obtain ⟨first, table, here, behind⟩ := charted.inner_at found
  have adds := Emit.adds_of_inner charted.sound.nested here
  refine ⟨table, adds, ?_, charted.sound.record adds _, behind⟩
  simp [chartAt?, found, charted.at_place, Emit.tableBehind?_eq_some here]

/-- A block is printed in a scope of its own. -/
theorem block {body : List Stmt} (found : program.at? place = some (.block body)) :
    program.Charted dialect place.inner chart.enter := by
  obtain ⟨first, table, here, -⟩ := charted.inner_at found
  obtain ⟨rest, found'⟩ := List.head?_eq_some_iff.1 found
  rw [Emit.inner] at here
  obtain ⟨final, inside, -⟩ := Emit.withScope_eq_ok.1 here
  refine ⟨by simp [chartAt?, found, charted.at_place], charted.sound.enter, ⟨first, final⟩, ?_⟩
  rw [restAt, found']
  exact inside

section Function

variable {name : Name} {params returns : List Name} {body : List Stmt}
  (found : program.at? place = some (.func name params returns body))

include found

/-- A function is declared in front of its body. -/
theorem declares_func : ∃ table, chart.table.declareFunction name returns.length = .ok table := by
  obtain ⟨first, table, here, -⟩ := charted.inner_at found
  obtain ⟨table₁, _, _, _, declared, -⟩ := Emit.inner_func here
  exact ⟨table₁, declared⟩

/-- The body of a function is printed in a scope with its parameters and results. -/
theorem func {table : ScopeTable Nat}
    (declared : chart.table.declareFunction name returns.length = .ok table) :
    ∃ opened filled, Adds params table.enter opened ∧ Adds returns opened filled ∧
      program.Charted dialect place.inner ⟨filled, ((chart.ledger.record [name]
        (.statement place)).enter.record params (.parameter place)).record returns (.result place)⟩ := by
  obtain ⟨first, final, here, -⟩ := charted.inner_at found
  obtain ⟨rest, found'⟩ := List.head?_eq_some_iff.1 found
  obtain ⟨table₁, filled, closed, lines, declared₁, introduced, shown, -⟩ := Emit.inner_func here
  obtain rfl := Except.ok.inj (declared₁.symm.trans declared)
  have filling := Emit.tableBehind?_eq_some introduced
  rw [List.forM_eq_forM, List.forM_append] at introduced
  obtain ⟨⟨⟩, opened, first, second⟩ := bind_eq_ok.1 introduced
  have adds := ScopeTable.adds_of_insert charted.sound.nested.current_lt declared
  have sound₁ := (charted.sound.record adds (.statement place)).enter
  have adds₁ := Emit.adds_of_forM_declare sound₁.nested first
  have sound₂ := sound₁.record adds₁ (.parameter place)
  have adds₂ := Emit.adds_of_forM_declare sound₂.nested second
  refine ⟨opened, filled, adds₁, adds₂, ?_, sound₂.record adds₂ _, ⟨lines, closed⟩, ?_⟩
  · simp only [chartAt?, found, charted.at_place, declared, Except.toOption, Option.bind_eq_bind,
      Option.bind_some, filling]
    rfl
  · rw [restAt, found']
    exact shown

end Function

/-- The arm behind the condition of a branch is printed in a scope of its own. -/
theorem thenArm {condition : Expr} {arm : Stmt} {other : Option Stmt}
    (found : program.at? place = some (.branch condition arm other)) :
    program.Charted dialect place.thenArm (chart.enterArm arm) := by
  obtain ⟨first, table, here, -⟩ := charted.inner_at found
  obtain ⟨rest, found'⟩ := List.head?_eq_some_iff.1 found
  obtain ⟨-, lines, table₁, _, shown, -⟩ := Emit.inner_branch here
  refine ⟨by simp [chartAt?, found, charted.at_place], charted.sound.enterArm arm, ?_⟩
  rw [restAt, found']
  exact Emit.inner_of_armScope chart shown

/-- So is the arm behind `else`, when the other has declared nothing. -/
theorem elseArm {condition : Expr} {other arm : Stmt}
    (found : program.at? place = some (.branch condition other (some arm))) :
    ∃ table, table.shape = chart.table.shape ∧ program.Charted dialect place.elseArm
      ((Chart.mk table chart.ledger).enterArm arm) := by
  obtain ⟨first, final, here, -⟩ := charted.inner_at found
  obtain ⟨rest, found'⟩ := List.head?_eq_some_iff.1 found
  obtain ⟨-, lines, table, lines', shown, further⟩ := Emit.inner_branch here
  obtain ⟨lines'', shown'⟩ := Emit.elseLines_some further
  have same := Emit.shape_armScope charted.sound.nested shown
  have sound := charted.sound.of_shape_eq same
  refine ⟨table, same, ?_, sound.enterArm arm, ?_⟩
  · simp [chartAt?, found, charted.at_place, Emit.tableBehind?_eq_some shown]
  · rw [restAt, found']
    exact Emit.inner_of_armScope ⟨table, chart.ledger⟩ shown'

/-- The names that a statement uses are located when it is printed, if they are not dotted. -/
theorem located {tree : Stmt} (found : program.at? place = some tree) {name : Name}
    (used : name ∈ tree.uses) (undotted : name.isDotted = false) :
    (chart.table.locate? name).isSome := by
  obtain ⟨first, table, here, -⟩ := charted.inner_at found
  rcases Emit.known_of_inner here name used with dotted | known
  · rw [undotted] at dotted
    cases dotted
  · rwa [ScopeTable.get?, Option.isSome_map] at known

end Program.Charted

end ScriptLang

import ScriptLang.Proofs.Emit.Charting
import ScriptLang.Proofs.Emit.Splitting
import ScriptLang.Proofs.Run.Defining

/-!
# Calls that fill several targets in print

When a program is printed, the table of scopes keeps for each function the number of results that it
declares. So an assignment whose only value is a call is printed with lines that fill all targets from
the call if and only if it is plain and the declaration that the callee leads to is a function which
declares as many results as there are targets (`Program.destructuresAt_iff`).
-/

namespace ScriptLang

open ScopeTable (Adds)

/-- The number of results that a statement declares for its name, if it declares a function. -/
def Stmt.resultCount? : Stmt → Option Nat
  | .func _ _ returns _ => some returns.length
  | _ => none

/-- The number of results of the function that is declared at a site, if it is one. -/
def Program.resultCount? (program : Program) : Site → Option Nat
  | .statement place => (program.at? place).bind Stmt.resultCount?
  | .parameter _ | .result _ => none

/-- The assignment at the place has a call as its only value, and it is printed with lines that fill all
of its targets from this call. -/
def Program.DestructuresAt (program : Program) (dialect : Dialect) (place : Place) : Prop :=
  ∃ declares targets op callee args chart call table,
    program.at? place = some (.assign declares targets op [.call callee args]) ∧
      program.chartAt? dialect place = some chart ∧
        Emit.expr dialect chart.table (.call callee args) = .ok call ∧
          Emit.inner dialect (.assign declares targets op [.call callee args]) chart.table =
            .ok (dialect.destructureLines declares targets call, table)

namespace Emit

variable {table table' : ScopeTable Nat} {dialect : Dialect} {lines : List Line} {tree : Stmt}

/-- Names that are declared in turn stand for variables. -/
theorem function?_of_forM_declare {names : List Name} (nested : table.Nested)
    (introduced : names.forM declare table = .ok ((), table')) (index : Nat) (name : Name) :
    table'.function? index name =
      if index = table.current ∧ name ∈ names then none else table.function? index name := by
  induction names generalizing table with
  | nil =>
    obtain ⟨-, rfl⟩ := pure_eq_ok.1 introduced
    simp
  | cons first rest ih =>
    obtain ⟨⟨⟩, middle, here, there⟩ := bind_eq_ok.1 introduced
    have declared : table.insert first (.variable 0) = .ok middle := change_eq_ok.1 here
    have adds := ScopeTable.adds_of_insert nested.current_lt declared
    rw [ih (nested.of_adds adds) there, ScopeTable.function?_of_insert nested.current_lt declared,
      adds.current, Symbol.function?_variable]
    by_cases current : index = table.current <;> by_cases same : name = first <;>
      simp [current, same]

/-- Behind a statement its names stand for what it declares, and the others for what they did. -/
theorem function?_of_inner (nested : table.Nested)
    (printed : inner dialect tree table = .ok (lines, table')) (index : Nat) (name : Name) :
    table'.function? index name =
      if index = table.current ∧ name ∈ tree.declared then tree.resultCount?
      else table.function? index name := by
  rcases declares_of_inner nested printed with ⟨targets, op, values, rfl, introduced⟩ |
    ⟨function, params, returns, body, table₁, rfl, declared, same⟩ | ⟨nothing, same⟩
  · exact function?_of_forM_declare nested introduced index name
  · rw [ScopeTable.function?_of_shape_eq same,
      ScopeTable.function?_of_insert nested.current_lt declared]
    simp [Stmt.declared, Stmt.resultCount?]
  · rw [ScopeTable.function?_of_shape_eq same, nothing, if_neg (by simp)]

end Emit

/-- Table and ledger fit together, and for every name that has a site the table keeps the number of
results that is declared there. -/
structure Program.Counted (program : Program) (chart : Chart) : Prop where
  sound : chart.Sound
  counts {index : Nat} {name : Name} {site : Site} : chart.ledger.site? index name = some site →
    chart.table.function? index name = program.resultCount? site

namespace Program.Counted

variable {program : Program} {chart : Chart} {table : ScopeTable Nat} {dialect : Dialect}
  {place : Place}

/-- In the first chart nothing is declared, so all counts are right. -/
theorem new : program.Counted Chart.new where
  sound := Chart.sound_new
  counts {index _ _} known := by
    cases index <;> cases known

/-- Names are declared at a site, and stand for what is declared there. -/
theorem record (counted : program.Counted chart) {names : List Name} {site : Site}
    (adds : Adds names chart.table table)
    (declared : ∀ index name, table.function? index name =
      if index = chart.table.current ∧ name ∈ names then program.resultCount? site
      else chart.table.function? index name) :
    program.Counted ⟨table, chart.ledger.record names site⟩ where
  sound := counted.sound.record adds site
  counts {index name known} found := by
    simp only [Ledger.site?_record, ← counted.sound.newest, Nat.add_right_cancel_iff] at found
    rw [declared]
    split at found
    · obtain rfl := Option.some.inj found
      rw [if_pos ‹_›]
    · rw [if_neg ‹_›]
      exact counted.counts found

/-- Parameters and results are variables. -/
theorem recordVariables (counted : program.Counted chart) {names : List Name} {site : Site}
    (introduced : names.forM Emit.declare chart.table = .ok ((), table))
    (uncounted : program.resultCount? site = none) :
    program.Counted ⟨table, chart.ledger.record names site⟩ := by
  have nested := counted.sound.nested
  refine counted.record (Emit.adds_of_forM_declare nested introduced) fun index name => ?_
  rw [uncounted]
  exact Emit.function?_of_forM_declare nested introduced index name

/-- The counts stay right in a table of the same shape. -/
theorem of_shape_eq (counted : program.Counted chart) (same : table.shape = chart.table.shape) :
    program.Counted ⟨table, chart.ledger⟩ where
  sound := counted.sound.of_shape_eq same
  counts known := by
    rw [ScopeTable.function?_of_shape_eq same]
    exact counted.counts known

/-- Opening a scope keeps the counts right. -/
theorem enter (counted : program.Counted chart) : program.Counted chart.enter where
  sound := counted.sound.enter
  counts known := by
    rw [Chart.enter, Chart.enterUnder, Ledger.site?_enter] at known
    rw [Chart.enter, Chart.enterUnder, ScopeTable.function?_enterUnder]
    exact counted.counts known

/-- The counts are right where an arm starts. -/
theorem enterArm (counted : program.Counted chart) (arm : Stmt) :
    program.Counted (chart.enterArm arm) :=
  Chart.enterArm_cases counted counted.enter arm

/-- Behind a statement that is printed. -/
theorem next (counted : program.Counted chart) {tree : Stmt} {lines : List Line}
    (found : program.at? place = some tree)
    (printed : Emit.inner dialect tree chart.table = .ok (lines, table)) :
    program.Counted ⟨table, chart.ledger.record tree.declared (.statement place)⟩ := by
  have nested := counted.sound.nested
  refine counted.record (Emit.adds_of_inner nested printed) fun index name => ?_
  rw [resultCount?, found, Option.bind_some]
  exact Emit.function?_of_inner nested printed index name

/-- Where the body of a function starts. -/
theorem func (counted : program.Counted chart) {name : Name} {params returns : List Name}
    {body : List Stmt} {table' : ScopeTable Nat}
    (found : program.at? place = some (.func name params returns body))
    (declared : chart.table.declareFunction name returns.length = .ok table)
    (introduced : (params ++ returns).forM Emit.declare table.enter = .ok ((), table')) :
    program.Counted ⟨table', ((chart.ledger.record [name] (.statement place)).enter.record params
      (.parameter place)).record returns (.result place)⟩ := by
  have live := counted.sound.nested.current_lt
  have outside : program.Counted ⟨table, chart.ledger.record [name] (.statement place)⟩ := by
    refine counted.record (ScopeTable.adds_of_insert live declared) fun index other => ?_
    rw [ScopeTable.function?_of_insert live declared, resultCount?, found]
    simp [Stmt.resultCount?]
  rw [List.forM_eq_forM, List.forM_append] at introduced
  obtain ⟨⟨⟩, opened, first, second⟩ := Emit.bind_eq_ok.1 introduced
  exact (outside.enter.recordVariables first rfl).recordVariables second rfl

/-- A name that leads to a site stands for a function with the number of results that is declared
there. -/
theorem resultCount?_of_site? (counted : program.Counted chart) {name : Name} {site : Site}
    (leads : chart.site? name = some site) :
    Emit.resultCount? chart.table name = program.resultCount? site := by
  obtain ⟨⟨index, symbol⟩, located, known⟩ := Option.bind_eq_some_iff.1 leads
  rw [← counted.counts known, ScopeTable.function?_of_locate? located, Emit.resultCount?,
    ScopeTable.get?, located, Option.map_some]
  cases symbol <;> rfl

end Program.Counted

/-- The table behind a printing is left by a result. -/
theorem Emit.exists_of_tableBehind? {α : Type} {printing : Emit α} {table table' : ScopeTable Nat}
    (behind : tableBehind? printing table = some table') :
    ∃ result, printing table = .ok (result, table') := by
  unfold tableBehind? at behind
  split at behind
  · rename_i result final printed
    obtain rfl := Option.some.inj behind
    exact ⟨result, printed⟩
  · cases behind

/-- With the chart of each place the declared numbers of results are known. -/
theorem Program.counted_of_chartAt? {program : Program} {dialect : Dialect} {place : Place}
    {chart : Chart} (charted : program.chartAt? dialect place = some chart) :
    program.Counted chart := by
  -- By induction on the place: its chart is made from that of the place in front of it or around it.
  induction place generalizing chart with
  | first =>
    obtain rfl := Option.some.inj charted
    exact .new
  | next place ih =>
    rw [chartAt?] at charted
    split at charted
    · rename_i tree outer found outside
      obtain ⟨table, behind, ends⟩ := Option.bind_eq_some_iff.1 charted
      obtain rfl := Option.some.inj ends
      obtain ⟨lines, printed⟩ := Emit.exists_of_tableBehind? behind
      exact (ih outside).next found printed
    · cases charted
  | inner place ih =>
    rw [chartAt?] at charted
    split at charted
    · rename_i body outer found outside
      obtain rfl := Option.some.inj charted
      exact (ih outside).enter
    · rename_i name params returns body outer found outside
      obtain ⟨table, defined, filling⟩ := Option.bind_eq_some_iff.1 charted
      obtain ⟨table', behind, ends⟩ := Option.bind_eq_some_iff.1 filling
      obtain rfl := Option.some.inj ends
      obtain ⟨⟨⟩, introduced⟩ := Emit.exists_of_tableBehind? behind
      have declared : outer.table.declareFunction name returns.length = .ok table := by
        cases outcome : outer.table.declareFunction name returns.length with
        | error error => simp [outcome, Except.toOption] at defined
        | ok table' => simpa [outcome, Except.toOption] using defined
      exact (ih outside).func found declared introduced
    · cases charted
  | thenArm place ih =>
    rw [chartAt?] at charted
    split at charted
    · rename_i condition arm other outer found outside
      obtain rfl := Option.some.inj charted
      exact (ih outside).enterArm arm
    · cases charted
  | elseArm place ih =>
    rw [chartAt?] at charted
    split at charted
    · rename_i condition other arm outer found outside
      obtain ⟨table, behind, ends⟩ := Option.bind_eq_some_iff.1 charted
      obtain rfl := Option.some.inj ends
      obtain ⟨lines, printed⟩ := Emit.exists_of_tableBehind? behind
      have same := Emit.shape_armScope (ih outside).sound.nested printed
      exact ((ih outside).of_shape_eq same).enterArm arm
    · cases charted

namespace Dialect

variable {dialect : Dialect} {declares declares' : Bool} {op op' : AssignOp} {name : Name}

/-- A target that stands alone is shorter than one with a value. -/
theorem assignLine_none_ne_some (value : String) :
    dialect.assignLine declares op name none ≠ dialect.assignLine declares op' name (some value) := by
  intro same
  have lengths := congrArg (fun line => line.text.length) same
  simp only [assignLine, Line.outer, String.length_append] at lengths
  have space : (" " : String).length = 1 := rfl
  omega

/-- Lines that fill several targets from one call are not those of an assignment that gives every
target its own value: in C the targets behind the first have none, and in Go it is one line. -/
theorem destructureLines_ne_broadcast {targets : List Name} (several : 1 < targets.length)
    (call : String) : dialect.destructureLines declares targets call ≠
      (targets.zip (Emit.sources targets op [call])).map fun (name, value) =>
        dialect.assignLine declares op name value := by
  obtain ⟨first, second, rest, rfl⟩ := Stmt.exists_first_second several
  intro same
  cases dialect with
  | c =>
    have behind := (List.cons.inj same).2
    exact assignLine_none_ne_some _ (List.cons.inj behind).1
  | go =>
    have lengths := congrArg List.length same
    simp [destructureLines, Emit.sources] at lengths

end Dialect

namespace Emit

variable {table table' : ScopeTable Nat} {dialect : Dialect} {lines : List Line} {declares : Bool}
  {targets : List Name} {op : AssignOp} {callee : Name} {args : List Expr}

/-- An assignment of a call fills all targets from the call if the call spreads, and otherwise gives
each target its own value. -/
theorem inner_assign_call
    (printed : inner dialect (.assign declares targets op [.call callee args]) table =
      .ok (lines, table')) :
    ∃ call, expr dialect table (.call callee args) = .ok call ∧
      lines = if spreads table targets op [.call callee args]
        then dialect.destructureLines declares targets call
        else (targets.zip (sources targets op [call])).map fun (name, value) =>
          dialect.assignLine declares op name value := by
  rw [inner, assignment] at printed
  obtain ⟨texts, table₁, asked, printed⟩ := bind_eq_ok.1 printed
  obtain ⟨found, rfl⟩ := ask_eq_ok.1 asked
  obtain ⟨_, table₂, asked, printed⟩ := bind_eq_ok.1 printed
  obtain ⟨rfl, rfl⟩ := get_eq_ok.1 asked
  obtain ⟨⟨⟩, table₃, introduced, printed⟩ := bind_eq_ok.1 printed
  obtain _ | ⟨shown, none⟩ := forall₂_of_exprs found
  cases none
  refine ⟨_, shown, ?_⟩
  split at printed
  · rename_i spreading
    rw [if_pos spreading]
    exact (pure_eq_ok.1 printed).1.symm
  · rename_i single
    rw [if_neg single]
    exact (pure_eq_ok.1 printed).1.symm

/-- A call spreads if the assignment is plain and has several targets, and the table knows the callee
as a function with as many results. -/
theorem spreads_call_iff (several : 1 < targets.length) :
    spreads table targets op [.call callee args] = true ↔
      op = .set ∧ resultCount? table callee = some targets.length := by
  simp [spreads, several]

end Emit

/-- An assignment of a call to several targets is printed with lines that fill all of them if and only
if it is plain and the callee leads to a function that declares as many results. -/
theorem Program.destructuresAt_iff {program : Program} {dialect : Dialect} {place : Place}
    {chart : Chart} (charted : program.Charted dialect place chart) {declares : Bool}
    {targets : List Name} {op : AssignOp} {callee : Name} {args : List Expr}
    (found : program.at? place = some (.assign declares targets op [.call callee args]))
    (several : 1 < targets.length) {site : Site} (leads : chart.site? callee = some site) :
    program.DestructuresAt dialect place ↔
      op = .set ∧ program.resultCount? site = some targets.length := by
  obtain ⟨lines, table, printed, -⟩ := charted.inner_at found
  obtain ⟨call, shown, rfl⟩ := Emit.inner_assign_call printed
  have counted := Program.counted_of_chartAt? charted.at_place
  rw [← counted.resultCount?_of_site? leads, ← Emit.spreads_call_iff several]
  constructor
  · rintro ⟨declares', targets', op', callee', args', chart', call', table', found', charted', shown',
      printed'⟩
    obtain ⟨rfl, rfl, rfl, same⟩ := Stmt.assign.inj (Option.some.inj (found.symm.trans found'))
    obtain ⟨rfl, rfl⟩ := Expr.call.inj (List.cons.inj same).1
    obtain rfl := Option.some.inj (charted.at_place.symm.trans charted')
    obtain rfl := Except.ok.inj (shown.symm.trans shown')
    have lines := (Prod.mk.inj (Except.ok.inj (printed.symm.trans printed'))).1
    -- Otherwise the same lines would give each target its own value.
    by_contra single
    rw [if_neg single] at lines
    exact Dialect.destructureLines_ne_broadcast several call lines.symm
  · intro spreading
    rw [if_pos spreading] at printed
    exact ⟨declares, targets, op, callee, args, chart, call, table, found, charted.at_place, shown,
      printed⟩

end ScriptLang

import Mathlib.Data.List.Forall2
import ScriptLang.Proofs.Emit.Growth
import ScriptLang.Proofs.Scope.Values

/-!
# Printing an assignment one target at a time

An assignment to several targets is printed as assignments to one target each, `Stmt.split`, unless
the results of a call are spread over the targets. Each target has the value at its place; a single
value is for the first target, and the others take it over from the first if the assignment is plain
and repeat it if it is compound.
-/

namespace ScriptLang

/-- The value that each target is given when an assignment is printed one target at a time. -/
def Stmt.sources (targets : List Name) (op : AssignOp) (values : List Expr) : List Expr :=
  match targets, values with
  | first :: _ :: _, [value] =>
      value :: (targets.drop 1).map fun _ => if op = .set then .variable first else value
  | _, _ => values

/-- An assignment to one target. -/
def Stmt.single (declares : Bool) (op : AssignOp) (target : Name × Expr) : Stmt :=
  .assign declares [target.1] op [target.2]

/-- The assignments to one target each, as which an assignment is printed. -/
def Stmt.split (declares : Bool) (targets : List Name) (op : AssignOp) (values : List Expr) :
    List Stmt :=
  (targets.zip (sources targets op values)).map (single declares op)

/-- Unless one value is for several targets, each target has the value at its place. -/
theorem Stmt.sources_of_not_broadcast {targets : List Name} (op : AssignOp) {values : List Expr}
    (paired : ¬(1 < targets.length ∧ values.length = 1)) : sources targets op values = values := by
  unfold sources
  split
  · exact absurd ⟨by simp, rfl⟩ paired
  · rfl

/-- Among several targets there are a first and a second one. -/
theorem Stmt.exists_first_second {targets : List Name} (several : 1 < targets.length) :
    ∃ first second rest, targets = first :: second :: rest := by
  obtain _ | ⟨first, _ | ⟨second, rest⟩⟩ := targets
  · simp at several
  · simp at several
  · exact ⟨first, second, rest, rfl⟩

namespace Emit

variable {dialect : Dialect} {table table' : ScopeTable Nat}

/-- A name that is known to two tables is checked alike against both. -/
theorem check_eq_of_known {name : Name} (known : Known table name) (known' : Known table' name) :
    check table name = check table' name :=
  have found : check table name = .ok () := check_eq_ok_iff.2 known
  found.trans (check_eq_ok_iff.2 known').symm

mutual

/-- The text of an expression does not depend on the table, if its names are known. -/
theorem expr_congr : ∀ tree : Expr,
    (∀ name ∈ tree.looked, Known table name ∧ Known table' name) →
      expr dialect table tree = expr dialect table' tree
  | .number .., _ | .string _, _ => rfl
  | .variable name, known => by
      have here := known name (List.mem_singleton_self name)
      rw [expr, expr, check_eq_of_known here.1 here.2]
  | .unary _ operand, known => by
      rw [expr, expr, expr_congr operand known]
  | .binary _ left right, known => by
      have first := expr_congr left fun name looked => known name (by simp [Expr.looked, looked])
      have second := expr_congr right fun name looked => known name (by simp [Expr.looked, looked])
      rw [expr, expr, first, second]
  | .cast value type, known => by
      have inner := expr_congr value fun name looked => known name (by simp [Expr.looked, looked])
      rw [expr, expr, inner]
      cases named : typeName? type with
      | some name => rfl
      | none =>
        have shown := expr_congr type fun name looked =>
          known name (by simp [Expr.looked, named, looked])
        simp only [shown]
  | .logic op left right, known => by
      have second := expr_congr right fun name looked => known name (by simp [Expr.looked, looked])
      by_cases negates : op = .not
      · subst negates
        rw [expr, expr, second]
      · have first := expr_congr left fun name looked =>
          known name (by simp [Expr.looked, negates, looked])
        rw [expr, expr, first, second]
        · exact negates
        · exact negates
  | .logicPrefix _ right, known => by
      rw [expr, expr, expr_congr right known]
  | .call callee args, known => by
      have here := known callee List.mem_cons_self
      have inner := exprs_congr args fun name looked => known name (List.mem_cons_of_mem _ looked)
      rw [expr, expr, check_eq_of_known here.1 here.2, inner]

/-- Expressions are printed alike against two tables that know the names looked for. -/
theorem exprs_congr : ∀ trees : List Expr,
    (∀ name ∈ Expr.lookedAll trees, Known table name ∧ Known table' name) →
      exprs dialect table trees = exprs dialect table' trees
  | [], _ => rfl
  | tree :: rest, known => by
      have first := expr_congr tree fun name looked => known name (by simp [Expr.lookedAll, looked])
      have others := exprs_congr rest fun name looked => known name (by simp [Expr.lookedAll, looked])
      rw [exprs, exprs, first, others]

end

/-- Expressions are printed one by one. -/
theorem forall₂_of_exprs {trees : List Expr} {texts : List String}
    (shown : exprs dialect table trees = .ok texts) :
    List.Forall₂ (fun tree text => expr dialect table tree = .ok text) trees texts := by
  induction trees generalizing texts with
  | nil =>
    cases shown
    exact .nil
  | cons tree rest ih =>
    rw [exprs] at shown
    cases first : expr dialect table tree with
    | error error => simp [first, Bind.bind, Except.bind] at shown
    | ok text =>
      cases others : exprs dialect table rest with
      | error error => simp [first, others, Bind.bind, Except.bind] at shown
      | ok texts' =>
        obtain rfl : text :: texts' = texts := by
          simpa [first, others, Bind.bind, Except.bind, Pure.pure, Except.pure] using shown
        exact .cons first (ih others)

section Introduce

variable {declares : Bool} {target name : Name}

/-- A target is known when it was introduced. -/
theorem known_of_introduce_self (live : table.current < table.depth)
    (introduced : introduce declares target table = .ok ((), table')) : Known table' target := by
  unfold introduce at introduced
  split at introduced
  · have meant := ScopeTable.get?_of_insert_self live (change_eq_ok.1 introduced)
    exact .inr (by rw [meant]; rfl)
  · obtain ⟨found, rfl⟩ := ask_eq_ok.1 introduced
    exact check_eq_ok_iff.1 found

/-- A name stays known when a target is introduced. -/
theorem known_of_introduce (live : table.current < table.depth)
    (introduced : introduce declares target table = .ok ((), table')) (known : Known table name) :
    Known table' name := by
  by_cases same : name = target
  · subst same
    exact known_of_introduce_self live introduced
  · unfold introduce at introduced
    split at introduced
    · rcases known with dotted | meant
      · exact .inl dotted
      · exact .inr (by rwa [ScopeTable.get?_of_insert (change_eq_ok.1 introduced) same])
    · obtain ⟨-, rfl⟩ := ask_eq_ok.1 introduced
      exact known

/-- Introducing a target opens and closes no scope. -/
theorem live_of_introduce (live : table.current < table.depth)
    (introduced : introduce declares target table = .ok ((), table')) :
    table'.current < table'.depth := by
  unfold introduce at introduced
  split at introduced
  · have grows := ScopeTable.grows_of_insert (change_eq_ok.1 introduced)
    rwa [grows.current, grows.depth]
  · obtain ⟨-, rfl⟩ := ask_eq_ok.1 introduced
    exact live

/-- An assignment to one target is printed as one line. -/
theorem inner_single {op : AssignOp} {value : Expr} {text : String}
    (shown : expr dialect table value = .ok text)
    (introduced : introduce declares target table = .ok ((), table')) :
    inner dialect (.single declares op (target, value)) table =
      .ok ([dialect.assignLine declares op target (some text)], table') := by
  have texts : exprs dialect table [value] = .ok [text] := by
    rw [exprs, exprs, shown]
    rfl
  have spread : spreads table [target] op [value] = false := by
    unfold spreads
    split <;> simp
  rw [Stmt.single, inner, assignment]
  refine bind_eq_ok.2 ⟨[text], table, ask_eq_ok.2 ⟨texts, rfl⟩, ?_⟩
  refine bind_eq_ok.2 ⟨table, table, get_eq_ok.2 ⟨rfl, rfl⟩, ?_⟩
  refine bind_eq_ok.2 ⟨⟨⟩, table', bind_eq_ok.2 ⟨⟨⟩, table', introduced, rfl⟩, ?_⟩
  simp only [spread, Bool.false_eq_true, if_false]
  rfl

end Introduce

/-- Assignments to one target each are printed one after the other, each as one line. -/
theorem all_singles {declares : Bool} (op : AssignOp) {targets : List Name} {values : List Expr}
    {texts : List String} (live : table.current < table.depth)
    (shown : List.Forall₂ (fun value text => expr dialect table value = .ok text) values texts)
    (introduced : targets.forM (introduce declares) table = .ok ((), table'))
    (enough : targets.length ≤ values.length) :
    all dialect ((targets.zip values).map (Stmt.single declares op)) table =
      .ok ((targets.zip texts).map fun (target, text) =>
        dialect.assignLine declares op target (some text), table') := by
  induction targets generalizing table values texts with
  | nil =>
    obtain ⟨-, rfl⟩ := pure_eq_ok.1 introduced
    rfl
  | cons target rest ih =>
    cases shown with
    | nil => simp at enough
    | @cons value text values' texts' first others =>
      obtain ⟨⟨⟩, middle, here, there⟩ := bind_eq_ok.1 introduced
      have others' : List.Forall₂ (fun value text => expr dialect middle value = .ok text)
          values' texts' := by
        refine others.imp fun value text shown => ?_
        have known := (expr_eq_ok_iff value).1 ⟨text, shown⟩
        rw [← shown]
        exact (expr_congr value fun name looked =>
          ⟨known name looked, known_of_introduce live here (known name looked)⟩).symm
      have behind := ih (live_of_introduce live here) others' there (by simpa using enough)
      rw [List.zip_cons_cons, List.map_cons, all]
      refine bind_eq_ok.2 ⟨_, middle, inner_single first here, ?_⟩
      exact bind_eq_ok.2 ⟨_, table', behind, rfl⟩

/-- Without a broadcast each target has the text at its place. -/
theorem zip_mapIdx {targets texts : List String} (enough : targets.length ≤ texts.length) :
    targets.zip (targets.mapIdx fun index _ => texts[index]?) =
      (targets.zip texts).map fun (target, text) => (target, some text) := by
  induction targets generalizing texts with
  | nil => rfl
  | cons target rest ih =>
    obtain _ | ⟨text, texts⟩ := texts
    · simp at enough
    · simp [List.mapIdx_cons, ih (by simpa using enough)]

/-- Behind the first target of a single value, the others take the value over from it, or the value
is printed once more. -/
theorem expr_behind_first {declares : Bool} {op : AssignOp} {first : Name} {value : Expr}
    {text : String} (live : table.current < table.depth)
    (shown : expr dialect table value = .ok text)
    (introduced : introduce declares first table = .ok ((), table')) :
    expr dialect table' (if op = .set then .variable first else value) =
      .ok (if op = .set then first else text) := by
  split
  · have found : check table' first = .ok () :=
      check_eq_ok_iff.2 (known_of_introduce_self live introduced)
    rw [expr, found]
    rfl
  · have known := (expr_eq_ok_iff value).1 ⟨text, shown⟩
    rw [← shown]
    exact (expr_congr value fun name looked =>
      ⟨known name looked, known_of_introduce live introduced (known name looked)⟩).symm

/-- With one value for several targets, the first line has the value and the others take it over or
repeat it. -/
theorem all_split_broadcast {declares : Bool} {op : AssignOp} {first second : Name}
    {rest : List Name} {value : Expr} {text : String} (live : table.current < table.depth)
    (shown : expr dialect table value = .ok text)
    (introduced : (first :: second :: rest).forM (introduce declares) table = .ok ((), table')) :
    all dialect (Stmt.split declares (first :: second :: rest) op [value]) table =
      .ok (((first :: second :: rest).zip (sources (first :: second :: rest) op [text])).map
        fun (name, value) => dialect.assignLine declares op name value, table') := by
  obtain ⟨⟨⟩, middle, here, there⟩ := bind_eq_ok.1 introduced
  have others : List.Forall₂ (fun value text => expr dialect middle value = .ok text)
      ((second :: rest).map fun _ => if op = .set then .variable first else value)
      ((second :: rest).map fun _ => if op = .set then first else text) := by
    rw [List.forall₂_map_left_iff, List.forall₂_map_right_iff]
    exact List.forall₂_same.2 fun _ _ => expr_behind_first live shown here
  have behind := all_singles op (live_of_introduce live here) others there (by simp)
  have texts : sources (first :: second :: rest) op [text] =
      (text :: (second :: rest).map fun _ => if op = .set then first else text).map some := by
    simp [sources]
  have placed : (first :: second :: rest).zip (sources (first :: second :: rest) op [text]) =
      ((first :: second :: rest).zip
        (text :: (second :: rest).map fun _ => if op = .set then first else text)).map
          fun (target, text) => (target, some text) := by
    rw [texts]
    exact List.zip_map_right
  refine bind_eq_ok.2 ⟨_, middle, inner_single shown here, ?_⟩
  refine bind_eq_ok.2 ⟨_, table', behind, pure_eq_ok.2 ⟨?_, rfl⟩⟩
  rw [placed, List.map_map]
  rfl

/-- An assignment whose values are not spread is printed as the assignments to one target each. -/
theorem all_split {declares : Bool} {targets : List Name} {op : AssignOp} {values : List Expr}
    {lines : List Line} (live : table.current < table.depth)
    (counts : values.length = 1 ∨ values.length = targets.length)
    (gathered : spreads table targets op values = false)
    (printed : inner dialect (.assign declares targets op values) table = .ok (lines, table')) :
    all dialect (Stmt.split declares targets op values) table = .ok (lines, table') := by
  rw [inner, assignment] at printed
  obtain ⟨texts, _, asked, printed⟩ := bind_eq_ok.1 printed
  obtain ⟨found, rfl⟩ := ask_eq_ok.1 asked
  obtain ⟨_, _, asked, printed⟩ := bind_eq_ok.1 printed
  obtain ⟨rfl, rfl⟩ := get_eq_ok.1 asked
  obtain ⟨⟨⟩, _, introduced, printed⟩ := bind_eq_ok.1 printed
  simp only [gathered, Bool.false_eq_true, if_false] at printed
  obtain ⟨rfl, rfl⟩ := pure_eq_ok.1 printed
  have shown := forall₂_of_exprs found
  by_cases broadcasts : 1 < targets.length ∧ values.length = 1
  · obtain ⟨several, one⟩ := broadcasts
    obtain ⟨value, rfl⟩ := List.length_eq_one_iff.1 one
    obtain ⟨text, _, alone, none, rfl⟩ := List.forall₂_cons_left_iff.1 shown
    obtain rfl := List.forall₂_nil_left_iff.1 none
    obtain ⟨first, second, rest, rfl⟩ := Stmt.exists_first_second several
    exact all_split_broadcast live alone introduced
  · have paired := Stmt.sources_of_not_broadcast op broadcasts
    have placed : sources targets op texts = targets.mapIdx fun index _ => texts[index]? := by
      unfold sources
      split
      · exact absurd ⟨by simp, shown.length_eq⟩ broadcasts
      · rfl
    have enough : targets.length ≤ values.length := by omega
    rw [Stmt.split, paired, placed, zip_mapIdx (shown.length_eq ▸ enough), List.map_map]
    exact all_singles op live shown introduced enough

end Emit

end ScriptLang

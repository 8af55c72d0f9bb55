import ScriptLang.Emit.Statement

/-!
# The names in a program

`Expr.names` and `Stmt.names` list every name that a tree mentions. Printing an expression looks for
fewer, `Expr.looked`: the type of a cast is only printed, and a left operand of `not` is not even
that. An expression can be printed exactly if all the names looked for are dotted or known.
-/

namespace ScriptLang

mutual

/-- All names that an expression mentions. -/
def Expr.names : Expr → List Name
  | .number .. => []
  | .string _ => []
  | .variable name => [name]
  | .unary _ operand => operand.names
  | .binary _ left right => left.names ++ right.names
  | .cast value type => value.names ++ type.names
  | .logic _ left right => left.names ++ right.names
  | .logicPrefix _ right => right.names
  | .call callee args => callee :: Expr.namesAll args

/-- All names that expressions mention. -/
def Expr.namesAll : List Expr → List Name
  | [] => []
  | expr :: rest => expr.names ++ Expr.namesAll rest

end

mutual

/-- All names that a statement mentions. -/
def Stmt.names : Stmt → List Name
  | .assign _ targets _ values => targets ++ Expr.namesAll values
  | .branch condition thenArm elseArm => condition.names ++ thenArm.names ++ Stmt.namesElse elseArm
  | .func name params returns body => name :: (params ++ returns) ++ Stmt.namesAll body
  | .ret values _ => Expr.namesAll values
  | .block body => Stmt.namesAll body
  | .expr value => value.names
  | .empty => []

/-- All names that the arm behind `else` mentions. -/
def Stmt.namesElse : Option Stmt → List Name
  | none => []
  | some arm => arm.names

/-- All names that statements mention. -/
def Stmt.namesAll : List Stmt → List Name
  | [] => []
  | stmt :: rest => stmt.names ++ Stmt.namesAll rest

end

/-- All names that a program mentions: variables, callees, targets, functions, parameters and
declared results. -/
def Program.names (program : Program) : List Name :=
  Stmt.namesAll program.body

mutual

/-- The names that are looked for when an expression is printed. -/
def Expr.looked : Expr → List Name
  | .number .. => []
  | .string _ => []
  | .variable name => [name]
  | .unary _ operand => operand.looked
  | .binary _ left right => left.looked ++ right.looked
  | .cast value type => value.looked ++ if (Emit.typeName? type).isSome then [] else type.looked
  | .logic op left right => (if op = .not then [] else left.looked) ++ right.looked
  | .logicPrefix _ right => right.looked
  | .call callee args => callee :: Expr.lookedAll args

/-- The names that are looked for when expressions are printed. -/
def Expr.lookedAll : List Expr → List Name
  | [] => []
  | expr :: rest => expr.looked ++ Expr.lookedAll rest

end

/-- Fewer names in front of fewer names are fewer names. -/
private theorem append_subset_append {first first' second second' : List Name}
    (fewer : first ⊆ first') (fewer' : second ⊆ second') : first ++ second ⊆ first' ++ second' :=
  List.append_subset.2 ⟨List.subset_append_of_subset_left _ fewer,
    List.subset_append_of_subset_right _ fewer'⟩

mutual

/-- A name that is looked for is mentioned. -/
theorem Expr.looked_subset_names : ∀ expr : Expr, expr.looked ⊆ expr.names
  | .number .. | .string _ | .variable _ => List.Subset.refl _
  | .unary _ operand => operand.looked_subset_names
  | .binary _ left right =>
      append_subset_append left.looked_subset_names right.looked_subset_names
  | .cast value type => by
      apply append_subset_append value.looked_subset_names
      split
      · exact List.nil_subset _
      · exact type.looked_subset_names
  | .logic op left right => by
      refine append_subset_append ?_ right.looked_subset_names
      split
      · exact List.nil_subset _
      · exact left.looked_subset_names
  | .logicPrefix _ right => right.looked_subset_names
  | .call callee args => List.cons_subset_cons callee (Expr.lookedAll_subset_namesAll args)

/-- The names that printing looks for are among the names of the expressions. -/
theorem Expr.lookedAll_subset_namesAll :
    ∀ exprs : List Expr, Expr.lookedAll exprs ⊆ Expr.namesAll exprs
  | [] => List.Subset.refl _
  | expr :: rest =>
      append_subset_append expr.looked_subset_names (Expr.lookedAll_subset_namesAll rest)

end

namespace Emit

/-- A name is dotted, or the table knows it. -/
def Known (table : ScopeTable Nat) (name : Name) : Prop :=
  name.isDotted ∨ (table.get? name).isSome

/-- The check of a name succeeds exactly if the name is known. -/
theorem check_eq_ok_iff {table : ScopeTable Nat} {name : Name} {result : Unit} :
    check table name = .ok result ↔ Known table name := by
  unfold check Known
  split <;> simp_all

/-- One computation after another gives a result. -/
theorem succeeds_bind {α β : Type} {first : Except EmitError α} {second : α → Except EmitError β} :
    (∃ result, first >>= second = .ok result) ↔
      ∃ value, first = .ok value ∧ ∃ result, second value = .ok result := by
  cases first <;> simp [Bind.bind, Except.bind]

/-- A computation whose result is changed afterwards gives a result if it does without. -/
theorem succeeds_map {α β : Type} {change : α → β} {first : Except EmitError α} :
    (∃ result, change <$> first = .ok result) ↔ ∃ value, first = .ok value := by
  cases first <;> simp [Functor.map, Except.map]

variable {dialect : Dialect} {table : ScopeTable Nat}

mutual

/-- An expression is printed exactly if the names looked for are known. -/
theorem expr_eq_ok_iff : ∀ tree : Expr,
    (∃ text, expr dialect table tree = .ok text) ↔ ∀ name ∈ tree.looked, Known table name
  | .number .. | .string _ => by simp [expr, Expr.looked]
  | .variable name => by
      simp [expr, Expr.looked, succeeds_map, check_eq_ok_iff]
  | .unary _ operand => by
      simp [expr, Expr.looked, succeeds_map, ← expr_eq_ok_iff operand]
  | .binary _ left right => by
      simp [expr, Expr.looked, succeeds_bind, succeeds_map, or_imp, forall_and,
        ← expr_eq_ok_iff left, ← expr_eq_ok_iff right]
  | .cast value type => by
      cases named : typeName? type with
      | some name =>
        simp only [expr, Expr.looked, named, succeeds_bind]
        simp [pure, Except.pure, ← expr_eq_ok_iff value]
      | none =>
        simp [expr, Expr.looked, succeeds_bind, succeeds_map, named, or_imp, forall_and,
          ← expr_eq_ok_iff value, ← expr_eq_ok_iff type]
  | .logic op left right => by
      by_cases negates : op = .not
      · subst negates
        simp [expr, Expr.looked, succeeds_map, ← expr_eq_ok_iff right]
      · rw [expr]
        · simp [Expr.looked, negates, succeeds_bind, succeeds_map, or_imp, forall_and,
            ← expr_eq_ok_iff left, ← expr_eq_ok_iff right, and_comm]
        · exact negates
  | .logicPrefix _ right => by
      simp [expr, Expr.looked, succeeds_map, ← expr_eq_ok_iff right]
  | .call callee args => by
      simp [expr, Expr.looked, succeeds_bind, succeeds_map, check_eq_ok_iff,
        ← exprs_eq_ok_iff args]

/-- Expressions are printed exactly if the names looked for in all of them are known. -/
theorem exprs_eq_ok_iff : ∀ trees : List Expr,
    (∃ texts, exprs dialect table trees = .ok texts) ↔
      ∀ name ∈ Expr.lookedAll trees, Known table name
  | [] => by simp [exprs, Expr.lookedAll]
  | tree :: rest => by
      simp [exprs, Expr.lookedAll, succeeds_bind, succeeds_map, or_imp, forall_and,
        ← expr_eq_ok_iff tree, ← exprs_eq_ok_iff rest]

end

end Emit

end ScriptLang

import ScriptLang.Proofs.Emit.Conditions

/-!
# One check for all dialects

A dialect decides about texts only. Which names are looked for, in which order, and what is declared
on the way is the same in each, so the tables of scopes stay equal step by step. The one text that
printing looks at again is that of a condition, whose outer parentheses are taken off, and all
dialects put them around the same expressions. So all dialects print the same programs, and on any
other program they stop at the same error (`Program.emit_alike`).
-/

namespace ScriptLang

/-- An operator that gives a truth value has no left operand exactly if it is `not`. -/
def Expr.HasOperands : Expr → Prop
  | .logic op _ _ => op ≠ .not
  | .logicPrefix op _ => op = .not
  | _ => True

namespace Emit

/-- Two computations end alike: with results that are related, or with one error. -/
inductive EndAlike {α β : Type} (rel : α → β → Prop) :
    Except EmitError α → Except EmitError β → Prop where
  | ok {value : α} {value' : β} : rel value value' → EndAlike rel (.ok value) (.ok value')
  | error (error : EmitError) : EndAlike rel (.error error) (.error error)

section EndAlike

variable {α β γ δ : Type} {rel : α → β → Prop} {rel' : γ → δ → Prop}

/-- Two steps end alike if the first do and the second do behind every related pair of results. -/
theorem EndAlike.bind {first : Except EmitError α} {first' : Except EmitError β}
    {second : α → Except EmitError γ} {second' : β → Except EmitError δ}
    (here : EndAlike rel first first')
    (there : ∀ value value', rel value value' → EndAlike rel' (second value) (second' value')) :
    EndAlike rel' (first >>= second) (first' >>= second') := by
  cases here with
  | ok related => exact there _ _ related
  | error error => exact .error error

/-- Results that are changed into related ones leave two computations ending alike. -/
theorem EndAlike.map {first : Except EmitError α} {first' : Except EmitError β}
    (here : EndAlike rel first first') {change : α → γ} {change' : β → δ}
    (related : ∀ value value', rel value value' → rel' (change value) (change' value')) :
    EndAlike rel' (change <$> first) (change' <$> first') := by
  cases here with
  | ok holds => exact .ok (related _ _ holds)
  | error error => exact .error error

/-- A computation ends as it ends itself, if its results are related to themselves. -/
theorem endAlike_refl {rel : α → α → Prop} (reflexive : ∀ value, rel value value)
    (outcome : Except EmitError α) : EndAlike rel outcome outcome := by
  cases outcome with
  | ok value => exact .ok (reflexive value)
  | error error => exact .error error

end EndAlike

section Expressions

/-- Two computations of texts give both a text, whichever, or the same error. -/
abbrev BothPrint {α : Type} : Except EmitError α → Except EmitError α → Prop :=
  EndAlike fun _ _ => True

variable (dialect dialect' : Dialect) (table : ScopeTable Nat)

mutual

/-- Every dialect prints an expression, or each stops at the same name in it. -/
theorem bothPrint_expr : ∀ tree : Expr,
    BothPrint (expr dialect table tree) (expr dialect' table tree)
  | .number .. | .string _ => .ok trivial
  | .variable name => (endAlike_refl (fun _ => trivial) (check table name)).map fun _ _ => id
  | .unary _ operand => (bothPrint_expr operand).map fun _ _ => id
  | .binary _ left right =>
      (bothPrint_expr left).bind fun _ _ _ => (bothPrint_expr right).map fun _ _ => id
  | .cast value type => by
      refine (bothPrint_expr value).bind fun _ _ _ => ?_
      split
      · exact .ok trivial
      · exact (bothPrint_expr type).map fun _ _ => id
  | .logic op left right => by
      by_cases negates : op = .not
      · subst negates
        exact (bothPrint_expr right).map fun _ _ => id
      · rw [expr, expr]
        · exact (bothPrint_expr right).bind fun _ _ _ => (bothPrint_expr left).map fun _ _ => id
        · exact negates
        · exact negates
  | .logicPrefix _ right => (bothPrint_expr right).map fun _ _ => id
  | .call callee args =>
      (endAlike_refl (fun _ => trivial) (check table callee)).bind fun _ _ (_ : True) =>
        (bothPrint_exprs args).map fun _ _ => id

/-- In both dialects all expressions are printed, or the same error is met. -/
theorem bothPrint_exprs : ∀ trees : List Expr,
    BothPrint (exprs dialect table trees) (exprs dialect' table trees)
  | [] => .ok trivial
  | tree :: rest =>
      (bothPrint_expr tree).bind fun _ _ _ => (bothPrint_exprs rest).map fun _ _ => id

end

/-- Every dialect puts an operator between two operands in parentheses, so those that a branch
brings can be taken off in each. -/
theorem bothPrint_condition {test : Expr} (operands : test.HasOperands) :
    BothPrint (condition dialect table test) (condition dialect' table test) := by
  have joins (op : LogicOp) (left right : Expr) (same : test = .logic op left right) : op ≠ .not := by
    subst same
    exact operands
  have stripped {dialect : Dialect} {text : String} (wrapped : isWrapped test = true)
      (printed : expr dialect table test = .ok text) : ∃ inner, stripEnds? text = some inner := by
    obtain ⟨inner, rfl⟩ := exists_parentheses_of_expr wrapped joins printed
    exact ⟨inner, stripEnds?_parentheses inner⟩
  have texts := bothPrint_expr dialect dialect' table test
  unfold condition
  cases first : expr dialect table test with
  | error error =>
    rw [first] at texts
    cases second : expr dialect' table test with
    | ok text => rw [second] at texts; cases texts
    | error error' =>
      rw [second] at texts
      cases texts
      exact .error error
  | ok text =>
    rw [first] at texts
    cases second : expr dialect' table test with
    | error error => rw [second] at texts; cases texts
    | ok text' =>
      by_cases wrapped : isWrapped test = true
      · obtain ⟨inner, strips⟩ := stripped wrapped first
        obtain ⟨inner', strips'⟩ := stripped wrapped second
        simp only [Bind.bind, Except.bind, wrapped, strips, strips', if_true]
        exact .ok trivial
      · simp only [Bind.bind, Except.bind, wrapped]
        exact .ok trivial

end Expressions

section Statements

/-- From every table two printings end alike and leave the same table. -/
def Together {α : Type} (printing printing' : Emit α) : Prop :=
  ∀ table, EndAlike (fun found found' => found.2 = found'.2) (printing table) (printing' table)

variable {α β : Type}

/-- Every printing ends as it does itself. -/
theorem together_refl (printing : Emit α) : Together printing printing :=
  fun table => endAlike_refl (fun found => Eq.refl found.2) (printing table)

/-- Two printings that do nothing end together, whatever they give. -/
theorem together_pure (value value' : α) : Together (pure value) (pure value') :=
  fun _ => .ok rfl

/-- Printings one after the other end together if each two of them do. -/
theorem Together.bind {first first' : Emit α} {second second' : α → Emit β}
    (here : Together first first') (there : ∀ value value', Together (second value) (second' value')) :
    Together (first >>= second) (first' >>= second') :=
  fun table => (here table).bind fun found found' same => by
    obtain ⟨value, table'⟩ := found
    obtain ⟨value', _⟩ := found'
    obtain rfl : table' = _ := same
    exact there value value' table'

/-- Two questions to the table end together if both are answered or both fail alike. -/
theorem together_ask {question question' : ScopeTable Nat → Except EmitError α}
    (both : ∀ table, BothPrint (question table) (question' table)) :
    Together (ask question) (ask question') := by
  intro table
  change EndAlike _ (question table >>= fun value => .ok (value, table))
    (question' table >>= fun value => .ok (value, table))
  exact (both table).bind fun _ _ _ => .ok rfl

/-- Printings that end together do so within a scope of their own. -/
theorem Together.withScope {body body' : Emit α} (together : Together body body') :
    Together (withScope body) (withScope body') := by
  intro table
  change EndAlike _ (body table.enter >>= fun found => .ok (found.1, found.2.exit table.current))
    (body' table.enter >>= fun found => .ok (found.1, found.2.exit table.current))
  exact (together table.enter).bind fun _ _ same => .ok (congrArg (·.exit table.current) same)

/-- The lines of an arm end together, whether or not a scope is opened for it. -/
theorem Together.armScope {lines lines' : Emit (List Line)} (together : Together lines lines')
    (arm : Stmt) : Together (armScope arm lines) (armScope arm lines') := by
  unfold Emit.armScope
  split
  · exact together
  · exact together.withScope

variable (dialect dialect' : Dialect)

/-- Whether the results of a call fill the targets or not, the same targets are declared. -/
theorem together_assignment (declares : Bool) (targets : List Name) (op : AssignOp)
    (values : List Expr) :
    Together (assignment dialect declares targets op values)
      (assignment dialect' declares targets op values) := by
  unfold assignment
  refine (together_ask fun table => bothPrint_exprs dialect dialect' table values).bind
    fun texts texts' => ?_
  refine (together_refl get).bind fun _ _ => ?_
  refine (together_refl (targets.forM (introduce declares))).bind fun _ _ => ?_
  split <;> split <;> exact together_pure _ _

/-- The conditions of all branches within a statement have their operands. -/
def ConditionsHaveOperands (nodes : List Stmt) : Prop :=
  ∀ test thenArm elseArm, .branch test thenArm elseArm ∈ nodes → test.HasOperands

mutual

/-- Every dialect prints a statement and leaves the same table, or each stops at the same error. -/
theorem together_inner : ∀ {stmt : Stmt}, ConditionsHaveOperands stmt.nodes →
    Together (inner dialect stmt) (inner dialect' stmt)
  | .assign declares targets op values, _ =>
      together_assignment dialect dialect' declares targets op values
  | .branch test thenArm elseArm, operands => by
      have here := operands test thenArm elseArm List.mem_cons_self
      have first : ConditionsHaveOperands thenArm.nodes := fun test thenArm elseArm within =>
        operands test thenArm elseArm (List.mem_cons_of_mem _ (List.mem_append_left _ within))
      have second : ConditionsHaveOperands (Stmt.elseNodes elseArm) :=
        fun test thenArm elseArm within =>
          operands test thenArm elseArm (List.mem_cons_of_mem _ (List.mem_append_right _ within))
      exact (together_ask fun table => bothPrint_condition dialect dialect' table here).bind
        fun _ _ => ((together_inner first).armScope thenArm).bind fun _ _ =>
          (together_elseLines second).bind fun _ _ => together_pure _ _
  | .func _ _ _ body, operands => by
      have within : ConditionsHaveOperands (Stmt.allNodes body) := fun test thenArm elseArm within =>
        operands test thenArm elseArm (List.mem_cons_of_mem _ within)
      exact (together_refl _).bind fun _ _ => Together.withScope <|
        (together_refl _).bind fun _ _ => (together_all within).bind fun _ _ => together_pure _ _
  | .ret values _, _ =>
      (together_ask fun table => bothPrint_exprs dialect dialect' table values).bind
        fun _ _ => together_pure _ _
  | .block body, operands =>
      (together_all fun test thenArm elseArm within =>
        operands test thenArm elseArm (List.mem_cons_of_mem _ within)).withScope
  | .expr value, _ =>
      (together_ask fun table => bothPrint_expr dialect dialect' table value).bind
        fun _ _ => together_pure _ _
  | .empty, _ => together_refl _

/-- The arm behind `else` is printed in both dialects together. -/
theorem together_elseLines : ∀ {arm : Option Stmt}, ConditionsHaveOperands (Stmt.elseNodes arm) →
    Together (elseLines dialect arm) (elseLines dialect' arm)
  | none, _ => together_refl _
  | some arm, operands =>
      ((together_inner operands).armScope arm).bind fun _ _ => together_pure _ _

/-- The statements of a body are printed in both dialects together. -/
theorem together_all : ∀ {body : List Stmt}, ConditionsHaveOperands (Stmt.allNodes body) →
    Together (all dialect body) (all dialect' body)
  | [], _ => together_refl _
  | stmt :: rest, operands => by
      have first : ConditionsHaveOperands stmt.nodes := fun test thenArm elseArm within =>
        operands test thenArm elseArm (List.mem_append_left _ within)
      have others : ConditionsHaveOperands (Stmt.allNodes rest) := fun test thenArm elseArm within =>
        operands test thenArm elseArm (List.mem_append_right _ within)
      exact (together_inner first).bind fun _ _ =>
        (together_all others).bind fun _ _ => together_pure _ _

end

end Statements

end Emit

/-- Of a program whose operators have their operands, all dialects print a text, or each stops at
the same error. -/
theorem Program.emit_alike {program : Program} (operands : ∀ tree ∈ program.exprs, tree.HasOperands) :
    (∃ text text', program.emit .c = .ok text ∧ program.emit .go = .ok text') ∨
      ∃ error, program.emit .c = .error error ∧ program.emit .go = .error error := by
  have conditions : Emit.ConditionsHaveOperands program.nodes := by
    intro test thenArm elseArm within
    refine operands test (List.mem_flatMap.2 ⟨_, within, ?_⟩)
    exact Expr.mem_allNodes.2 ⟨test, List.mem_cons_self, test.mem_nodes_self⟩
  have lines := Emit.together_all .c .go conditions ScopeTable.new
  have ends : Emit.BothPrint (program.emit .c) (program.emit .go) :=
    (lines.bind fun _ _ _ => .ok trivial).map fun _ _ => id
  generalize program.emit .c = outcome, program.emit .go = outcome' at ends ⊢
  cases ends with
  | ok _ => exact .inl ⟨_, _, rfl, rfl⟩
  | error error => exact .inr ⟨error, rfl, rfl⟩

/-- A call that fills two targets, which the dialects print in different ways, and a branch that uses
two names that mean nothing. -/
def Program.fillingTwo : Program :=
  ⟨[], [
    .func "pair" [] ["q", "r"] [],
    .assign true ["x", "y"] .set [.call "pair" []],
    .branch (.logic .less (.variable "unknown") (.variable "missing")) .empty none]⟩

/-- Both dialects refuse a program that fills two variables from a name which is missing. -/
theorem Program.emit_alike_fillingTwo :
    (∀ tree ∈ fillingTwo.exprs, tree.HasOperands) ∧
      fillingTwo.emit .c = .error (.name (.undefinedReference "missing")) ∧
        ((∃ text text', fillingTwo.emit .c = .ok text ∧ fillingTwo.emit .go = .ok text') ∨
          ∃ error, fillingTwo.emit .c = .error error ∧ fillingTwo.emit .go = .error error) := by
  have operands : ∀ tree ∈ fillingTwo.exprs, tree.HasOperands := by
    have listed : fillingTwo.exprs =
        [.call "pair" [], .logic .less (.variable "unknown") (.variable "missing"),
          .variable "unknown", .variable "missing"] := rfl
    rw [listed]
    simp [Expr.HasOperands]
  exact ⟨operands, rfl, emit_alike operands⟩

end ScriptLang

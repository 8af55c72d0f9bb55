import ScriptLang.Proofs.Emit.Growth

/-!
# The `return` that a body is lacking

When a function is printed, a body that does not end in a `return` gets one for the declared results.
`Program.completed` writes the same `return` into the program itself, at the end of every such body.
It adds nothing that the printed text does not have: the completed program is printed as the program
is (`Program.emit_completed`).
-/

namespace ScriptLang

/-- The `return` of the declared results, without an error code. -/
def Stmt.returning (returns : List Name) : Stmt :=
  .ret (returns.map .variable) none

/-- What a body is lacking: the `return` of the declared results, if there are any and the body does
not end in a `return`. -/
def Stmt.closing (returns : List Name) (body : List Stmt) : List Stmt :=
  if returns.isEmpty || Emit.endsInReturn body then [] else [returning returns]

mutual

/-- The statement with every function in it completed. -/
def Stmt.completed : Stmt → Stmt
  | .assign declares targets op values => .assign declares targets op values
  | .branch test thenArm elseArm => .branch test thenArm.completed (Stmt.completedElse elseArm)
  | .func name params returns body =>
      .func name params returns (Stmt.completedAll body ++ Stmt.closing returns body)
  | .ret values code => .ret values code
  | .block body => .block (Stmt.completedAll body)
  | .expr value => .expr value
  | .empty => .empty

/-- The arm behind `else` with every function in it completed. -/
def Stmt.completedElse : Option Stmt → Option Stmt
  | none => none
  | some arm => some arm.completed

/-- The statements with every function in them completed. -/
def Stmt.completedAll : List Stmt → List Stmt
  | [] => []
  | stmt :: rest => stmt.completed :: Stmt.completedAll rest

end

/-- The program in which every function ends in a `return`, if it declares results. -/
def Program.completed (program : Program) : Program :=
  { program with body := Stmt.completedAll program.body }

namespace Emit

/-- The statements of a body are completed one by one. -/
theorem completedAll_eq_map (body : List Stmt) :
    Stmt.completedAll body = body.map Stmt.completed := by
  induction body with
  | nil => rfl
  | cons stmt rest ih => simp [Stmt.completedAll, ih]

/-- A body and its completed statements end in a `return` alike. -/
theorem endsInReturn_completedAll (body : List Stmt) :
    endsInReturn (Stmt.completedAll body) = endsInReturn body := by
  unfold endsInReturn
  rw [completedAll_eq_map, List.getLast?_map]
  cases body.getLast? with
  | none => rfl
  | some last => cases last <;> rfl

/-- A body that was completed is lacking nothing. -/
theorem missingReturn_completed (dialect : Dialect) (returns : List Name) (body : List Stmt) :
    missingReturn dialect returns (Stmt.completedAll body ++ Stmt.closing returns body) = [] := by
  unfold missingReturn Stmt.closing
  by_cases closed : returns.isEmpty || endsInReturn body
  · rw [if_pos closed, List.append_nil, endsInReturn_completedAll, if_pos closed]
  · rw [if_neg closed]
    have ends : endsInReturn (Stmt.completedAll body ++ [Stmt.returning returns]) = true := by
      simp [endsInReturn, Stmt.returning]
    simp [ends]

/-- Statements in front of others are printed in front of them. -/
theorem all_append (dialect : Dialect) (first second : List Stmt) :
    all dialect (first ++ second) = (do
      let lines ← all dialect first
      let others ← all dialect second
      return lines ++ others) := by
  induction first with
  | nil => simp [all]
  | cons stmt rest ih =>
    simp only [List.cons_append, all, ih, bind_assoc, pure_bind, List.append_assoc]

variable {dialect : Dialect} {table : ScopeTable Nat}

/-- Names that are known are printed as they are. -/
theorem exprs_variables {names : List Name} (known : ∀ name ∈ names, Known table name) :
    exprs dialect table (names.map .variable) = .ok names := by
  induction names with
  | nil => rfl
  | cons name rest ih =>
    have here : check table name = .ok () := check_eq_ok_iff.2 (known name List.mem_cons_self)
    have there := ih fun name member => known name (List.mem_cons_of_mem _ member)
    rw [List.map_cons, exprs, expr, here, there]
    rfl

/-- Where the declared results are known, a completed body is printed with the line that the printing
of the body itself adds. -/
theorem all_closing {returns : List Name} (known : ∀ name ∈ returns, Known table name)
    (body : List Stmt) :
    all dialect (Stmt.closing returns body) table = .ok (missingReturn dialect returns body, table) := by
  unfold missingReturn Stmt.closing
  split
  · rfl
  · have texts : ask (exprs dialect · (returns.map .variable)) table = .ok (returns, table) :=
      ask_eq_ok.2 ⟨exprs_variables known, rfl⟩
    simp only [all, inner, Stmt.returning, Bind.bind, StateT.bind, Except.bind, texts]
    rfl

section Agreement

/-- From every nested table the two printings are the same. -/
def SameFromNested {α : Type} (printing printing' : Emit α) : Prop :=
  ∀ ⦃table : ScopeTable Nat⦄, table.Nested → printing' table = printing table

variable {α β : Type}

/-- Every printing is the same as itself. -/
theorem sameFromNested_refl (printing : Emit α) : SameFromNested printing printing :=
  fun _ _ => rfl

/-- If the first printings are the same and so is what follows behind each result, the whole is. -/
theorem bind_congr_at {first first' : Emit α} {second second' : α → Emit β}
    (here : first' table = first table)
    (there : ∀ value table', first table = .ok (value, table') →
      second' value table' = second value table') :
    (first' >>= second') table = (first >>= second) table := by
  simp only [Bind.bind, StateT.bind, Except.bind, here]
  cases outcome : first table with
  | error error => rfl
  | ok found => exact there found.1 found.2 outcome

/-- Printings one after the other are the same if each is, since the first leaves a nested table
nested. -/
theorem SameFromNested.bind {first first' : Emit α} {second second' : α → Emit β}
    (here : SameFromNested first first') (growing : Growing first)
    (there : ∀ value, SameFromNested (second value) (second' value)) :
    SameFromNested (first >>= second) (first' >>= second') :=
  fun _ nested => bind_congr_at (here nested) fun value _ printed =>
    there value (nested.of_grows (growing nested printed))

/-- Within a scope of its own a printing stays the same. -/
theorem SameFromNested.withScope {body body' : Emit α} (same : SameFromNested body body') :
    SameFromNested (withScope body) (withScope body') := by
  intro table nested
  change (body' table.enter >>= fun found => .ok (found.1, found.2.exit table.current)) =
    body table.enter >>= fun found => .ok (found.1, found.2.exit table.current)
  have inside : body' table.enter = body table.enter := same (nested.enterUnder nested.current_lt)
  rw [inside]

/-- Arms are completed within the scopes that they have. -/
theorem SameFromNested.armScope {arm : Stmt} {lines lines' : Emit (List Line)}
    (same : SameFromNested lines lines') :
    SameFromNested (armScope arm lines) (armScope arm.completed lines') := by
  cases arm with
  | block body => exact same
  | assign | branch | func | ret | expr | empty => exact same.withScope

/-- Completing an arm does not change whether it is put into braces. -/
theorem braced_completed (stmt : Stmt) (lines : List Line) :
    braced stmt.completed lines = braced stmt lines := by
  cases stmt <;> rfl

/-- A body is printed in its scope as the completed body is. -/
theorem sameFromNested_function {params returns : List Name} {body : List Stmt} (opening : String)
    (same : SameFromNested (all dialect body) (all dialect (Stmt.completedAll body))) :
    SameFromNested
      (do
        (params ++ returns).forM declare
        let lines ← all dialect body
        return Line.enclosed opening
          (dialect.resultLines returns ++ lines ++ missingReturn dialect returns body))
      (do
        (params ++ returns).forM declare
        let lines ← all dialect (Stmt.completedAll body ++ Stmt.closing returns body)
        return Line.enclosed opening
          (dialect.resultLines returns ++ lines ++
            missingReturn dialect returns (Stmt.completedAll body ++ Stmt.closing returns body))) := by
  intro table nested
  refine bind_congr_at rfl fun _ opened introduced => ?_
  have sees := sees_of_forM_declare nested introduced
  have nested' : opened.Nested := nested.of_grows
    (growing_forM (fun name => growing_insert name (.variable 0)) _ nested introduced)
  simp only [all_append, bind_assoc, pure_bind]
  refine bind_congr_at (same nested') fun lines closed printed => ?_
  have grows := growing_all dialect body nested' printed
  have known : ∀ name ∈ returns, Known closed name := by
    intro name member
    have seen := grows.sees (sees name (List.mem_append_right _ member))
    rw [← grows.current, ScopeTable.sees_current_iff (nested'.of_grows grows)] at seen
    exact .inr (by simpa [ScopeTable.get?] using seen)
  simp only [Bind.bind, StateT.bind, Except.bind, all_closing known, missingReturn_completed,
    List.append_nil, List.append_assoc]

mutual

/-- A statement and the completed statement are printed alike. -/
theorem sameFromNested_inner : ∀ stmt : Stmt,
    SameFromNested (inner dialect stmt) (inner dialect stmt.completed)
  | .assign .. | .ret .. | .expr _ | .empty => sameFromNested_refl _
  | .branch _ thenArm elseArm =>
      (sameFromNested_refl _).bind (growing_ask _) fun _ =>
        (sameFromNested_inner thenArm).armScope.bind
          (growing_armScope thenArm (growing_inner dialect thenArm)) fun _ =>
            (sameFromNested_elseLines elseArm).bind (growing_elseLines dialect elseArm) fun _ =>
              sameFromNested_refl _
  | .func name _ _ body =>
      (sameFromNested_refl _).bind (growing_insert name _) fun _ =>
        (sameFromNested_function _ (sameFromNested_all body)).withScope
  | .block body => (sameFromNested_all body).withScope

/-- The arm behind `else` is printed as it is without the completion. -/
theorem sameFromNested_elseLines : ∀ arm : Option Stmt,
    SameFromNested (elseLines dialect arm) (elseLines dialect (Stmt.completedElse arm))
  | none => sameFromNested_refl _
  | some arm =>
      (sameFromNested_inner arm).armScope.bind (growing_armScope arm (growing_inner dialect arm))
        fun _ => sameFromNested_refl _

/-- The statements of a body are printed as they are without the completion. -/
theorem sameFromNested_all : ∀ body : List Stmt,
    SameFromNested (all dialect body) (all dialect (Stmt.completedAll body))
  | [] => sameFromNested_refl _
  | stmt :: rest => by
      refine (sameFromNested_inner stmt).bind (growing_inner dialect stmt) fun lines => ?_
      refine (sameFromNested_all rest).bind (growing_all dialect rest) fun others => ?_
      rw [braced_completed]
      exact sameFromNested_refl _

end

end Agreement

end Emit

/-- The completed program is printed as the program is, or fails to be for the same reason. -/
theorem Program.emit_completed (dialect : Dialect) (program : Program) :
    program.completed.emit dialect = program.emit dialect := by
  have agree : Emit.SameFromNested (Emit.all dialect program.body)
      (Emit.all dialect (Stmt.completedAll program.body)) := Emit.sameFromNested_all program.body
  have same := agree ScopeTable.nested_new
  unfold emit emitLines completed
  simp only [StateT.run]
  rw [same]

end ScriptLang

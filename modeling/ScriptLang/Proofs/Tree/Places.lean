import ScriptLang.Proofs.Emit.Names

/-!
# Places in a program

A statement is told apart from others that look the same by its place in the program, the way that
leads to it from the first statement. So is a declaration: `Site` names the statement, or the
parameters or the declared results of a function, that a name is declared by.
-/

namespace ScriptLang

/-- The way to a statement of a program. -/
inductive Place where
  /-- The first statement of the program. -/
  | first
  /-- The next statement in the same list. -/
  | next (place : Place)
  /-- The first statement of the block, or of the body of the function, at the place. -/
  | inner (place : Place)
  | thenArm (place : Place)
  | elseArm (place : Place)
deriving DecidableEq, Repr

namespace Place

/-- The second place stands behind the first in the same list of statements. -/
inductive Behind (place : Place) : Place → Prop where
  | next : Behind place place.next
  | further {later : Place} : Behind place later → Behind place later.next

/-- The second place stands within the statement at the first. -/
inductive Encloses (outer : Place) : Place → Prop where
  | body : Encloses outer outer.inner
  | first : Encloses outer outer.thenArm
  | second : Encloses outer outer.elseArm
  | next {place : Place} : Encloses outer place → Encloses outer place.next
  | inner {place : Place} : Encloses outer place → Encloses outer place.inner
  | thenArm {place : Place} : Encloses outer place → Encloses outer place.thenArm
  | elseArm {place : Place} : Encloses outer place → Encloses outer place.elseArm

end Place

/-- What a name is declared by: a statement, or the parameters or the declared results of the
function at a place. -/
inductive Site where
  | statement (place : Place)
  | parameter (function : Place)
  | result (function : Place)
deriving DecidableEq, Repr

namespace Stmt

/-- The names that a statement declares in the scope in which it stands. -/
def declared : Stmt → List Name
  | .assign true targets _ _ => targets
  | .func name _ _ _ => [name]
  | _ => []

/-- The names that a statement itself reads, calls or assigns to, without those of the statements
within it. -/
def uses : Stmt → List Name
  | .assign declares targets _ values =>
      Expr.lookedAll values ++ if declares then [] else targets
  | .branch condition _ _ => condition.looked
  | .ret values _ => Expr.lookedAll values
  | .expr value => value.looked
  | .func .. | .block _ | .empty => []

/-- A name that is used is mentioned. -/
theorem uses_subset_names (tree : Stmt) : tree.uses ⊆ tree.names := by
  intro name member
  cases tree with
  | assign declares targets op values =>
    rw [names, List.mem_append]
    rcases List.mem_append.1 member with read | written
    · exact .inr (Expr.lookedAll_subset_namesAll values read)
    · split at written
      · simp at written
      · exact .inl written
  | branch condition thenArm elseArm =>
    rw [names, List.mem_append, List.mem_append]
    exact .inl (.inl (condition.looked_subset_names member))
  | ret values code => exact Expr.lookedAll_subset_namesAll values member
  | expr value => exact value.looked_subset_names member
  | func name params returns body => simp [uses] at member
  | block body => simp [uses] at member
  | empty => simp [uses] at member

end Stmt

namespace Program

/-- The statement at a place and those behind it in the same list. An arm of a branch is a list of
its own. -/
def restAt (program : Program) : Place → List Stmt
  | .first => program.body
  | .next place => (program.restAt place).tail
  | .inner place =>
      match program.restAt place with
      | .block body :: _ => body
      | .func _ _ _ body :: _ => body
      | _ => []
  | .thenArm place =>
      match program.restAt place with
      | .branch _ thenArm _ :: _ => [thenArm]
      | _ => []
  | .elseArm place =>
      match program.restAt place with
      | .branch _ _ (some elseArm) :: _ => [elseArm]
      | _ => []

/-- The statement at a place. -/
def at? (program : Program) (place : Place) : Option Stmt :=
  (program.restAt place).head?

variable {program : Program} {place : Place} {tree : Stmt} {rest : List Stmt}

/-- The statement at a place is the first of those from there on. -/
theorem at?_of_restAt (found : program.restAt place = tree :: rest) : program.at? place = some tree := by
  rw [at?, found, List.head?_cons]

/-- At the next place stand the statements behind the first. -/
theorem restAt_next (found : program.restAt place = tree :: rest) : program.restAt place.next = rest := by
  rw [restAt, found, List.tail_cons]

/-- Within a block stand its statements. -/
theorem restAt_block {body : List Stmt} (found : program.at? place = some (.block body)) :
    program.restAt place.inner = body := by
  obtain ⟨rest, here⟩ := List.head?_eq_some_iff.1 found
  rw [restAt, here]

/-- Within a function stand the statements of its body. -/
theorem restAt_func {name : Name} {params returns : List Name} {body : List Stmt}
    (found : program.at? place = some (.func name params returns body)) :
    program.restAt place.inner = body := by
  obtain ⟨rest, here⟩ := List.head?_eq_some_iff.1 found
  rw [restAt, here]

/-- The first arm of a branch stands at the place of the first arm. -/
theorem at?_thenArm {condition : Expr} {arm : Stmt} {other : Option Stmt}
    (found : program.at? place = some (.branch condition arm other)) :
    program.at? place.thenArm = some arm := by
  obtain ⟨rest, here⟩ := List.head?_eq_some_iff.1 found
  rw [at?, restAt, here, List.head?_cons]

/-- The arm behind `else` stands at the place of that arm. -/
theorem at?_elseArm {condition : Expr} {other arm : Stmt}
    (found : program.at? place = some (.branch condition other (some arm))) :
    program.at? place.elseArm = some arm := by
  obtain ⟨rest, here⟩ := List.head?_eq_some_iff.1 found
  rw [at?, restAt, here, List.head?_cons]

/-- Of a statement at a place the program mentions all names. -/
theorem namesAll_restAt_subset (program : Program) (place : Place) :
    Stmt.namesAll (program.restAt place) ⊆ program.names := by
  induction place with
  | first => exact List.Subset.refl _
  | next place ih =>
    intro name member
    apply ih
    rw [restAt] at member
    cases here : program.restAt place with
    | nil => simp [here, Stmt.namesAll] at member
    | cons tree rest =>
      rw [here] at member
      exact List.mem_append_right _ member
  | inner place ih =>
    intro name member
    apply ih
    rw [restAt] at member
    split at member
    · rename_i body rest here
      rw [here]
      exact List.mem_append_left _ member
    · rename_i function params returns body rest here
      rw [here]
      exact List.mem_append_left _ (List.mem_append_right _ member)
    · simp [Stmt.namesAll] at member
  | thenArm place ih =>
    intro name member
    apply ih
    rw [restAt] at member
    split at member
    · rename_i condition arm other rest here
      rw [here]
      simp only [Stmt.namesAll, Stmt.names, List.append_nil, List.mem_append] at member ⊢
      exact .inl (.inl (.inr member))
    · simp [Stmt.namesAll] at member
  | elseArm place ih =>
    intro name member
    apply ih
    rw [restAt] at member
    split at member
    · rename_i condition arm other rest here
      rw [here]
      simp only [Stmt.namesAll, Stmt.names, Stmt.namesElse, List.append_nil, List.mem_append]
        at member ⊢
      exact .inl (.inr member)
    · simp [Stmt.namesAll] at member

/-- The names of a statement are names of the program. -/
theorem names_subset_of_at? (found : program.at? place = some tree) : tree.names ⊆ program.names := by
  intro name member
  apply program.namesAll_restAt_subset place
  obtain ⟨rest, here⟩ := List.head?_eq_some_iff.1 found
  rw [here]
  exact List.mem_append_left _ member

end Program

end ScriptLang

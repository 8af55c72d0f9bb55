import ScriptLang.Proofs.Parser.Grammar
import ScriptLang.Tree.Parser.Statement

/-!
# The operators of the parser

The tables of the parser hold the operators of the grammar, each level its own, the loosest first.
`Token.Kind.tightness` says how far a kind of token reaches into the expression in front of it: an
expression of a level ends in front of every kind with a higher number.
-/

namespace ScriptLang

namespace Grammar

/-- The operators of one level of the grammar. -/
def operatorsAt (level : Nat) : Parse.Level := fun kind =>
  match joining? kind with
  | some (found, combine) => if found = level then some combine else none
  | none => none

/-- The operators of the levels up to one, the loosest first. -/
def levelsUpTo : Nat → List Parse.Level
  | 0 => []
  | level + 1 => operatorsAt (level + 1) :: levelsUpTo level

/-- The operators of a level are those that join operands on it. -/
theorem operatorsAt_eq_some_iff {level : Nat} {kind : Token.Kind}
    {combine : Expr → Expr → Expr} :
    operatorsAt level kind = some combine ↔ joining? kind = some (level, combine) := by
  unfold operatorsAt
  split
  · rename_i found combine' joins
    rw [joins]
    by_cases same : found = level
    · simp [same]
    · simp [same]
  · rename_i alone
    simp [alone]

/-- The parser has the levels of the grammar. -/
theorem levels_eq : Parse.levels = levelsUpTo 7 := by
  have same (table : List (Mark × (Expr → Expr → Expr))) (level : Nat)
      (marks : ∀ sign, table.lookup sign = operatorsAt level (.mark sign))
      (words : ∀ word, operatorsAt level (.keyword word) = none) :
      Parse.level table = operatorsAt level := by
    funext kind
    cases kind with
    | mark sign => exact marks sign
    | keyword word => exact (words word).symm
    | _ => rfl
  have casts : (fun kind => if kind = .keyword .cast then some .cast else none : Parse.Level) =
      operatorsAt 1 := by
    funext kind
    cases kind with
    | mark sign => cases sign <;> rfl
    | keyword word => cases word <;> rfl
    | _ => rfl
  simp only [Parse.levels, levelsUpTo, ← casts, List.cons.injEq, and_true]
  refine ⟨?_, ?_, ?_, ?_, ?_, ?_⟩ <;>
    refine same _ _ (fun sign => ?_) fun word => ?_ <;> first | cases sign <;> rfl | cases word <;> rfl

/-- The loosest level of an expression that goes on at a token of the kind is the number or above it:
an expression of a lower level ends in front of the token. -/
def reach (kind : Token.Kind) : Nat :=
  match joining? kind with
  | some (level, _) => level
  | none => if kind = .mark .dot ∨ kind = .mark .openParen then 0 else 11

/-- No operator between operands stands on the level of `not`. -/
theorem joining?_ne_eight {kind : Token.Kind} {combine : Expr → Expr → Expr} :
    joining? kind ≠ some (8, combine) := by
  unfold joining?
  split <;> simp

section Reach

variable {level : Nat} {kind : Token.Kind}

/-- An expression goes on at an operator from its level on. -/
theorem reach_of_joining {combine : Expr → Expr → Expr}
    (joins : joining? kind = some (level, combine)) : reach kind = level := by
  unfold reach
  rw [joins]

/-- No kind reaches beyond the eleventh level: every expression ends there at the latest. -/
theorem reach_le (kind : Token.Kind) : reach kind ≤ 11 := by
  cases kind with
  | mark sign => cases sign <;> decide
  | keyword word => cases word <;> decide
  | _ => decide

/-- Where an expression ends there is no operator of its level. -/
theorem operatorsAt_eq_none (ends : level < reach kind) : operatorsAt level kind = none := by
  cases found : operatorsAt level kind with
  | none => rfl
  | some combine =>
    rw [operatorsAt_eq_some_iff] at found
    rw [reach_of_joining found] at ends
    omega

/-- A kind at which an expression ends is none at which every expression goes on. -/
theorem ne_of_lt_reach {other : Token.Kind} (ends : level < reach kind) (first : reach other = 0) :
    kind ≠ other := by
  rintro rfl
  omega

end Reach

/-- The parser has the operators of the grammar in front of operands. -/
theorem unaryOp?_eq_some_iff {kind : Token.Kind} {op : UnaryOp} :
    Parse.unaryOp? kind = some op ↔ Prefix kind op := by
  constructor
  · intro found
    unfold Parse.unaryOp? at found
    split at found <;> cases found <;> constructor
  · intro known
    cases known <;> rfl

/-- A compound assignment is one of the assignments. -/
theorem assigns_of_compoundOp? {kind : Token.Kind} {op : AssignOp}
    (found : Parse.compoundOp? kind = some op) : Assigns kind op := by
  unfold Parse.compoundOp? at found
  split at found <;> cases found <;> constructor

/-- The operators of an assignment are the ones that the parser looks for behind a name. -/
theorem Assigns.assigns {kind : Token.Kind} {op : AssignOp} (known : Assigns kind op) :
    kind.assigns = true := by
  cases known <;> rfl

end Grammar

namespace Parse

open Grammar

variable {σ : Type} [TokenSource σ]

/-- The parser of one level of the grammar. The count limits the words `not`. -/
def ofLevel (fuel count : Nat) : Nat → Parse σ Expr
  | 8 => negation (expression fuel) count
  | 9 => condition.conjunction (expression fuel) fuel
  | 10 => condition (expression fuel) fuel
  | level => joined (operand fuel) fuel (levelsUpTo level) none

/-- On the levels of operators the parser reads joined operands. -/
theorem ofLevel_low {fuel count level : Nat} (low : level ≤ 7) :
    (ofLevel fuel count level : Parse σ Expr) =
      joined (operand fuel) fuel (levelsUpTo level) none := by
  rw [ofLevel] <;> omega

/-- On the seventh level the parser reads an expression. -/
theorem ofLevel_seven (fuel count : Nat) :
    (ofLevel fuel count 7 : Parse σ Expr) = expression fuel := by
  rw [expression, seededExpression, levels_eq, ofLevel_low (by decide)]

/-- Each level but that of `not` joins operands of the level below it. -/
theorem ofLevel_succ {fuel count level : Nat} (low : level < 10) (other : level ≠ 7) :
    (ofLevel fuel count (level + 1) : Parse σ Expr) =
      ofLevel fuel fuel level >>=
        leftAssociated (operatorsAt (level + 1)) (ofLevel fuel fuel level) fuel := by
  have conjunctions : (fun kind => if kind = .keyword .and then some (.logic .and) else none :
      Level) = operatorsAt 9 := by
    funext kind
    cases kind with
    | mark sign => cases sign <;> rfl
    | keyword word => cases word <;> rfl
    | _ => rfl
  have disjunctions : (fun kind => if kind = .keyword .or then some (.logic .or) else none :
      Level) = operatorsAt 10 := by
    funext kind
    cases kind with
    | mark sign => cases sign <;> rfl
    | keyword word => cases word <;> rfl
    | _ => rfl
  match level with
  | 0 | 1 | 2 | 3 | 4 | 5 | 6 => rfl
  | 7 => exact absurd rfl other
  | 8 => exact conjunctions ▸ rfl
  | 9 => exact disjunctions ▸ rfl

end Parse

end ScriptLang

import ScriptLang.Proofs.Emit.Conditions
import ScriptLang.Proofs.Parser.Output
import ScriptLang.Proofs.Run.Faults

/-!
# What the back ends rely on

Running and printing are defined for trees of every shape. On a program that was read from a text
they never come to the cases that are there only because the type of trees allows for them.
-/

namespace ScriptLang

namespace Program

/-- A program that was read from a text is proper. So no run of it lacks an operand or meets an
error code that is not a number, and no operators but those on addresses are refused. Printing it
stops at names only, and from each condition that is printed in parentheses one opening and one
closing parenthesis are taken off. -/
theorem proper_and_suits_backends_of_ofText {text : String} {program : Program}
    (read : ofText text = .ok program) :
    program.Proper ∧
      (∀ limit fault, program.execute limit = .error fault →
        (∀ op, fault ≠ .missingOperand op) ∧ (∀ literal, fault ≠ .errorCodeNotNumber literal) ∧
          ∀ symbol, fault = .unsupportedOperator symbol → symbol = "*" ∨ symbol = "&") ∧
      (∀ dialect error, program.emit dialect = .error error → ∃ cause, error = .name cause) ∧
      ∀ test thenArm elseArm, .branch test thenArm elseArm ∈ program.nodes →
        ∀ dialect table printed, Emit.expr dialect table test = .ok printed →
          ∃ inner, Emit.condition dialect table test = .ok inner ∧
            printed = if Emit.isWrapped test then "(" ++ inner ++ ")" else inner := by
  have proper := allProper_of_ofText read
  refine ⟨proper_of_allProper proper, fun limit fault failed => ?_,
    fun dialect => failsOnNames_emit proper dialect,
    fun test thenArm elseArm within dialect table printed => ?_⟩
  · have expected := isExpected_of_execute proper failed
    refine ⟨?_, ?_, ?_⟩
    · rintro op rfl
      exact expected
    · rintro literal rfl
      exact expected
    · rintro symbol rfl
      exact expected
  · have conditions := ((Stmt.allProper_iff.1 proper).2 _ within).2
    exact Emit.condition_eq (conditions test List.mem_cons_self)

/-- A branch whose condition is printed in parentheses, and whose arm looks at an address. -/
theorem proper_and_suits_backends_of_ofText_branch :
    let condition : Expr := .logic .less (.variable "a") (.number "1" 1)
    let arm : Stmt := .expr (.unary .deref (.variable "c"))
    let program : Program := ⟨[], [.branch condition arm none]⟩
    ofText "if a < 1 then *c" = .ok program ∧ program.Proper ∧
      (∀ limit fault, program.execute limit = .error fault →
        (∀ op, fault ≠ .missingOperand op) ∧ (∀ literal, fault ≠ .errorCodeNotNumber literal) ∧
          ∀ symbol, fault = .unsupportedOperator symbol → symbol = "*" ∨ symbol = "&") ∧
      (∀ dialect error, program.emit dialect = .error error → ∃ cause, error = .name cause) ∧
      ∀ dialect table printed, Emit.expr dialect table condition = .ok printed →
        ∃ inner, Emit.condition dialect table condition = .ok inner ∧
          printed = "(" ++ inner ++ ")" := by
  intro condition arm program
  have cut : tokenize "if a < 1 then *c" = .ok
      [⟨.keyword .cond, "if", ⟨⟨0, 1, 0⟩, 2⟩⟩, ⟨.identifier, "a", ⟨⟨3, 1, 3⟩, 4⟩⟩,
        ⟨.mark .less, "<", ⟨⟨5, 1, 5⟩, 6⟩⟩, ⟨.number, "1", ⟨⟨7, 1, 7⟩, 8⟩⟩,
        ⟨.keyword .thenArm, "then", ⟨⟨9, 1, 9⟩, 13⟩⟩, ⟨.mark .star, "*", ⟨⟨14, 1, 14⟩, 15⟩⟩,
        ⟨.identifier, "c", ⟨⟨15, 1, 15⟩, 16⟩⟩, ⟨.eof, "EOF", ⟨⟨16, 1, 16⟩, 16⟩⟩] := by
    with_unfolding_all rfl
  have read : ofText "if a < 1 then *c" = .ok program :=
    (ofText_eq_of_tokenize cut).trans rfl
  obtain ⟨proper, runs, prints, conditions⟩ := proper_and_suits_backends_of_ofText read
  exact ⟨read, proper, runs, prints, conditions condition arm none List.mem_cons_self⟩

end Program

end ScriptLang

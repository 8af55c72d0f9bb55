import ScriptLang.Proofs.Parser.Grammar

/-!
# Which `if` an `else` belongs to

The grammar leaves it open. Whatever tokens are a statement for one choice are a statement for the
choice in which each `else` belongs to the nearest `if` that is open: an `else` that belongs to an
outer one is moved inwards, one branch after the other.
-/

namespace ScriptLang

namespace Grammar

/-- An `else` behind a phrase that ends in an `if` without one can belong to this `if`. -/
def Takes : (phrase : Phrase) → List Token → phrase.Tree → Prop
  | .stmt, tokens, stmt => stmt.ElsesNearest → stmt.endsOpen → ∀ {after arm},
      Derives .otherwise after (some arm) → arm.ElsesNearest →
        ∃ stmt', Derives .stmt (tokens ++ after) stmt' ∧ stmt'.ElsesNearest
  | .arm, tokens, stmt => stmt.ElsesNearest → stmt.endsOpen → ∀ {after arm},
      Derives .otherwise after (some arm) → arm.ElsesNearest →
        ∃ stmt', Derives .arm (tokens ++ after) stmt' ∧ stmt'.ElsesNearest
  | .otherwise, tokens, tree => Stmt.ElseNearest tree → Stmt.elseEndsOpen tree → ∀ {after arm},
      Derives .otherwise after (some arm) → arm.ElsesNearest →
        ∃ arm', Derives .otherwise (tokens ++ after) (some arm') ∧ arm'.ElsesNearest
  | _, _, _ => True

/-- What stands in no tokens behind an arm is nothing. -/
theorem Derives.eq_nil_of_none {tokens : List Token} (derived : Derives .otherwise tokens none) :
    tokens = [] := by
  cases derived
  rfl

/-- Every phrase that ends in an `if` without `else` takes an `else` behind it for this `if`. -/
theorem takes {phrase : Phrase} {tokens : List Token} {tree : phrase.Tree}
    (derived : Derives phrase tokens tree) : Takes phrase tokens tree := by
  induction derived with
  | @branch token tokens tokens' tokens'' test thenArm elseArm branches derived first second _ ih
      ih' =>
    intro nearest isOpen after arm behind nearestArm
    rw [Stmt.ElsesNearest] at nearest
    obtain ⟨nearest, nearest', closed⟩ := nearest
    rw [Stmt.endsOpen] at isOpen
    by_cases thenOpen : thenArm.endsOpen = true
    · -- an arm that is open has no `else` behind it, so it takes the new one
      cases elseArm with
      | some elseArm => simp [closed rfl] at thenOpen
      | none =>
        obtain rfl := second.eq_nil_of_none
        obtain ⟨thenArm', first', nearest'⟩ := ih nearest thenOpen behind nearestArm
        refine ⟨.branch test thenArm' none, ?_, ?_⟩
        · simpa using Derives.branch branches derived first' .noElse
        · rw [Stmt.ElsesNearest]
          exact ⟨nearest', trivial, nofun⟩
    · obtain ⟨elseArm', second', nearest''⟩ := ih' nearest' isOpen behind nearestArm
      refine ⟨.branch test thenArm (some elseArm'), ?_, ?_⟩
      · simpa using Derives.branch branches derived first second'
      · rw [Stmt.ElsesNearest]
        exact ⟨nearest, nearest'', fun _ => by simpa using thenOpen⟩
  | thenArm isThen _ ih =>
    intro nearest isOpen after arm behind nearestArm
    obtain ⟨stmt', derived', nearest'⟩ := ih nearest isOpen behind nearestArm
    exact ⟨stmt', .thenArm isThen derived', nearest'⟩
  | noElse =>
    intro nearest isOpen after arm behind nearestArm
    exact ⟨arm, behind, nearestArm⟩
  | elseArm isElse _ ih =>
    intro nearest isOpen after arm behind nearestArm
    obtain ⟨stmt', derived', nearest'⟩ := ih nearest isOpen behind nearestArm
    exact ⟨stmt', .elseArm isElse derived', nearest'⟩
  | block | func | ret | declare | assign | expr | empty | bracedArm =>
    intro nearest isOpen
    cases isOpen
  | _ => trivial

/-- An empty statement says nothing of the elses in a list. -/
theorem allElsesNearest_filter {stmt : Stmt} {others : List Stmt} (nearest : stmt.ElsesNearest)
    (nearest' : Stmt.AllElsesNearest others) :
    Stmt.AllElsesNearest ([stmt].filter (!·.isEmpty) ++ others) := by
  cases stmt with
  | empty => exact nearest'
  | _ => exact ⟨nearest, nearest'⟩

/-- The tokens are the phrase with each `else` at the nearest `if` that is open. Expressions and their
parts are left out. -/
def HasNearest : Phrase → List Token → Prop
  | .stmt, tokens => ∃ stmt, Derives .stmt tokens stmt ∧ stmt.ElsesNearest
  | .arm, tokens => ∃ arm, Derives .arm tokens arm ∧ arm.ElsesNearest
  | .otherwise, tokens => ∃ arm, Derives .otherwise tokens arm ∧ Stmt.ElseNearest arm
  | .stmts, tokens => ∃ body, Derives .stmts tokens body ∧ Stmt.AllElsesNearest body
  | .braced, tokens => ∃ body, Derives .braced tokens body ∧ Stmt.AllElsesNearest body
  | _, _ => True

/-- A branch whose arm is open gives the arm the `else` that stands behind it. -/
theorem hasNearest_branch {token : Token} {tokens tokens' tokens'' : List Token} {test : Expr}
    (branches : token.kind = .keyword .cond) (derived : Derives (.op 10) tokens test)
    (first : HasNearest .arm tokens') (second : HasNearest .otherwise tokens'') :
    HasNearest .stmt (token :: (tokens ++ (tokens' ++ tokens''))) := by
  obtain ⟨thenArm, first, nearest⟩ := first
  obtain ⟨elseArm, second, nearest'⟩ := second
  cases elseArm with
  | none =>
    refine ⟨.branch test thenArm none, .branch branches derived first second, ?_⟩
    rw [Stmt.ElsesNearest]
    exact ⟨nearest, trivial, nofun⟩
  | some elseArm =>
    by_cases isOpen : thenArm.endsOpen = true
    · obtain ⟨thenArm', first', nearest''⟩ := takes first nearest isOpen second nearest'
      refine ⟨.branch test thenArm' none, ?_, ?_⟩
      · simpa using Derives.branch branches derived first' .noElse
      · rw [Stmt.ElsesNearest]
        exact ⟨nearest'', trivial, nofun⟩
    · refine ⟨.branch test thenArm (some elseArm), .branch branches derived first second, ?_⟩
      rw [Stmt.ElsesNearest]
      exact ⟨nearest, nearest', fun _ => by simpa using isOpen⟩

/-- Tokens that are a phrase are so with each `else` at the nearest `if` that is open. -/
theorem hasNearest {phrase : Phrase} {tokens : List Token} {tree : phrase.Tree}
    (derived : Derives phrase tokens tree) : HasNearest phrase tokens := by
  induction derived with
  | block _ ih =>
    obtain ⟨body, derived, nearest⟩ := ih
    exact ⟨.block body, .block derived, nearest⟩
  | branch branches derived _ _ _ first second =>
    exact hasNearest_branch branches derived first second
  | func defines known takes gives _ ih =>
    obtain ⟨body, derived, nearest⟩ := ih
    exact ⟨_, .func defines known takes gives derived, nearest⟩
  | ret returns given coded => exact ⟨_, .ret returns given coded, trivial⟩
  | declare declares names isAssign given => exact ⟨_, .declare declares names isAssign given, trivial⟩
  | assign names assigns given => exact ⟨_, .assign names assigns given, trivial⟩
  | expr derived => exact ⟨_, .expr derived, trivial⟩
  | empty => exact ⟨_, .empty, trivial⟩
  | bracedArm _ ih =>
    obtain ⟨body, derived, nearest⟩ := ih
    exact ⟨.block body, .bracedArm derived, nearest⟩
  | thenArm isThen _ ih =>
    obtain ⟨arm, derived, nearest⟩ := ih
    exact ⟨arm, .thenArm isThen derived, nearest⟩
  | noElse => exact ⟨none, .noElse, trivial⟩
  | elseArm isElse _ ih =>
    obtain ⟨arm, derived, nearest⟩ := ih
    exact ⟨some arm, .elseArm isElse derived, nearest⟩
  | last _ ih =>
    obtain ⟨stmt, derived, nearest⟩ := ih
    refine ⟨_, .last derived, ?_⟩
    rw [← List.append_nil ([stmt].filter _)]
    exact allElsesNearest_filter nearest trivial
  | next _ isBreak _ ih ih' =>
    obtain ⟨stmt, derived, nearest⟩ := ih
    obtain ⟨others, derived', nearest'⟩ := ih'
    exact ⟨_, .next derived isBreak derived', allElsesNearest_filter nearest nearest'⟩
  | braced opens _ closes ih =>
    obtain ⟨body, derived, nearest⟩ := ih
    exact ⟨body, .braced opens derived closes, nearest⟩
  | _ => trivial

/-- Tokens that are a program are one with each `else` at the nearest `if` that is open. -/
theorem IsProgram.exists_nearest {tokens : List Token} {program : Program}
    (known : IsProgram tokens program) :
    ∃ program, IsProgram tokens program ∧ program.ElsesNearest := by
  cases known with
  | statements areBreaks known derived =>
    obtain ⟨body, derived, nearest⟩ := hasNearest derived
    exact ⟨_, .statements areBreaks known derived, nearest⟩
  | endsInImport areBreaks known isUse isString =>
    exact ⟨_, .endsInImport areBreaks known isUse isString, trivial⟩

end Grammar

end ScriptLang

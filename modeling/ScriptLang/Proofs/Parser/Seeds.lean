import ScriptLang.Proofs.Parser.Prospect

/-!
# Expressions behind a name that was read before

A statement that starts with a dotted name can turn out to be an expression when the name has been read
already, and then the name is handed down as a seed. It becomes the first operand and nothing else: the
seed goes through all levels of operators on the left, and the right operands, the arguments of a call
and the operators in front of an operand never see it. So the seeded expression is the one that is read
without looking at the name first, with the same faults and the same feed behind it
(`expression_of_seed`), and a statement that starts with a name which is no target is that expression
(`statement_of_seed`).
-/

namespace ScriptLang

namespace Parse

variable {σ : Type} {α β : Type}

/-- What follows computations with one outcome has one outcome too. -/
theorem bind_congr_front {first first' : Parse σ α} {next : α → Parse σ β} {feed feed' : Feed σ}
    (same : first feed = first' feed') : (first >>= next) feed = (first' >>= next) feed' := by
  simp only [Bind.bind, EStateM.bind, same]

/-- Behind a step with a result goes on what takes the result. -/
theorem bind_of_eq_ok {first : Parse σ α} {next : α → Parse σ β} {feed behind : Feed σ} {value : α}
    (given : first feed = .ok value behind) : (first >>= next) feed = next value behind := by
  simp only [Bind.bind, EStateM.bind, given]

/-- What follows a computation matters only from the feeds that it leaves with a result. -/
theorem bind_congr_behind {first : Parse σ α} {next next' : α → Parse σ β} {feed : Feed σ}
    (same : ∀ value behind, first feed = .ok value behind → next value behind = next' value behind) :
    (first >>= next) feed = (first >>= next') feed := by
  simp only [Bind.bind, EStateM.bind]
  cases outcome : first feed with
  | ok value behind => exact same value behind outcome
  | error stop behind => rfl

variable [TokenSource σ] {feed behind : Feed σ} {fuel : Nat}

/-- A token that is eaten is no longer left. -/
theorem remaining_of_eat {expected : Token.Kind} (more : expected ≠ .eof) {token : Token}
    (eaten : eat expected feed = .ok token behind) : behind.remaining < feed.remaining := by
  have step := within_eat feed.remaining more feed (Nat.le_refl _)
  rw [eaten] at step
  exact step

/-- A token that is accepted is no longer left. -/
theorem remaining_of_accept {expected : Token.Kind} (more : expected ≠ .eof)
    (taken : accept expected feed = .ok true behind) : behind.remaining < feed.remaining := by
  have step := leaves_advance feed
  by_cases seen : feed.current.kind = expected
  · rw [weight_eq_one (seen ▸ more)] at step
    rw [accept, if_pos seen] at taken
    cases outcome : advance feed with
    | ok token moved =>
      rw [outcome] at step taken
      obtain ⟨-, rfl⟩ := EStateM.Result.ok.inj taken
      exact step
    | error stop moved =>
      rw [outcome] at taken
      cases taken
  · rw [accept, if_neg seen] at taken
    cases taken

/-- Fuel above the number of tokens does not matter to a name. -/
theorem nameRest_succ (word : Name) (enough : feed.remaining < fuel) :
    nameRest (fuel + 1) word feed = nameRest fuel word feed := by
  induction fuel generalizing feed word with
  | zero => omega
  | succ fuel ih =>
    rw [nameRest, nameRest]
    refine bind_congr_behind fun dotted behind outcome => ?_
    cases dotted with
    | false => rfl
    | true =>
      have fewer := remaining_of_accept (by decide) outcome
      refine bind_congr_behind fun token behind' eaten => ?_
      have fewer' := remaining_of_eat (by decide) eaten
      exact ih _ (by omega)

/-- A unit of fuel for each token that is left is enough for a name: one more changes nothing. -/
theorem name_succ (enough : feed.remaining ≤ fuel) :
    (name (fuel + 1) : Parse σ Name) feed = name fuel feed :=
  bind_congr_behind fun token behind eaten => by
    have fewer := remaining_of_eat (by decide) eaten
    exact nameRest_succ token.text (by omega)

/-- If a name in front can be handed to the first operand as a seed, then it can be handed down through
any levels of operators. -/
theorem joined_of_seed {operand : Option Name → Parse σ Expr} {first : Parse σ Name}
    (front : (first >>= fun seed => operand (some seed)) feed = operand none feed) (fuel : Nat)
    (operators : List Level) :
    (first >>= fun seed => joined operand fuel operators (some seed)) feed =
      joined operand fuel operators none feed := by
  induction operators with
  | nil => exact front
  | cons operator? tighter ih =>
    simp only [joined]
    rw [← bind_assoc]
    exact bind_congr_front ih

/-- An operand that starts with a name is a call or a variable. -/
theorem operand_of_identifier (starts : feed.current.kind = .identifier) :
    operand (fuel + 1) none feed =
      (name fuel >>= callOrVariable (joined (operand fuel) fuel levels none) fuel) feed := by
  have plain : take? unaryOp? feed = .ok none feed := by
    rw [take?, starts]
    rfl
  simp only [operand, Bind.bind, EStateM.bind, plain, factor, kind, starts]

/-- A name in front of the feed stands for the same operand as the name in the feed. -/
theorem operand_of_seed (enough : feed.remaining ≤ fuel) (starts : feed.current.kind = .identifier) :
    (name (fuel + 1) >>= fun seed => operand (fuel + 1) (some seed)) feed =
      operand (fuel + 1) none feed :=
  (bind_congr_front (name_succ enough)).trans (operand_of_identifier starts).symm

/-- Reading a name and handing it down as a seed is reading the expression that it starts. -/
theorem expression_of_seed (enough : feed.remaining < fuel)
    (starts : feed.current.kind = .identifier) :
    (name fuel >>= fun seed => seededExpression fuel (some seed)) feed = expression fuel feed := by
  cases fuel with
  | zero => omega
  | succ fuel =>
    exact joined_of_seed (operand_of_seed (by omega) starts) (fuel + 1) levels

/-- Looking ahead pulls the token that moving on pulls, and fails where moving on fails. -/
theorem peek_cases (feed : Feed σ) :
    (∃ token source, peek feed = .ok token.kind ⟨feed.current, some token, source⟩ ∧
      advance feed = .ok feed.current ⟨token, none, source⟩) ∨
      ∃ stop behind, peek feed = .error stop behind ∧ advance feed = .error stop behind := by
  obtain ⟨current, _ | token, source⟩ := feed
  · rcases step : TokenSource.next source with ⟨error | token, behind⟩
    · exact .inr ⟨_, _, by rw [peek, step], by rw [advance, step]⟩
    · exact .inl ⟨_, _, by rw [peek, step], by rw [advance, step]⟩
  · exact .inl ⟨token, source, rfl, rfl⟩

section Lookahead

variable {token : Token} {source : σ}

/-- A name is read in the same way behind a look ahead. -/
theorem name_of_peek (starts : feed.current.kind = .identifier)
    (moves : advance feed = .ok feed.current ⟨token, none, source⟩) (fuel : Nat) :
    (name fuel : Parse σ Name) ⟨feed.current, some token, source⟩ = name fuel feed := by
  refine bind_congr_front ?_
  rw [eat, eat, if_pos starts, if_pos starts, moves]
  rfl

/-- An expression that starts with a name is read in the same way behind a look ahead. -/
theorem expression_of_peek (enough : feed.remaining < fuel)
    (starts : feed.current.kind = .identifier)
    (looks : peek feed = .ok token.kind ⟨feed.current, some token, source⟩)
    (moves : advance feed = .ok feed.current ⟨token, none, source⟩) :
    expression fuel ⟨feed.current, some token, source⟩ = expression fuel feed := by
  have fewer := within_peek feed.remaining feed (Nat.le_refl _)
  rw [looks] at fewer
  have enough' : (⟨feed.current, some token, source⟩ : Feed σ).remaining < fuel :=
    Nat.lt_of_le_of_lt fewer enough
  rw [← expression_of_seed enough starts, ← expression_of_seed enough' starts]
  exact bind_congr_front (name_of_peek starts moves fuel)

/-- A name of one word leaves the feed in front of the token behind it. -/
theorem name_of_ne_dot (starts : feed.current.kind = .identifier)
    (moves : advance feed = .ok feed.current ⟨token, none, source⟩)
    (single : token.kind ≠ .mark .dot) :
    name (fuel + 1) feed = .ok feed.current.text ⟨token, none, source⟩ := by
  simp only [name, nameRest, Bind.bind, EStateM.bind, eat, accept, starts, moves, single, if_true,
    if_false]
  rfl

/-- A dotted name is read first, and if it is no target then the expression goes on behind it. -/
theorem seeded_statement (enough : feed.remaining < fuel)
    (starts : feed.current.kind = .identifier)
    (moves : advance feed = .ok feed.current ⟨token, none, source⟩)
    (other : ∀ first behind, name fuel feed = .ok first behind →
      ¬(behind.current.kind = .mark .comma ∨ behind.current.kind.assigns = true)) :
    (do
      let first ← name fuel
      let behind ← kind
      if behind = .mark .comma ∨ behind.assigns then
        assignmentTo fuel false first
      else
        let value ← seededExpression fuel (some first)
        return .expr value : Parse σ Stmt) ⟨feed.current, some token, source⟩ =
      (do let value ← expression fuel; return .expr value : Parse σ Stmt) feed := by
  calc
    _ = (name fuel >>= fun first => seededExpression fuel (some first) >>=
          fun value => pure (.expr value) : Parse σ Stmt) ⟨feed.current, some token, source⟩ :=
      bind_congr_behind fun first behind outcome => by
        have plain := other first behind ((name_of_peek starts moves _).symm.trans outcome)
        have sees : (kind : Parse σ Token.Kind) behind = .ok behind.current.kind behind := rfl
        rw [bind_of_eq_ok sees, if_neg plain]
    _ = ((name fuel >>= fun first => seededExpression fuel (some first)) >>=
          fun value => pure (.expr value) : Parse σ Stmt) ⟨feed.current, some token, source⟩ := by
      rw [bind_assoc]
    _ = ((name fuel >>= fun first => seededExpression fuel (some first)) >>=
          fun value => pure (.expr value) : Parse σ Stmt) feed :=
      bind_congr_front (bind_congr_front (name_of_peek starts moves _))
    _ = (expression fuel >>= fun value => pure (.expr value) : Parse σ Stmt) feed :=
      bind_congr_front (expression_of_seed enough starts)

end Lookahead

/-- A statement that starts with a name, behind which stands neither a comma nor an assignment
operator, is the expression that starts with the name. -/
theorem statement_of_seed (enough : feed.remaining < fuel)
    (starts : feed.current.kind = .identifier)
    (other : ∀ first behind, name fuel feed = .ok first behind →
      ¬(behind.current.kind = .mark .comma ∨ behind.current.kind.assigns = true)) :
    statement fuel feed = (do let value ← expression fuel; return Stmt.expr value) feed := by
  obtain _ | fuel := fuel
  · omega
  have begins : statement (fuel + 1) feed = named (fuel + 1) feed := by
    simp only [statement, Bind.bind, EStateM.bind, kind, starts]
  rw [begins, named]
  rcases peek_cases feed with ⟨token, source, looks, moves⟩ | ⟨stop, behind, looks, moves⟩
  · have same := expression_of_peek enough starts looks moves
    rw [bind_of_eq_ok looks]
    by_cases dotted : token.kind = .mark .dot
    · have joins : ¬(token.kind = .mark .comma ∨ token.kind.assigns = true) := by
        rw [dotted]
        decide
      rw [if_neg joins, if_pos dotted]
      exact seeded_statement enough starts moves other
    · have plain := other _ _ (name_of_ne_dot starts moves dotted)
      rw [if_neg plain, if_neg dotted]
      exact bind_congr_front same
  · have stuck : expression (fuel + 1) feed = .error stop behind := by
      rw [← expression_of_seed enough starts]
      simp only [name, Bind.bind, EStateM.bind, eat, starts, moves, if_true]
    simp only [Bind.bind, EStateM.bind, looks, stuck]

/-- Of a name that is no target it does not matter whether it is read before the expression that it
starts: the expression or the fault is the same, and so is the feed behind it, the token that was looked
at included. A statement that starts with such a name is this expression. -/
theorem seeded_eq_plain (enough : feed.remaining < fuel)
    (starts : feed.current.kind = .identifier)
    (other : ∀ first behind, name fuel feed = .ok first behind →
      ¬(behind.current.kind = .mark .comma ∨ behind.current.kind.assigns = true)) :
    (name fuel >>= fun first => seededExpression fuel (some first)) feed = expression fuel feed ∧
      statement fuel feed = (do let value ← expression fuel; return Stmt.expr value) feed ∧
        ∀ behind, expression fuel feed ≠ .error .outOfFuel behind := by
  refine ⟨expression_of_seed enough starts, statement_of_seed enough starts other, ?_⟩
  intro behind exhausted
  have result := within_expression enough feed (Nat.le_refl _)
  rw [exhausted] at result
  exact result rfl

/-- A call of a dotted name, with an operator behind it. -/
def dottedCall : Feed TokenList :=
  ⟨Token.sample .identifier, none, TokenList.ofList
    ([.mark .dot, .identifier, .mark .openParen, .identifier, .mark .closeParen, .mark .plus,
      .identifier].map Token.sample)⟩

/-- A call of a dotted name with an operator behind it is read alike in both ways. -/
theorem seeded_eq_plain_dottedCall :
    dottedCall.remaining < 9 ∧ dottedCall.current.kind = .identifier ∧
      (∀ first behind, name 9 dottedCall = .ok first behind →
        ¬(behind.current.kind = .mark .comma ∨ behind.current.kind.assigns = true)) ∧
      (name 9 >>= fun first => seededExpression 9 (some first)) dottedCall =
          expression 9 dottedCall ∧
        statement 9 dottedCall = (do let value ← expression 9; return Stmt.expr value) dottedCall ∧
          ∀ behind, expression 9 dottedCall ≠ .error .outOfFuel behind := by
  have enough : dottedCall.remaining < 9 := by decide
  have other : ∀ first behind, name 9 dottedCall = .ok first behind →
      ¬(behind.current.kind = .mark .comma ∨ behind.current.kind.assigns = true) := by
    rintro first behind ⟨⟩
    decide
  exact ⟨enough, rfl, other, seeded_eq_plain enough rfl other⟩

end Parse

end ScriptLang

import ScriptLang.Proofs.Parser.Levels
import ScriptLang.Proofs.Parser.Sources
import ScriptLang.Proofs.Token.Tiling
import ScriptLang.Proofs.Tree.Proper

/-!
# What is read from a text is proper

Every token that a text gives was cut off as it is written, so names are made of identifiers and
numbers are numerals. Each computation of the parser, whenever it gives a tree, gives a proper one.
-/

namespace ScriptLang

/-- A token as a text gives it. -/
def Token.IsLexed (token : Token) : Prop :=
  ∃ written rest, Lexeme.IsLexeme token.kind token.text written rest

namespace Token.IsLexed

variable {token : Token} (lexed : token.IsLexed)

include lexed

/-- A word is the same identifier where nothing stands behind it. -/
theorem isIdentifier (isWord : token.kind = .identifier) : IsIdentifier token.text := by
  obtain ⟨kind, text, span⟩ := token
  obtain ⟨written, rest, wrote⟩ := lexed
  dsimp only at isWord wrote ⊢
  subst isWord
  cases wrote with
  | @identifier first run _ word unspelled =>
    have alone : Lexeme.IsWord first run [] := by
      refine ⟨word.toIsPlain, fun sign stands => word.mark sign ?_, word.longest.within, by simp⟩
      rw [List.append_nil] at stands
      exact stands.trans (List.prefix_append (first :: run) rest)
    unfold IsIdentifier
    rw [String.toList_ofList]
    exact .identifier alone unspelled

/-- A number is a numeral if it has a value. -/
theorem isNumeral (isNumber : token.kind = .number) {value : Word}
    (denotes : Numeral.value? token.text = some value) : IsNumeral token.text value := by
  obtain ⟨kind, text, span⟩ := token
  obtain ⟨written, rest, wrote⟩ := lexed
  dsimp only at isNumber wrote denotes ⊢
  subst isNumber
  cases wrote with
  | @number digit run _ isDigit longest =>
    refine ⟨?_, denotes⟩
    rw [String.toList_ofList]
    exact .number isDigit ⟨longest.within, by simp⟩

/-- The text of a lexed string is the content of one. -/
theorem isContent (isString : token.kind = .string) : Lexeme.IsContent token.text.toList := by
  obtain ⟨kind, text, span⟩ := token
  obtain ⟨written, rest, wrote⟩ := lexed
  dsimp only at isString wrote ⊢
  subst isString
  cases wrote with
  | string content => simpa using content

end Token.IsLexed

/-- A text gives lexed tokens only. -/
theorem Cursor.isLexed_of_next {cursor behind : Cursor} {token : Token}
    (step : TokenSource.next cursor = (.ok token, behind)) : token.IsLexed := by
  obtain ⟨-, wrote⟩ := Cursor.cuts_of_next step
  exact ⟨_, _, wrote⟩

/-- The tokens that a feed holds are lexed. -/
structure Feed.Lexed (feed : Feed Cursor) : Prop where
  current : feed.current.IsLexed
  peeked : ∀ token ∈ feed.peeked, token.IsLexed

namespace Parse

variable {α β : Type}

/-- Whenever the computation gives a value, the property holds of the value, and the tokens in the
feed are still lexed. -/
def Gives (computation : Parse Cursor α) (property : α → Prop) : Prop :=
  ∀ ⦃feed behind : Feed Cursor⦄ ⦃value : α⦄, feed.Lexed → computation feed = .ok value behind →
    property value ∧ behind.Lexed

variable {property property' : α → Prop}

section Steps

/-- What gives values of a property gives values of every weaker one. -/
theorem Gives.weaken {computation : Parse Cursor α} (gives : Gives computation property)
    (implies : ∀ value, property value → property' value) : Gives computation property' := by
  intro feed behind value lexed outcome
  obtain ⟨holds, lexed'⟩ := gives lexed outcome
  exact ⟨implies value holds, lexed'⟩

/-- A value of the property is given. -/
theorem gives_pure {value : α} (holds : property value) : Gives (pure value) property := by
  intro feed behind result lexed outcome
  cases outcome
  exact ⟨holds, lexed⟩

/-- A fault gives nothing. -/
theorem gives_fail {error : ParseError} : Gives (fail error) property :=
  fun _ _ _ _ outcome => nomatch outcome

/-- Running out of fuel gives nothing. -/
theorem gives_exhausted : Gives exhausted property :=
  fun _ _ _ _ outcome => nomatch outcome

/-- Two steps give values of a property if the second does behind every value that the first can
give. -/
theorem Gives.bind {first : Parse Cursor α} {next : α → Parse Cursor β} {final : β → Prop}
    (here : Gives first property) (there : ∀ value, property value → Gives (next value) final) :
    Gives (first >>= next) final := by
  intro feed behind result lexed outcome
  simp only [Bind.bind, EStateM.bind] at outcome
  cases step : first feed with
  | error stop middle =>
    rw [step] at outcome
    cases outcome
  | ok value middle =>
    rw [step] at outcome
    obtain ⟨holds, lexed'⟩ := here lexed step
    exact there value holds lexed' outcome

/-- Of the current kind nothing is said. -/
theorem gives_kind : Gives kind fun _ => True := by
  intro feed behind value lexed outcome
  cases outcome
  exact ⟨trivial, lexed⟩

/-- Of the answer on the current kind nothing is said. -/
theorem gives_sees (expected : Token.Kind) : Gives (sees expected) fun _ => True := by
  intro feed behind value lexed outcome
  cases outcome
  exact ⟨trivial, lexed⟩

/-- Of the kind that is looked at nothing is said. -/
theorem gives_peek : Gives peek fun _ => True := by
  intro feed behind value lexed outcome
  unfold peek at outcome
  split at outcome
  · cases outcome
    exact ⟨trivial, lexed⟩
  · split at outcome
    · rename_i step
      cases outcome
      refine ⟨trivial, lexed.current, fun token looked => ?_⟩
      obtain rfl := Option.some.inj looked
      exact Cursor.isLexed_of_next step
    · cases outcome

/-- Moving on gives the current token. -/
theorem lexed_of_advance {feed behind : Feed Cursor} {token : Token} (lexed : feed.Lexed)
    (outcome : advance feed = .ok token behind) : token = feed.current ∧ behind.Lexed := by
  unfold advance at outcome
  split at outcome
  · rename_i looked
    cases outcome
    exact ⟨rfl, lexed.peeked _ looked, by simp⟩
  · split at outcome
    · rename_i step
      cases outcome
      exact ⟨rfl, Cursor.isLexed_of_next step, by simp⟩
    · cases outcome

/-- What is eaten is a lexed token of the expected kind. -/
theorem gives_eat (expected : Token.Kind) :
    Gives (eat expected) fun token => token.IsLexed ∧ token.kind = expected := by
  intro feed behind token lexed outcome
  unfold eat at outcome
  dsimp only at outcome
  split at outcome
  · rename_i seen
    obtain ⟨rfl, lexed'⟩ := lexed_of_advance lexed outcome
    exact ⟨⟨lexed.current, seen⟩, lexed'⟩
  · cases outcome

/-- Of the answer whether a token was accepted nothing is said. -/
theorem gives_accept (expected : Token.Kind) : Gives (accept expected) fun _ => True := by
  intro feed behind found lexed outcome
  unfold accept at outcome
  split at outcome
  · cases moved : advance feed with
    | error stop behind' => simp [moved] at outcome
    | ok token behind' =>
      rw [moved] at outcome
      cases outcome
      exact ⟨trivial, (lexed_of_advance lexed moved).2⟩
  · cases outcome
    exact ⟨trivial, lexed⟩

/-- A meaning that is taken is that of some kind. -/
theorem gives_take (meaning? : Token.Kind → Option α) : Gives (take? meaning?) fun found =>
    ∀ meaning ∈ found, ∃ kind, meaning? kind = some meaning := by
  intro feed behind found lexed outcome
  unfold take? at outcome
  split at outcome
  · rename_i meaning seen
    cases moved : advance feed with
    | error stop behind' => simp [moved] at outcome
    | ok token behind' =>
      rw [moved] at outcome
      cases outcome
      refine ⟨fun meaning' same => ?_, (lexed_of_advance lexed moved).2⟩
      obtain rfl := Option.some.inj same
      exact ⟨_, seen⟩
  · cases outcome
    exact ⟨by simp, lexed⟩

/-- One or more items are not none. -/
theorem gives_commaSeparated {item : Parse Cursor α} (items : Gives item property) (fuel : Nat) :
    Gives (commaSeparated item fuel) fun values => values ≠ [] ∧ ∀ value ∈ values, property value := by
  induction fuel with
  | zero => exact gives_exhausted
  | succ fuel ih =>
    refine items.bind fun first holds => (gives_accept _).bind fun more _ => ?_
    split
    · refine ih.bind fun rest others => gives_pure ⟨by simp, ?_⟩
      exact List.forall_mem_cons.2 ⟨holds, others.2⟩
    · exact gives_pure ⟨by simp, by simpa using holds⟩

/-- Operands with operators between them give values of the property if operands do and operators
keep it. -/
theorem gives_leftAssociated {operator? : Token.Kind → Option (α → α → α)} {operand : Parse Cursor α}
    (combines : ∀ {kind combine left right}, operator? kind = some combine → property left →
      property right → property (combine left right))
    (operands : Gives operand property) (fuel : Nat) {left : α} (holds : property left) :
    Gives (leftAssociated operator? operand fuel left) property := by
  induction fuel generalizing left with
  | zero => exact gives_exhausted
  | succ fuel ih =>
    refine (gives_take operator?).bind fun found known => ?_
    split
    · obtain ⟨kind, joins⟩ := known _ rfl
      exact operands.bind fun right holds' => ih (combines joins holds holds')
    · exact gives_pure holds

end Steps

section Names

/-- The rest of a proper name makes it a longer proper one. -/
theorem gives_nameRest (fuel : Nat) {name : Name} (proper : name.Proper) :
    Gives (nameRest fuel name) Name.Proper := by
  induction fuel generalizing name with
  | zero => exact gives_exhausted
  | succ fuel ih =>
    refine (gives_accept _).bind fun dotted _ => ?_
    split
    · exact (gives_eat .identifier).bind fun word eaten =>
        ih (.dotted proper (eaten.1.isIdentifier eaten.2))
    · exact gives_pure proper

/-- A name that is read is proper. -/
theorem gives_name (fuel : Nat) : Gives (name fuel) Name.Proper :=
  (gives_eat .identifier).bind fun _ eaten =>
    gives_nameRest fuel (.word (eaten.1.isIdentifier eaten.2))

/-- A number that is read is a numeral with its value. -/
theorem gives_number : Gives number fun result => IsNumeral result.1 result.2 := by
  refine (gives_eat .number).bind fun token eaten => ?_
  split
  · rename_i value denotes
    exact gives_pure (eaten.1.isNumeral eaten.2 denotes)
  · exact gives_fail

/-- The parameters that are read are proper names. -/
theorem gives_parameters (fuel : Nat) : Gives (parameters fuel) fun names =>
    ∀ name ∈ names, name.Proper := by
  have listed : Gives (parameters.listed fuel) fun names => ∀ name ∈ names, name.Proper := by
    refine (gives_sees _).bind fun closes _ => ?_
    split
    · exact gives_pure (by simp)
    · exact (gives_commaSeparated (gives_name fuel) fuel).weaken fun _ known => known.2
  refine (gives_eat _).bind fun _ _ => listed.bind fun names known => ?_
  exact (gives_eat _).bind fun _ _ => gives_pure known

end Names

section Expressions

variable {fuel : Nat} {expression : Parse Cursor Expr}

/-- The operators between operands build proper trees. -/
theorem proper_of_joining {kind : Token.Kind} {level : Nat} {combine : Expr → Expr → Expr}
    {left right : Expr} (joins : Grammar.joining? kind = some (level, combine)) (proper : left.Proper)
    (proper' : right.Proper) : (combine left right).Proper := by
  unfold Grammar.joining? at joins
  split at joins <;> cases joins <;> simp [proper, proper']

/-- Proper operands are joined to proper expressions on every level. -/
theorem gives_joined {operand : Option Name → Parse Cursor Expr}
    (operands : ∀ seed, (∀ name ∈ seed, name.Proper) → Gives (operand seed) Expr.Proper)
    (level : Nat) {seed : Option Name} (proper : ∀ name ∈ seed, name.Proper) :
    Gives (joined operand fuel (Grammar.levelsUpTo level) seed) Expr.Proper := by
  induction level generalizing seed with
  | zero => exact operands seed proper
  | succ level ih =>
    refine (ih proper).bind fun left proper => ?_
    refine gives_leftAssociated (fun joins => ?_) (ih (by simp)) fuel proper
    exact proper_of_joining (Grammar.operatorsAt_eq_some_iff.1 joins)

/-- A condition behind any number of `not` is proper. -/
theorem gives_negation (expressions : Gives expression Expr.Proper) (count : Nat) :
    Gives (negation expression count) Expr.Proper := by
  induction count with
  | zero => exact gives_exhausted
  | succ count ih =>
    refine (gives_accept _).bind fun negates _ => ?_
    split
    · exact ih.bind fun inner proper => gives_pure (by simpa using proper)
    · exact expressions

/-- A condition that is read is proper. -/
theorem gives_condition (expressions : Gives expression Expr.Proper) :
    Gives (condition expression fuel) Expr.Proper := by
  have words {word : Keyword} {op : LogicOp} (joins : op ≠ .not) {operand : Parse Cursor Expr}
      (operands : Gives operand Expr.Proper) : Gives (do
        let first ← operand
        leftAssociated (fun kind => if kind = .keyword word then some (.logic op) else none)
          operand fuel first) Expr.Proper := by
    refine operands.bind fun first proper => gives_leftAssociated ?_ operands fuel proper
    intro kind combine left right found proper proper'
    split at found
    · cases found
      simp [joins, proper, proper']
    · cases found
  exact words (by decide) (words (by decide) (gives_negation expressions fuel))

/-- A call that is read is proper, and so is the variable that stands in its place. -/
theorem gives_callOrVariable (expressions : Gives expression Expr.Proper) {name : Name}
    (proper : name.Proper) : Gives (callOrVariable expression fuel name) Expr.Proper := by
  have arguments : Gives (callOrVariable.arguments expression fuel) fun args =>
      ∀ arg ∈ args, arg.Proper := by
    refine (gives_sees _).bind fun closes _ => ?_
    split
    · exact gives_pure (by simp)
    · exact (gives_commaSeparated expressions fuel).weaken fun _ known => known.2
  refine (gives_accept _).bind fun opens _ => ?_
  split
  · refine arguments.bind fun args known => (gives_eat _).bind fun _ _ => gives_pure ?_
    exact Expr.proper_call.2 ⟨proper, known⟩
  · exact gives_pure (by simpa using proper)

/-- An operand without operators is proper. -/
theorem gives_factor (expressions : Gives expression Expr.Proper) :
    Gives (factor expression fuel) Expr.Proper := by
  refine gives_kind.bind fun kind _ => ?_
  split
  · exact gives_number.bind fun result numeral => gives_pure (by simpa using numeral)
  · refine (gives_eat _).bind fun token eaten => gives_pure ?_
    simpa using eaten.1.isContent eaten.2
  · refine (gives_eat _).bind fun _ _ => (gives_condition expressions).bind fun inner proper => ?_
    exact (gives_eat _).bind fun _ _ => gives_pure proper
  · exact (gives_name fuel).bind fun name proper => gives_callOrVariable expressions proper

/-- An operand that is read is proper, by induction on the fuel that its parts have. -/
theorem gives_operand (fuel : Nat) {seed : Option Name} (proper : ∀ name ∈ seed, name.Proper) :
    Gives (operand fuel seed) Expr.Proper := by
  induction fuel generalizing seed with
  | zero => exact gives_exhausted
  | succ fuel ih =>
    have expressions : Gives (joined (operand fuel) fuel levels none) Expr.Proper := by
      rw [Grammar.levels_eq]
      exact gives_joined (fun seed proper => ih proper) 7 (by simp)
    cases seed with
    | some name => exact gives_callOrVariable expressions (proper name rfl)
    | none =>
      refine (gives_take unaryOp?).bind fun found _ => ?_
      split
      · exact (ih (by simp)).bind fun inner proper => gives_pure (by simpa using proper)
      · exact gives_factor expressions

/-- An expression is proper, also if a name was read in front of it. -/
theorem gives_seededExpression (fuel : Nat) {seed : Option Name}
    (proper : ∀ name ∈ seed, name.Proper) : Gives (seededExpression fuel seed) Expr.Proper := by
  rw [seededExpression, Grammar.levels_eq]
  exact gives_joined (fun seed proper => gives_operand fuel proper) 7 proper

/-- An expression that is read is proper. -/
theorem gives_expression (fuel : Nat) : Gives (Parse.expression fuel) Expr.Proper :=
  gives_seededExpression fuel (by simp)

/-- A list of expressions is read as one or more proper ones. -/
theorem gives_expressions (fuel : Nat) : Gives (expressions fuel) fun values =>
    values ≠ [] ∧ ∀ value ∈ values, value.Proper :=
  gives_commaSeparated (gives_expression fuel) fuel

end Expressions

section Assignments

/-- A declaration assigns plainly. -/
theorem gives_operator (declares : Bool) :
    Gives (assignmentTo.operator declares) fun op => declares → op = .set := by
  cases declares with
  | true => exact (gives_eat _).bind fun _ _ => gives_pure fun _ => rfl
  | false =>
    refine (gives_take compoundOp?).bind fun found _ => ?_
    split
    · exact gives_pure (by simp)
    · exact (gives_eat _).bind fun _ _ => gives_pure (by simp)

/-- An assignment that is read behind a proper target is proper. -/
theorem gives_assignmentTo (fuel : Nat) (declares : Bool) {first : Name} (proper : first.Proper) :
    Gives (assignmentTo fuel declares first) Stmt.Proper := by
  have targets : Gives (moreTargets fuel) fun names => ∀ name ∈ names, name.Proper := by
    refine (gives_accept _).bind fun more _ => ?_
    split
    · exact (gives_commaSeparated (gives_name fuel) fuel).weaken fun _ known => known.2
    · exact gives_pure (by simp)
  refine targets.bind fun more known => (gives_operator declares).bind fun op plain => ?_
  refine (gives_expressions fuel).bind fun values given => gives_pure ?_
  exact Stmt.proper_assign.2
    ⟨⟨by simp, given.1, plain, List.forall_mem_cons.2 ⟨proper, known⟩⟩, given.2⟩

/-- An assignment that is read is proper. -/
theorem gives_assignment (fuel : Nat) (declares : Bool) :
    Gives (assignment fuel declares) Stmt.Proper :=
  (gives_name fuel).bind fun _ proper => gives_assignmentTo fuel declares proper

/-- A statement that starts with a name is proper. -/
theorem gives_named (fuel : Nat) : Gives (named fuel) Stmt.Proper := by
  refine gives_peek.bind fun next _ => ?_
  split
  · exact gives_assignment fuel false
  · split
    · refine (gives_name fuel).bind fun first proper => gives_kind.bind fun behind _ => ?_
      split
      · exact gives_assignmentTo fuel false proper
      · refine (gives_seededExpression fuel (by simpa using proper)).bind fun value proper => ?_
        exact gives_pure (by simpa using proper)
    · exact (gives_expression fuel).bind fun value proper => gives_pure (by simpa using proper)

end Assignments

/-- An error code that is read is a numeral. -/
theorem gives_errorCode : Gives errorCode fun code =>
    ∀ literal ∈ code, ∃ value, IsNumeral literal value := by
  refine (gives_accept _).bind fun coded _ => ?_
  split
  · exact gives_number.bind fun result numeral => gives_pure (by simpa using ⟨_, numeral⟩)
  · exact gives_pure (by simp)

/-- A statement that returns is proper. -/
theorem gives_returned (fuel : Nat) : Gives (returned fuel) Stmt.Proper := by
  refine (gives_eat _).bind fun _ _ => (gives_expressions fuel).bind fun values given => ?_
  refine gives_errorCode.bind fun code known => gives_pure ?_
  exact Stmt.proper_ret.2 ⟨⟨given.1, known⟩, given.2⟩

section Statements

variable {statement : Parse Cursor Stmt} (each : Gives statement Stmt.Proper)
include each

/-- The empty statement is not kept. -/
theorem gives_statements (fuel : Nat) : Gives (statements statement fuel) Stmt.AllProper := by
  have kept {first : Stmt} {rest : List Stmt} (proper : first.Proper) (others : Stmt.AllProper rest) :
      Stmt.AllProper (keep first rest) := by
    unfold keep
    split
    · exact others
    · rename_i more
      exact Stmt.allProper_cons.2 ⟨⟨Bool.eq_false_iff.2 more, proper⟩, others⟩
  induction fuel with
  | zero => exact gives_exhausted
  | succ fuel ih =>
    refine each.bind fun first proper => (gives_accept _).bind fun more _ => ?_
    split
    · exact ih.bind fun rest others => gives_pure (kept proper others)
    · exact gives_pure (kept proper (by simp [Stmt.AllProper]))

/-- The statements of a block are proper. -/
theorem gives_braced (fuel : Nat) : Gives (braced statement fuel) Stmt.AllProper := by
  refine (gives_eat _).bind fun _ _ => (gives_statements each fuel).bind fun body proper => ?_
  exact (gives_eat _).bind fun _ _ => gives_pure proper

/-- A branch that is read is proper. -/
theorem gives_branch (fuel : Nat) : Gives (branch statement fuel) Stmt.Proper := by
  have first : Gives (branch.first statement fuel) Stmt.Proper := by
    refine (gives_sees _).bind fun opens _ => ?_
    split
    · exact (gives_braced each fuel).bind fun body proper => gives_pure (by simpa using proper)
    · exact (gives_eat _).bind fun _ _ => each
  have second : Gives (branch.second statement) fun arm => ∀ stmt ∈ arm, stmt.Proper := by
    refine (gives_accept _).bind fun more _ => ?_
    split
    · exact each.bind fun arm proper => gives_pure (by simpa using proper)
    · exact gives_pure (by simp)
  refine (gives_eat _).bind fun _ _ => ?_
  refine (gives_condition (gives_expression fuel)).bind fun test proper => ?_
  refine first.bind fun thenArm proper' => second.bind fun elseArm proper'' => gives_pure ?_
  exact Stmt.proper_branch.2 ⟨proper, proper', proper''⟩

/-- A function that is read is proper. -/
theorem gives_definition (fuel : Nat) : Gives (definition statement fuel) Stmt.Proper := by
  have results : Gives (definition.results fuel) fun names => ∀ name ∈ names, name.Proper := by
    refine (gives_sees _).bind fun opens _ => ?_
    split
    · exact gives_parameters fuel
    · exact gives_pure (by simp)
  refine (gives_eat _).bind fun _ _ => (gives_name fuel).bind fun title proper => ?_
  refine (gives_parameters fuel).bind fun params given => results.bind fun returns given' => ?_
  refine (gives_braced each fuel).bind fun body proper' => gives_pure ?_
  exact Stmt.proper_func.2 ⟨proper, List.forall_mem_append.2 ⟨given, given'⟩, proper'⟩

end Statements

/-- A statement that is read is proper, by induction on the fuel. -/
theorem gives_statement (fuel : Nat) : Gives (statement fuel) Stmt.Proper := by
  induction fuel with
  | zero => exact gives_exhausted
  | succ fuel ih =>
    refine gives_kind.bind fun kind _ => ?_
    split
    · exact (gives_braced ih fuel).bind fun body proper => gives_pure (by simpa using proper)
    · exact gives_branch ih fuel
    · exact gives_definition ih fuel
    · exact gives_returned fuel
    · exact (gives_eat _).bind fun _ _ => gives_assignment fuel true
    · exact gives_named (fuel + 1)
    · exact gives_pure Stmt.proper_empty
    · exact gives_pure Stmt.proper_empty
    · exact gives_pure Stmt.proper_empty
    · exact gives_pure Stmt.proper_empty
    · exact (gives_expression (fuel + 1)).bind fun value proper => gives_pure (by simpa using proper)

/-- Skipping line breaks gives a value of which nothing is said. -/
theorem gives_skipLineBreaks (fuel : Nat) : Gives (skipLineBreaks fuel) fun _ => True := by
  induction fuel with
  | zero => exact gives_exhausted
  | succ fuel ih =>
    refine (gives_accept _).bind fun more _ => ?_
    split
    · exact ih
    · exact gives_pure trivial

/-- The paths of the imports are contents of strings. -/
theorem gives_imports (fuel : Nat) : Gives (imports fuel) fun paths =>
    ∀ path ∈ paths, Lexeme.IsContent path.toList := by
  induction fuel with
  | zero => exact gives_exhausted
  | succ fuel ih =>
    refine (gives_accept _).bind fun more _ => ?_
    split
    · refine (gives_eat _).bind fun path eaten => (gives_sees _).bind fun ends _ => ?_
      have content := eaten.1.isContent eaten.2
      split
      · exact gives_pure (List.forall_mem_singleton.2 content)
      · refine (gives_eat _).bind fun _ _ => ih.bind fun rest others => gives_pure ?_
        exact List.forall_mem_cons.2 ⟨content, others⟩
    · exact gives_pure (by simp)

/-- A program that is read has proper statements, and its paths are contents of strings. -/
theorem gives_program (fuel : Nat) : Gives (program fuel) fun program =>
    Stmt.AllProper program.body ∧ ∀ path ∈ program.imports, Lexeme.IsContent path.toList := by
  refine (gives_skipLineBreaks fuel).bind fun _ _ => (gives_imports fuel).bind fun paths content => ?_
  refine (gives_statements (gives_statement fuel) fuel).bind fun body proper => ?_
  exact (gives_eat _).bind fun _ _ => gives_pure ⟨proper, content⟩

end Parse

namespace Program

variable {text : String} {program : Program}

/-- A program that is parsed from a text has proper statements, and its paths are contents of
strings. -/
theorem gives_ofText (parsed : ofText text = .ok program) :
    Stmt.AllProper program.body ∧ ∀ path ∈ program.imports, Lexeme.IsContent path.toList := by
  unfold ofText ofSource at parsed
  split at parsed
  · rename_i token behind step
    have lexed : Feed.Lexed ⟨token, none, behind⟩ := ⟨Cursor.isLexed_of_next step, by simp⟩
    rcases ofFeed_eq_ok_or_error (⟨token, none, behind⟩ : Feed Cursor) with
      ⟨program', behind', outcome, result⟩ | ⟨error, behind', -, result⟩
    · rw [result] at parsed
      cases parsed
      exact (Parse.gives_program _ lexed outcome).1
    · rw [result] at parsed
      cases parsed
  · cases parsed

/-- The statements of a program that was read from a text are proper. -/
theorem allProper_of_ofText (parsed : ofText text = .ok program) : Stmt.AllProper program.body :=
  (gives_ofText parsed).1

/-- The paths that a program imports stood between quotes. -/
theorem isContent_of_ofText (parsed : ofText text = .ok program) :
    ∀ path ∈ program.imports, Lexeme.IsContent path.toList :=
  (gives_ofText parsed).2

end Program

end ScriptLang

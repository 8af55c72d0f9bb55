import ScriptLang.Proofs.Parser.Fronts

/-!
# What the parser reads is in the grammar

Each computation of the parser, whenever it gives a tree, has read a phrase of the grammar that stands
for the tree. A name that is read before the parser knows what it belongs to is a seed; the statement
for a seeded computation counts the tokens of the seed in.
-/

namespace ScriptLang

namespace Parse

open Grammar

variable {σ : Type} [TokenSource σ]

section Names

/-- Words behind a name are part of it if dots stand between. -/
theorem consumes_nameRest (fuel : Nat) {read : List Token} {name : Name} (known : IsName read name) :
    Consumes σ (nameRest fuel name) fun tokens full => IsName (read ++ tokens) full := by
  induction fuel generalizing read name with
  | zero => exact consumes_exhausted (begins_of_holds (by simpa using known))
  | succ fuel ih =>
    refine consumes_accept_then (by decide) (fun dot isDot => ?_) ?_
    · refine consumes_eat_then (by decide) fun word isWord => ?_
      refine (ih (.dotted known isDot isWord)).weaken fun rest full whole => ?_
      simpa using whole
    · exact consumes_pure (by simpa using known)

/-- A name is read from the tokens of a name. -/
theorem consumes_name (fuel : Nat) : Consumes σ (name fuel) IsName := by
  refine consumes_eat_then (by decide) fun word isWord => ?_
  exact consumes_nameRest fuel (.word isWord)

/-- Items with commas between them are what one item and one item in front of others are. -/
theorem consumes_commaSeparated {α : Type} {item : Parse σ α}
    {property : List Token → α → Prop} {listed : List Token → List α → Prop}
    (items : Consumes σ item property)
    (one : ∀ {tokens value}, property tokens value → listed tokens [value])
    (more : ∀ {tokens value comma tokens' values}, property tokens value →
      comma.kind = .mark .comma → listed tokens' values →
        listed (tokens ++ comma :: tokens') (value :: values)) (fuel : Nat) :
    Consumes σ (commaSeparated item fuel) listed := by
  induction fuel with
  | zero =>
    obtain ⟨tokens, value, sound, known⟩ := items.begins
    exact consumes_exhausted ⟨tokens, [value], sound, one known⟩
  | succ fuel ih =>
    refine items.bind fun tokens first known => ?_
    refine consumes_accept_then (by decide) (fun comma isComma => ?_) ?_
    · refine ih.bind fun tokens' rest others => consumes_pure ?_
      simpa using more known isComma others
    · exact consumes_pure (by simpa using one known)

/-- Names are read from names with commas between them. -/
theorem consumes_names (fuel : Nat) : Consumes σ (commaSeparated (name fuel) fuel) IsNames :=
  consumes_commaSeparated (consumes_name fuel) .one .more fuel

/-- Parameters are read from the tokens of parameters. -/
theorem consumes_parameters (fuel : Nat) : Consumes σ (parameters fuel) IsParams := by
  refine consumes_eat_then (by decide) fun opening opens => ?_
  have listed : Consumes σ (parameters.listed fuel) fun tokens names =>
      tokens = [] ∧ names = [] ∨ IsNames tokens names := by
    refine consumes_sees_then fun seen => ?_
    split
    · exact consumes_pure (.inl ⟨rfl, rfl⟩)
    · exact (consumes_names fuel).weaken fun _ _ => .inr
  refine listed.bind fun tokens names known => ?_
  refine consumes_eat_then (by decide) fun closing closes => ?_
  apply consumes_pure
  rcases known with ⟨rfl, rfl⟩ | known
  · exact .none opens closes
  · simpa using IsParams.some opens known closes

end Names

/-- A number that has a value is read. One that has none is refused, and if the source fails behind it
then this is reported in its place: a number is eaten before it is looked up. -/
theorem consumes_number : Consumes σ number fun tokens result => ∃ token, tokens = [token] ∧
    token.kind = .number ∧ Numeral.value? token.text = some result.2 ∧ result.1 = token.text := by
  have zero : Numeral.value? "0" = some 0 := by decide
  have begins : Begins (fun tokens (result : String × Word) => ∃ token, tokens = [token] ∧
      token.kind = .number ∧ Numeral.value? token.text = some result.2 ∧ result.1 = token.text) [] :=
    ⟨[.sample .number], ("0", 0), by simpa using Token.sound_sample (by decide), _, rfl, rfl, zero,
      rfl⟩
  refine ⟨fun feed => ?_, begins⟩
  by_cases seen : feed.current.kind = .number
  · cases denotes : Numeral.value? feed.current.text with
    | some value =>
      have sound : feed.current.Sound := ⟨by simp [seen], fun _ => by simp [denotes]⟩
      have here : Accounts (fun tokens token => tokens = [token] ∧ token = feed.current)
          feed.prospect (eat .number feed) := by
        simp only [eat, seen, if_true]
        exact accounts_advance sound ⟨rfl, rfl⟩
      apply here.bind
      rintro tokens token ⟨rfl, rfl⟩
      rw [denotes]
      exact consumes_pure ⟨feed.current, rfl, seen, denotes, rfl⟩
    | none =>
      simp only [number, Bind.bind, EStateM.bind, eat, seen, if_true]
      cases outcome : advance feed with
      | ok token behind =>
        obtain ⟨rfl, -⟩ := prospect_of_advance outcome
        simp only [denotes]
        exact refuses_of_blames (.number feed.ahead seen denotes) begins
      | error stop behind =>
        obtain ⟨error, rfl, gives⟩ := prospect_of_advance_error outcome
        rw [gives, Prospect.cons_of_ne_eof (by simp [seen])]
        exact refuses_of_blames (.masked error seen denotes) begins
  · simp only [number, Bind.bind, EStateM.bind, eat, seen, if_false]
    exact refuses_of_blames (.unexpected .number feed.current feed.ahead) begins

section Operators

/-- Operators of a level with operands of the level below are a tail of the level. -/
theorem consumes_leftAssociated {operand : Parse σ Expr} {level : Nat}
    (operands : Consumes σ operand (Derives (.op level))) (count : Nat) (left : Expr) :
    Consumes σ (leftAssociated (operatorsAt (level + 1)) operand count left) fun tokens tree =>
      ∃ rest, Derives (.tail (level + 1)) tokens rest ∧ tree = rest left := by
  induction count generalizing left with
  | zero => exact consumes_exhausted (begins_of_holds ⟨id, .alone, rfl⟩)
  | succ count ih =>
    refine consumes_take_then ⟨rfl, rfl⟩ (fun token combine joins => ?_) ?_
    · refine operands.bind fun tokens right known => ?_
      refine (ih (combine left right)).weaken fun tokens' tree behind => ?_
      obtain ⟨rest, others, rfl⟩ := behind
      exact ⟨_, .joined (operatorsAt_eq_some_iff.mp joins) known others, rfl⟩
    · exact consumes_pure ⟨id, .alone, rfl⟩

/-- An operand of a level with a tail of the next is an expression of the next. -/
theorem consumes_chain {first operand : Parse σ Expr} {level : Nat} (read : List Token)
    (here : Consumes σ first fun tokens tree => Derives (.op level) (read ++ tokens) tree)
    (operands : Consumes σ operand (Derives (.op level))) (fuel : Nat) :
    Consumes σ (first >>= leftAssociated (operatorsAt (level + 1)) operand fuel) fun tokens tree =>
      Derives (.op (level + 1)) (read ++ tokens) tree := by
  refine here.bind fun tokens left known => ?_
  apply (consumes_leftAssociated operands fuel left).weaken
  rintro tokens' _ ⟨rest, others, rfl⟩
  rw [← List.append_assoc]
  exact .level known others

/-- A factor is an expression of every level. -/
theorem derives_op_of_factor {tokens : List Token} {tree : Expr} (known : Derives .factor tokens tree)
    (level : Nat) : Derives (.op level) tokens tree := by
  induction level with
  | zero => exact .operand known
  | succ level ih => simpa using Derives.level ih .alone

/-- A seed is the name that the tokens in front of the feed are. -/
inductive IsSeed : List Token → Option Name → Prop where
  | none : IsSeed [] none
  | some {tokens : List Token} {name : Name} : IsName tokens name → IsSeed tokens (some name)

/-- A name is an operand, be it the seed or not. -/
theorem IsSeed.begins_operand {read : List Token} {seed : Option Name} (known : IsSeed read seed) :
    Begins (fun tokens tree => Derives (.op 0) (read ++ tokens) tree) [] := by
  cases known with
  | none =>
    exact ⟨[.sample .identifier], .variable "0", by simpa using Token.sound_sample (by decide),
      .operand (.named (.word rfl))⟩
  | some known => exact begins_of_holds (by simpa using Derives.operand (.named known))

/-- Operands are joined to an expression of the level, be the name in front read already or not. -/
theorem consumes_joined {fuel : Nat} (operands : ∀ {read seed}, IsSeed read seed →
      Consumes σ (operand fuel seed) fun tokens tree => Derives (.op 0) (read ++ tokens) tree)
    (level : Nat) {read : List Token} {seed : Option Name} (known : IsSeed read seed) :
    Consumes σ (joined (operand fuel) fuel (levelsUpTo level) seed) fun tokens tree =>
      Derives (.op level) (read ++ tokens) tree := by
  induction level generalizing read seed with
  | zero => exact operands known
  | succ level ih => exact consumes_chain read (ih known) (ih .none) fuel

end Operators

section Conditions

variable {fuel : Nat}

/-- A condition behind any number of `not` is read from the level of `not`. -/
theorem consumes_negation {expression : Parse σ Expr}
    (expressions : Consumes σ expression (Derives (.op 7))) (count : Nat) :
    Consumes σ (negation expression count) (Derives (.op 8)) := by
  have alone {tokens : List Token} {tree : Expr} (known : Derives (.op 7) tokens tree) :
      Derives (.op 8) tokens tree := by
    simpa using Derives.level known .alone
  induction count with
  | zero => exact consumes_exhausted (expressions.begins.weaken fun _ _ => alone)
  | succ count ih =>
    refine consumes_accept_then (by decide) (fun token isNot => ?_) ?_
    · refine ih.bind fun tokens inner known => consumes_pure ?_
      simpa using Derives.negated isNot known
    · exact expressions.weaken fun _ _ => alone

/-- A condition is read from the loosest level. -/
theorem consumes_condition (expressions : Consumes σ (expression fuel) (Derives (.op 7))) :
    Consumes σ (condition (expression fuel) fuel) (Derives (.op 10)) := by
  have negations : Consumes σ (ofLevel fuel fuel 8) (Derives (.op 8)) :=
    consumes_negation expressions fuel
  have conjunctions : Consumes σ (ofLevel fuel fuel 9) (Derives (.op 9)) := by
    rw [ofLevel_succ (by decide) (by decide)]
    exact consumes_chain [] negations negations fuel
  change Consumes σ (ofLevel fuel fuel 10) (Derives (.op 10))
  rw [ofLevel_succ (by decide) (by decide)]
  exact consumes_chain [] conjunctions conjunctions fuel

/-- A list of expressions is read from expressions with commas between them. -/
theorem consumes_expressions (expressions : Consumes σ (expression fuel) (Derives (.op 7)))
    (count : Nat) : Consumes σ (commaSeparated (expression fuel) count) (Derives .exprs) :=
  consumes_commaSeparated expressions .oneExpr .moreExprs count

/-- A name that was read and the arguments behind it, if there are any, are an operand without
operators. -/
theorem consumes_callOrVariable (expressions : Consumes σ (expression fuel) (Derives (.op 7)))
    {read : List Token} {name : Name} (known : IsName read name) :
    Consumes σ (callOrVariable (expression fuel) fuel name) fun tokens tree =>
      Derives .factor (read ++ tokens) tree := by
  refine consumes_accept_then (by decide) (fun opening opens => ?_) ?_
  · have listed : Consumes σ (callOrVariable.arguments (expression fuel) fuel) fun tokens trees =>
        tokens = [] ∧ trees = [] ∨ Derives .exprs tokens trees := by
      refine consumes_sees_then fun seen => ?_
      split
      · exact consumes_pure (.inl ⟨rfl, rfl⟩)
      · exact (consumes_expressions expressions fuel).weaken fun _ _ => .inr
    refine listed.bind fun tokens trees args => ?_
    refine consumes_eat_then (by decide) fun closing closes => ?_
    apply consumes_pure
    rcases args with ⟨rfl, rfl⟩ | args
    · exact .call known (.noArgs opens closes)
    · simpa using Derives.call known (.someArgs opens args closes)
  · exact consumes_pure (by simpa using Derives.named known)

/-- An operand without operators is read from a factor of the grammar. -/
theorem consumes_factor (expressions : Consumes σ (expression fuel) (Derives (.op 7))) :
    Consumes σ (factor (expression fuel) fuel) (Derives .factor) := by
  refine consumes_kind_then fun kind => ?_
  split
  · apply consumes_number.bind
    rintro _ ⟨literal, value⟩ ⟨token, rfl, isNumber, denotes, rfl⟩
    exact consumes_pure (.number isNumber denotes)
  · refine consumes_eat_then (by decide) fun token isString => ?_
    exact consumes_pure (.string isString)
  · refine consumes_eat_then (by decide) fun opening opens => ?_
    refine (consumes_condition expressions).bind fun tokens inner known => ?_
    refine consumes_eat_then (by decide) fun closing closes => ?_
    exact consumes_pure (by simpa using Derives.parens opens known closes)
  · exact (consumes_name fuel).bind fun tokens name known =>
      consumes_callOrVariable expressions known

end Conditions

/-- An operand is read from the level without operators between operands, by induction on the
fuel. -/
theorem consumes_operand (fuel : Nat) {read : List Token} {seed : Option Name}
    (known : IsSeed read seed) :
    Consumes σ (operand fuel seed) fun tokens tree => Derives (.op 0) (read ++ tokens) tree := by
  induction fuel generalizing read seed with
  | zero => exact consumes_exhausted known.begins_operand
  | succ fuel ih =>
    have expressions : Consumes σ (expression fuel) (Derives (.op 7)) := by
      rw [expression, seededExpression, levels_eq]
      exact consumes_joined ih 7 .none
    cases known with
    | some known =>
      exact (consumes_callOrVariable expressions known).weaken fun _ _ => .operand
    | none =>
      refine consumes_take_then ⟨rfl, rfl⟩ (fun token op stands => ?_) ?_
      · refine (ih .none).bind fun tokens inner known => consumes_pure ?_
        simpa using Derives.prefixed (unaryOp?_eq_some_iff.mp stands) known
      · exact (consumes_factor expressions).weaken fun _ _ => .operand

/-- An expression behind the tokens of a seed is an expression with them. -/
theorem consumes_seededExpression (fuel : Nat) {read : List Token} {seed : Option Name}
    (known : IsSeed read seed) :
    Consumes σ (seededExpression fuel seed) fun tokens tree => Derives (.op 7) (read ++ tokens) tree := by
  rw [seededExpression, levels_eq]
  exact consumes_joined (consumes_operand fuel) 7 known

/-- An expression is read from the level of expressions. -/
theorem consumes_expression (fuel : Nat) : Consumes σ (expression fuel) (Derives (.op 7)) :=
  consumes_seededExpression fuel .none

section Assignments

/-- The targets of an assignment are the first one with the others. -/
theorem consumes_moreTargets (fuel : Nat) {read : List Token} {first : Name}
    (known : IsName read first) :
    Consumes σ (moreTargets fuel) fun tokens more => IsNames (read ++ tokens) (first :: more) := by
  refine consumes_accept_then (by decide) (fun comma isComma => ?_) ?_
  · exact (consumes_names fuel).weaken fun tokens names others => .more known isComma others
  · exact consumes_pure (by simpa using IsNames.one known)

/-- A declaration assigns plainly. -/
theorem consumes_operator (declares : Bool) :
    Consumes σ (assignmentTo.operator declares) fun tokens op =>
      ∃ token, tokens = [token] ∧ Assigns token.kind op ∧
        (declares → token.kind = .mark .assign ∧ op = .set) := by
  have plain {declares : Bool} : Consumes σ (do let _ ← eat (.mark .assign); return .set)
      fun tokens op => ∃ token, tokens = [token] ∧ Assigns token.kind op ∧
        (declares → token.kind = .mark .assign ∧ op = .set) := by
    refine consumes_eat_then (by decide) fun token isAssign => ?_
    exact consumes_pure ⟨token, rfl, isAssign ▸ .set, fun _ => ⟨isAssign, rfl⟩⟩
  cases declares with
  | true => exact plain
  | false =>
    refine consumes_take_then ⟨rfl, rfl⟩ (fun token op compound => ?_) plain
    exact consumes_pure ⟨token, rfl, assigns_of_compoundOp? compound, nofun⟩

/-- An assignment behind its first target, with the tokens of the target. -/
theorem consumes_assignmentTo (fuel : Nat) (declares : Bool) {read : List Token} {first : Name}
    (known : IsName read first) :
    Consumes σ (assignmentTo fuel declares first) fun tokens stmt =>
      ∃ left sign right targets op values, read ++ tokens = left ++ sign :: right ∧
        IsNames left targets ∧ Assigns sign.kind op ∧
        (declares → sign.kind = .mark .assign ∧ op = .set) ∧ Derives .exprs right values ∧
        stmt = .assign declares targets op values := by
  refine (consumes_moreTargets fuel known).bind fun tokens more targets => ?_
  apply (consumes_operator declares).bind
  rintro _ op ⟨sign, rfl, assigns, plain⟩
  refine (consumes_expressions (consumes_expression fuel) fuel).bind fun tokens' values given => ?_
  exact consumes_pure ⟨_, sign, tokens', _, op, values, by simp, targets, assigns, plain, given, rfl⟩

/-- An assignment is read from its first target, which was read already, and what stands behind
it. -/
theorem consumes_assigned (fuel : Nat) {read : List Token} {first : Name}
    (known : IsName read first) :
    Consumes σ (assignmentTo fuel false first) fun tokens stmt =>
      Derives .stmt (read ++ tokens) stmt := by
  apply (consumes_assignmentTo fuel false known).weaken
  rintro tokens _ ⟨left, sign, right, targets, op, values, split, names, assigns, -, given, rfl⟩
  rw [split]
  exact .assign names assigns given

/-- A declaration is read from the word that declares and what stands behind it. -/
theorem consumes_declared (fuel : Nat) {token : Token} (declares : token.kind = .keyword .var) :
    Consumes σ (assignment fuel true) fun tokens stmt => Derives .stmt (token :: tokens) stmt := by
  refine (consumes_name fuel).bind fun read first known => ?_
  apply (consumes_assignmentTo fuel true known).weaken
  rintro tokens _ ⟨left, sign, right, targets, op, values, split, names, -, plain, given, rfl⟩
  obtain ⟨isAssign, rfl⟩ := plain rfl
  rw [split]
  exact .declare declares names isAssign given

/-- A statement that starts with a name is one however far the name is read first. -/
theorem accounts_named (fuel : Nat) {feed : Feed σ} (isName : feed.current.kind = .identifier) :
    Accounts (Derives .stmt) feed.prospect (named fuel feed) := by
  have alone : Derives .stmt [feed.current] (.expr (.variable feed.current.text)) :=
    .expr (derives_op_of_factor (.named (.word isName)) 7)
  refine accounts_peek_then (sound_of_kind isName (by decide)) (begins_of_holds alone) fun next => ?_
  split
  · exact (consumes_name fuel).bind fun read first known => consumes_assigned fuel known
  · split
    · refine (consumes_name fuel).bind fun read first known => ?_
      refine consumes_kind_then fun behind => ?_
      split
      · simpa using consumes_assigned fuel known
      · refine (consumes_seededExpression fuel (.some known)).bind fun tokens value whole => ?_
        exact consumes_pure (by simpa using Derives.expr whole)
    · refine (consumes_expression fuel).bind fun tokens value whole => ?_
      exact consumes_pure (by simpa using Derives.expr whole)

end Assignments

/-- An error code is read from its colon and number, or from nothing. -/
theorem consumes_errorCode : Consumes σ errorCode IsCode := by
  refine consumes_accept_then (by decide) (fun colon isColon => ?_) ?_
  · apply consumes_number.bind
    rintro _ ⟨literal, value⟩ ⟨token, rfl, isNumber, -, rfl⟩
    exact consumes_pure (.some isColon isNumber)
  · exact consumes_pure .none

/-- A statement that returns is read from a statement of the grammar. -/
theorem consumes_returned (fuel : Nat) : Consumes σ (returned fuel) (Derives .stmt) := by
  refine consumes_eat_then (by decide) fun token returns => ?_
  refine (consumes_expressions (consumes_expression fuel) fuel).bind fun tokens values given => ?_
  refine consumes_errorCode.bind fun tokens' code known => consumes_pure ?_
  simpa using Derives.ret returns given known

section Statements

variable {statement : Parse σ Stmt} (each : Consumes σ statement (Derives .stmt))
include each

/-- The statements of a body are read from statements with line breaks between them. -/
theorem consumes_statements (fuel : Nat) :
    Consumes σ (statements statement fuel) (Derives .stmts) := by
  induction fuel with
  | zero => exact consumes_exhausted (begins_of_holds (.last .empty))
  | succ fuel ih =>
    refine each.bind fun tokens first known => ?_
    refine consumes_accept_then (by decide) (fun lineBreak isBreak => ?_) ?_
    · refine ih.bind fun tokens'' rest others => consumes_pure ?_
      rw [keep_eq_append]
      simpa using Derives.next known isBreak others
    · apply consumes_pure
      rw [keep_eq_append]
      simpa using Derives.last known

/-- A block is read from statements in braces. -/
theorem consumes_braced (fuel : Nat) : Consumes σ (braced statement fuel) (Derives .braced) := by
  refine consumes_eat_then (by decide) fun opening opens => ?_
  refine (consumes_statements each fuel).bind fun tokens body known => ?_
  refine consumes_eat_then (by decide) fun closing closes => ?_
  exact consumes_pure (by simpa using Derives.braced opens known closes)

/-- The first arm of a branch is read from a block or from `then` and a statement. -/
theorem consumes_first (fuel : Nat) : Consumes σ (branch.first statement fuel) (Derives .arm) := by
  refine consumes_sees_then fun seen => ?_
  split
  · refine (consumes_braced each fuel).bind fun tokens body known => ?_
    exact consumes_pure (by simpa using Derives.bracedArm known)
  · refine consumes_eat_then (by decide) fun token isThen => ?_
    exact each.weaken fun tokens arm known => .thenArm isThen known

/-- The second arm of a branch is read from `else` and a statement, or from nothing. -/
theorem consumes_second : Consumes σ (branch.second statement) (Derives .otherwise) := by
  refine consumes_accept_then (by decide) (fun token isElse => ?_) ?_
  · refine each.bind fun tokens arm known => consumes_pure ?_
    simpa using Derives.elseArm isElse known
  · exact consumes_pure .noElse

/-- A branch is read from a statement of the grammar. -/
theorem consumes_branch (fuel : Nat) : Consumes σ (branch statement fuel) (Derives .stmt) := by
  refine consumes_eat_then (by decide) fun token branches => ?_
  refine (consumes_condition (consumes_expression fuel)).bind fun tokens test known => ?_
  refine (consumes_first each fuel).bind fun tokens' thenArm first => ?_
  refine (consumes_second each).bind fun tokens'' elseArm second => consumes_pure ?_
  simpa using Derives.branch branches known first second

/-- A function is read from a statement of the grammar. -/
theorem consumes_definition (fuel : Nat) :
    Consumes σ (definition statement fuel) (Derives .stmt) := by
  refine consumes_eat_then (by decide) fun token defines => ?_
  have results : Consumes σ (definition.results fuel) IsResults := by
    refine consumes_sees_then fun seen => ?_
    split
    · exact (consumes_parameters fuel).weaken fun _ _ => .some
    · exact consumes_pure .none
  refine (consumes_name fuel).bind fun title name known => ?_
  refine (consumes_parameters fuel).bind fun takes params given => ?_
  refine results.bind fun gives returns given' => ?_
  refine (consumes_braced each fuel).bind fun block body derived => consumes_pure ?_
  simpa using Derives.func defines known given given' derived

end Statements

/-- A statement is read from one of the grammar, by induction on the fuel. -/
theorem consumes_statement (fuel : Nat) : Consumes σ (statement fuel) (Derives .stmt) := by
  induction fuel with
  | zero => exact consumes_exhausted (begins_of_holds .empty)
  | succ fuel ih =>
    refine ⟨fun feed => ?_, begins_of_holds .empty⟩
    have nothing : Consumes σ (pure .empty) (Derives .stmt) := consumes_pure .empty
    rw [statement]
    simp only [Bind.bind, EStateM.bind, kind]
    generalize known : feed.current.kind = seen
    split
    · refine ((consumes_braced ih fuel).accounts feed).bind fun tokens body known => ?_
      exact consumes_pure (by simpa using Derives.block known)
    · exact (consumes_branch ih fuel).accounts feed
    · exact (consumes_definition ih fuel).accounts feed
    · exact (consumes_returned fuel).accounts feed
    · have declared : Consumes σ (do let _ ← eat (.keyword .var); assignment fuel true)
          (Derives .stmt) :=
        consumes_eat_then (by decide) fun token declares => consumes_declared fuel declares
      exact declared.accounts feed
    · exact accounts_named (fuel + 1) known
    · exact nothing.accounts feed
    · exact nothing.accounts feed
    · exact nothing.accounts feed
    · exact nothing.accounts feed
    · refine ((consumes_expression (fuel + 1)).accounts feed).bind fun tokens value known => ?_
      exact consumes_pure (by simpa using Derives.expr known)

/-- Line breaks are skipped one by one. -/
theorem consumes_skipLineBreaks (fuel : Nat) : Consumes σ (skipLineBreaks fuel) fun tokens _ =>
    ∀ token ∈ tokens, token.kind = .lineBreak := by
  induction fuel with
  | zero => exact consumes_exhausted ⟨[], (), nofun, nofun⟩
  | succ fuel ih =>
    refine consumes_accept_then (by decide) (fun lineBreak isBreak => ?_) ?_
    · exact ih.weaken fun tokens _ breaks => List.forall_mem_cons.mpr ⟨isBreak, breaks⟩
    · exact consumes_pure nofun

/-- Imports, the last of which may lack its line break. -/
inductive IsFront : List Token → List String → Prop where
  | whole {tokens : List Token} {paths : List String} : IsImports tokens paths → IsFront tokens paths
  | endsInImport {tokens : List Token} {paths : List String} {use path : Token} :
      IsImports tokens paths → use.kind = .keyword .use → path.kind = .string →
        IsFront (tokens ++ [use, path]) (paths ++ [path.text])

section Imports

variable {breaks tokens : List Token} {paths : List String}

/-- One more import in front of imports makes more imports. -/
theorem IsFront.cons {use path lineBreak : Token} (known : IsFront tokens paths)
    (isUse : use.kind = .keyword .use) (isString : path.kind = .string)
    (isBreak : lineBreak.kind = .lineBreak) :
    IsFront (use :: path :: lineBreak :: tokens) (path.text :: paths) := by
  cases known with
  | whole known => exact .whole (.some isUse isString isBreak known)
  | endsInImport known isUse' isString' =>
    exact .endsInImport (.some isUse isString isBreak known) isUse' isString'

/-- Imports behind line breaks are a program. -/
theorem IsFront.isProgram (known : IsFront tokens paths)
    (areBreaks : ∀ token ∈ breaks, token.kind = .lineBreak) :
    IsProgram (breaks ++ tokens) ⟨paths, []⟩ := by
  have nothing : Derives .stmts [] [] := .last .empty
  cases known with
  | whole known => simpa using IsProgram.statements areBreaks known nothing
  | endsInImport known isUse isString => exact .endsInImport areBreaks known isUse isString

/-- The imports are read from imports of the grammar, the last of which may lack its line break. -/
theorem consumes_imports (fuel : Nat) : Consumes σ (imports fuel) IsFront := by
  have nothing : IsFront [] [] := .whole .none
  induction fuel with
  | zero => exact consumes_exhausted (begins_of_holds nothing)
  | succ fuel ih =>
    refine consumes_accept_then (by decide) (fun use isUse => ?_) (consumes_pure nothing)
    refine consumes_eat_then (by decide) fun path isString => consumes_sees_then fun last => ?_
    split
    · exact consumes_pure (.endsInImport .none isUse isString)
    · refine consumes_eat_then (by decide) fun lineBreak isBreak => ?_
      exact ih.bind fun tokens paths known =>
        consumes_pure (by simpa using known.cons isUse isString isBreak)

/-- Imports are read up to something else or up to the end of the input, where the line break behind
the last one may be missing. -/
theorem imports_eq_ok {fuel : Nat} {feed behind : Feed σ} (outcome : imports fuel feed = .ok paths behind) :
    ∃ tokens, feed.prospect = .behind tokens behind.prospect ∧ (∀ token ∈ tokens, token.Sound) ∧
      IsFront tokens paths ∧ (IsImports tokens paths ∨ behind.current.kind = .eof) := by
  induction fuel generalizing feed paths with
  | zero => cases outcome
  | succ fuel ih =>
    obtain ⟨found, accepted, accepts, outcome⟩ := exists_of_bind_eq_ok outcome
    obtain ⟨tokens, gives, sound, known⟩ := (consumes_accept (by decide)).gives accepts
    cases found with
    | false =>
      obtain ⟨rfl, rfl⟩ := of_pure_eq_ok outcome
      obtain rfl : tokens = [] := known
      exact ⟨[], gives, sound, .whole .none, .inl .none⟩
    | true =>
      obtain ⟨use, rfl, isUse⟩ := known
      obtain ⟨path, eaten, eats, outcome⟩ := exists_of_bind_eq_ok outcome
      obtain ⟨_, gives', sound', rfl, isString⟩ := (consumes_eat (by decide)).gives eats
      obtain ⟨ends, looked, sees, outcome⟩ := exists_of_bind_eq_ok outcome
      obtain ⟨atEnd, rfl⟩ := of_sees_eq_ok sees
      cases ends with
      | true =>
        obtain ⟨rfl, rfl⟩ := of_pure_eq_ok outcome
        refine ⟨[use, path], by simp [gives, gives'], ?_, .endsInImport .none isUse isString,
          .inr (by simpa using atEnd)⟩
        simpa using And.intro (sound use (by simp)) (sound' path (by simp))
      | false =>
        obtain ⟨lineBreak, eaten', eats', outcome⟩ := exists_of_bind_eq_ok outcome
        obtain ⟨_, gives'', sound'', rfl, isBreak⟩ := (consumes_eat (by decide)).gives eats'
        obtain ⟨rest, behind', others, outcome⟩ := exists_of_bind_eq_ok outcome
        obtain ⟨rfl, rfl⟩ := of_pure_eq_ok outcome
        obtain ⟨tokens, left, soundRest, known, ends⟩ := ih others
        refine ⟨use :: path :: lineBreak :: tokens, by simp [gives, gives', gives'', left], ?_,
          known.cons isUse isString isBreak, ends.imp_left (.some isUse isString isBreak)⟩
        simp only [List.forall_mem_singleton, List.forall_mem_cons] at sound sound' sound'' ⊢
        exact ⟨sound, sound', sound'', soundRest⟩

end Imports

section Programs

variable {feed behind : Feed σ} {fuel : Nat}

/-- At the end of the input there is nothing in front. -/
theorem tokens_of_eof (last : feed.current.kind = .eof) : feed.prospect.tokens = [] := by
  simp [Feed.prospect, Prospect.cons, last]

/-- The imports and the statements behind them are a program with line breaks in front. -/
theorem accounts_imports_then (fuel : Nat) {breaks : List Token}
    (areBreaks : ∀ token ∈ breaks, token.kind = .lineBreak) (feed : Feed σ) :
    Accounts (fun tokens program => IsProgram (breaks ++ tokens) program) feed.prospect
      ((do
        let paths ← imports fuel
        let body ← statements (statement fuel) fuel
        return ⟨paths, body⟩ : Parse σ Program) feed) := by
  simp only [Bind.bind, EStateM.bind]
  cases outcome : imports fuel feed with
  | error stop behind =>
    cases stop with
    | fault error =>
      apply ((consumes_imports fuel).refuses outcome).complete
      exact fun tokens paths known => begins_of_holds (known.isProgram areBreaks)
    | outOfFuel => trivial
  | ok paths middle =>
    obtain ⟨tokens, gives, sound, front, known⟩ := imports_eq_ok outcome
    have body := (consumes_statements (consumes_statement fuel) fuel).accounts middle
    rw [gives]
    refine Accounts.behind ?_ sound
    rcases known with known | atEnd
    · exact body.bind fun tokens' body derived =>
        consumes_pure (by simpa using IsProgram.statements areBreaks known derived)
    · -- behind the last import there is nothing, so there are no statements
      have nothing : Accounts (fun tokens body => tokens = [] ∧ body = []) middle.prospect
          (statements (statement fuel) fuel middle) :=
        body.of_nil (tokens_of_eof atEnd) (begins_of_holds ⟨rfl, rfl⟩)
          fun body derived => ⟨rfl, derived.eq_nil⟩
      apply nothing.bind
      rintro _ _ ⟨rfl, rfl⟩
      exact consumes_pure (by simpa using front.isProgram areBreaks)

/-- Up to the end of the input a program is read. -/
theorem consumes_contents (fuel : Nat) : Consumes σ (contents fuel) IsProgram := by
  refine (consumes_skipLineBreaks fuel).bind fun breaks _ areBreaks => ⟨?_, ?_⟩
  · exact accounts_imports_then fuel areBreaks
  · exact begins_of_holds (IsFront.isProgram (.whole .none) areBreaks)

/-- A program that the parser gives is one that the tokens are, each of which is sound. -/
theorem isProgram_of_program {result : Program} (outcome : program fuel feed = .ok result behind) :
    IsProgram feed.prospect.tokens result ∧ ∀ token ∈ feed.prospect.tokens, token.Sound := by
  rw [program_eq] at outcome
  obtain ⟨program, middle, reads, outcome⟩ := exists_of_bind_eq_ok outcome
  obtain ⟨eof, ended, eats, outcome⟩ := exists_of_bind_eq_ok outcome
  obtain ⟨rfl, -⟩ := of_pure_eq_ok outcome
  obtain ⟨rfl, isEof, -⟩ := prospect_of_eat eats
  obtain ⟨tokens, gives, sound, known⟩ := (consumes_contents fuel).gives reads
  have whole : feed.prospect.tokens = tokens := by
    simp [gives, Prospect.behind, tokens_of_eof isEof]
  rw [whole]
  exact ⟨known, sound⟩

end Programs

end Parse

end ScriptLang

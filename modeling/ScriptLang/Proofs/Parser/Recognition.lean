import ScriptLang.Proofs.Parser.Elses
import ScriptLang.Proofs.Parser.Soundness
import ScriptLang.Proofs.Parser.Sources
import ScriptLang.Proofs.Parser.Statements

/-!
# The parser recognises the grammar

A list of tokens is accepted exactly if it is a program of the grammar, and the tree is the one in
which each `else` belongs to the nearest `if` that is open. What the parser gives is in the grammar; for
what is in the grammar the tree with the elses at the nearest `if` is in the grammar too, and that is
what the parser gives.
-/

namespace ScriptLang

namespace Grammar

/-- Statements behind a line break are statements with it. -/
theorem Derives.of_lineBreak {token : Token} {tokens : List Token} {body : List Stmt}
    (derived : Derives .stmts (token :: tokens) body) (isBreak : token.kind = .lineBreak) :
    Derives .stmts tokens body := by
  generalize whole : token :: tokens = all at derived
  have front : Token.frontKind all ∉ stmtFronts := by
    rw [← whole, Token.frontKind_cons, isBreak]
    decide
  cases derived with
  | last derived =>
    rcases derived.fronts with starts | ⟨rfl, -⟩
    · exact absurd starts front
    · cases whole
  | next derived _ others =>
    rcases derived.fronts with starts | ⟨rfl, rfl⟩
    · exact absurd (frontKind_append_mem starts (by decide) _) front
    · obtain ⟨rfl, rfl⟩ := List.cons.inj whole
      exact others

/-- Statements start with line breaks and go on with something else. -/
theorem Derives.exists_breaks {tokens : List Token} {body : List Stmt}
    (derived : Derives .stmts tokens body) : ∃ breaks after, tokens = breaks ++ after ∧
      (∀ token ∈ breaks, token.kind = .lineBreak) ∧ Token.frontKind after ≠ .lineBreak ∧
        Derives .stmts after body := by
  induction tokens with
  | nil => exact ⟨[], [], rfl, nofun, nofun, derived⟩
  | cons token tokens ih =>
    by_cases isBreak : token.kind = .lineBreak
    · obtain ⟨breaks, after, rfl, areBreaks, ends, derived⟩ := ih (derived.of_lineBreak isBreak)
      exact ⟨token :: breaks, after, rfl, List.forall_mem_cons.mpr ⟨isBreak, areBreaks⟩, ends, derived⟩
    · exact ⟨[], token :: tokens, rfl, nofun, isBreak, derived⟩

/-- The line breaks in front of a program are followed by its imports or by something that starts a
statement. -/
theorem Derives.exists_breaks_of_imports {breaks tokens tokens' : List Token} {paths : List String}
    {body : List Stmt} (derived : Derives .stmts tokens' body)
    (areBreaks : ∀ token ∈ breaks, token.kind = .lineBreak) (known : IsImports tokens paths) :
    ∃ breaks' after, breaks ++ (tokens ++ tokens') = breaks' ++ (tokens ++ after) ∧
      (∀ token ∈ breaks', token.kind = .lineBreak) ∧
        Token.frontKind (tokens ++ after) ≠ .lineBreak ∧ Derives .stmts after body := by
  cases known with
  | none =>
    obtain ⟨breaks', after, rfl, areBreaks', ends, derived⟩ := derived.exists_breaks
    refine ⟨breaks ++ breaks', after, by simp, fun token member => ?_, ends, derived⟩
    rcases List.mem_append.mp member with member | member
    · exact areBreaks token member
    · exact areBreaks' token member
  | some isUse => exact ⟨breaks, tokens', rfl, areBreaks, by simp [isUse], derived⟩

/-- No statements start with an import. -/
theorem Derives.front_ne_use {tokens : List Token} {body : List Stmt}
    (derived : Derives .stmts tokens body) : Token.frontKind tokens ≠ .keyword .use := by
  rcases derived.fronts with starts | ⟨rfl, -⟩
  · exact ne_of_mem_of_not_mem starts (by decide)
  · decide

end Grammar

namespace Parse

open Grammar

variable {tokens middle rest : List Token}

/-- Line breaks are skipped up to the first token of another kind. -/
theorem yields_skipLineBreaks {breaks : List Token} (areBreaks : ∀ token ∈ breaks, token.kind = .lineBreak)
    (ends : Token.frontKind rest ≠ .lineBreak) (fuel : Nat) :
    Yields (skipLineBreaks fuel) (breaks ++ rest) () rest := by
  induction breaks generalizing fuel with
  | nil =>
    cases fuel with
    | zero => exact yields_exhausted
    | succ fuel => exact (yields_accept_other ends).bind (yields_pure _ _)
  | cons token breaks ih =>
    obtain ⟨isBreak, areBreaks⟩ := List.forall_mem_cons.mp areBreaks
    cases fuel with
    | zero => exact yields_exhausted
    | succ fuel => exact (yields_accept isBreak).bind (ih areBreaks fuel)

/-- Imports are read one after the other, and then what stands behind them. -/
theorem yields_imports {paths others : List String} (known : IsImports tokens paths)
    (there : ∀ fuel, Yields (imports fuel) middle others rest) (fuel : Nat) :
    Yields (imports fuel) (tokens ++ middle) (paths ++ others) rest := by
  induction known generalizing fuel with
  | none => exact there fuel
  | some isUse isString isBreak _ ih =>
    cases fuel with
    | zero => exact yields_exhausted
    | succ fuel =>
      simp only [List.cons_append]
      refine (yields_accept isUse).bind ((yields_eat isString).bind ((yields_sees _ _).bind ?_))
      rw [Token.frontKind_cons, isBreak]
      exact (yields_eat isBreak).bind ((ih fuel).bind (yields_pure _ _))

/-- In front of other tokens no imports are read. -/
theorem yields_noImports (other : Token.frontKind rest ≠ .keyword .use) (fuel : Nat) :
    Yields (imports fuel) rest [] rest := by
  cases fuel with
  | zero => exact yields_exhausted
  | succ fuel => exact (yields_accept_other other).bind (yields_pure _ _)

/-- The last import needs no line break. -/
theorem yields_lastImport {use path : Token} (isUse : use.kind = .keyword .use)
    (isString : path.kind = .string) (fuel : Nat) :
    Yields (imports fuel) [use, path] [path.text] [] := by
  cases fuel with
  | zero => exact yields_exhausted
  | succ fuel =>
    refine (yields_accept isUse).bind ((yields_eat isString).bind ((yields_sees _ _).bind ?_))
    exact yields_pure _ _

/-- The statements of a body are read whole if they end the input. -/
theorem yields_statements {body : List Stmt} (derived : Derives .stmts tokens body)
    (nearest : Stmt.AllElsesNearest body) (numbers : NumbersDenote tokens) (fuel count : Nat) :
    Yields (statements (statement fuel) count) tokens body [] := by
  have reads := readsStmt derived numbers nearest fuel [] (by decide) count
  rwa [List.append_nil] at reads

/-- The contents of a program are read whole, if in it each `else` belongs to the nearest `if`. -/
theorem yields_contents {result : Program} (known : IsProgram tokens result)
    (nearest : result.ElsesNearest) (numbers : NumbersDenote tokens) (fuel : Nat) :
    Yields (contents fuel) tokens result [] := by
  cases known with
  | @statements breaks tokens tokens' paths body areBreaks known derived =>
    obtain ⟨breaks, after, shape, areBreaks, ends, derived⟩ :=
      derived.exists_breaks_of_imports areBreaks known
    rw [shape] at numbers ⊢
    have numbers' : NumbersDenote after := numbers.mono (by grind)
    have uses := yields_imports known (yields_noImports derived.front_ne_use) fuel
    rw [List.append_nil] at uses
    exact (yields_skipLineBreaks areBreaks ends fuel).bind (uses.bind
      ((yields_statements derived nearest numbers' fuel fuel).bind (yields_pure _ _)))
  | @endsInImport breaks tokens paths use path areBreaks known isUse isString =>
    have ends : Token.frontKind (tokens ++ [use, path]) ≠ .lineBreak := by
      cases known with
      | none => simp [isUse]
      | some isUse => simp [isUse]
    have uses := yields_imports known (yields_lastImport isUse isString) fuel
    have nothing : Derives .stmts [] [] := .last .empty
    exact (yields_skipLineBreaks areBreaks ends fuel).bind (uses.bind
      ((yields_statements nothing trivial nofun fuel fuel).bind (yields_pure _ _)))

/-- At the end of the input the end is accepted. -/
theorem eat_eof_eq_ok {feed : Feed TokenList} (last : feed.upcoming = []) :
    ∃ token behind, eat .eof feed = .ok token behind := by
  obtain ⟨moved, outcome, -⟩ := advance_eq_ok feed
  have seen : feed.current.kind = .eof := by
    rw [feed.current_kind, last, Token.frontKind_nil]
  exact ⟨feed.current, moved, by simp [eat, seen, outcome]⟩

/-- The parser gives what the tokens stand for, unless its fuel is used up. -/
theorem program_eq_ok_or_outOfFuel {feed : Feed TokenList} {result : Program}
    (known : IsProgram feed.upcoming result) (nearest : result.ElsesNearest)
    (numbers : NumbersDenote feed.upcoming) (fuel : Nat) :
    (∃ behind, program fuel feed = .ok result behind) ∨
      ∃ behind, program fuel feed = .error .outOfFuel behind := by
  rw [program_eq]
  simp only [Bind.bind, EStateM.bind]
  rcases yields_contents known nearest numbers fuel rfl with ⟨middle, outcome, last⟩ | ⟨behind, outcome⟩
  · obtain ⟨token, behind, ends⟩ := eat_eof_eq_ok last
    rw [outcome]
    simp only [ends]
    exact .inl ⟨behind, rfl⟩
  · rw [outcome]
    exact .inr ⟨behind, rfl⟩

end Parse

namespace Program

open Grammar

/-- A list without an end token is what its feed gives. -/
theorem exists_feed {tokens : List Token} (noEnd : ∀ token ∈ tokens, token.kind ≠ .eof) :
    ∃ feed : Feed TokenList, ofTokens tokens = ofFeed feed ∧ feed.upcoming = tokens := by
  cases tokens with
  | nil =>
    exact ⟨⟨TokenList.endToken (TokenList.ofList []).last, none, TokenList.ofList []⟩, rfl, rfl⟩
  | cons token tokens =>
    obtain ⟨more, others⟩ := List.forall_mem_cons.mp noEnd
    refine ⟨⟨token, none, ⟨tokens, token.span⟩⟩, rfl, ?_⟩
    have whole : (tokens ++ []).takeWhile (·.kind ≠ Token.Kind.eof) = tokens ++ [] :=
      List.takeWhile_append_of_pos (by simpa using others)
    rw [Feed.upcoming_of_ne_eof more]
    simpa [Feed.behind] using whole

/-- A list of tokens is accepted exactly if it is a program, and then the parser gives the tree in which
each `else` belongs to the nearest `if` that is open. -/
theorem ofTokens_eq_ok_iff {tokens : List Token} (noEnd : ∀ token ∈ tokens, token.kind ≠ .eof)
    (numbers : ∀ token ∈ tokens, token.kind = .number → (Numeral.value? token.text).isSome) :
    (∀ program, ofTokens tokens = .ok program ↔
      IsProgram tokens program ∧ program.ElsesNearest) ∧
    ((∃ program, ofTokens tokens = .ok program) ↔ ∃ program, IsProgram tokens program) := by
  obtain ⟨feed, reads, gives⟩ := exists_feed noEnd
  have sound {program : Program} (outcome : ofTokens tokens = .ok program) :
      IsProgram tokens program := by
    rw [reads] at outcome
    rcases ofFeed_eq_ok_or_error feed with ⟨program', behind, runs, result⟩ | ⟨error, -, -, result⟩
    · rw [result] at outcome
      cases outcome
      rw [← gives, feed.upcoming_eq_prospect]
      exact (Parse.isProgram_of_program runs).1
    · rw [result] at outcome
      cases outcome
  have complete {program : Program} (known : IsProgram tokens program)
      (nearest : program.ElsesNearest) : ofTokens tokens = .ok program := by
    rw [reads]
    subst gives
    rcases Parse.program_eq_ok_or_outOfFuel known nearest numbers (feed.remaining + 1) with
      ⟨behind, runs⟩ | ⟨behind, runs⟩
    · rcases ofFeed_eq_ok_or_error feed with ⟨program', behind', runs', result⟩ |
        ⟨error, behind', runs', -⟩
      · rw [runs] at runs'
        cases runs'
        exact result
      · rw [runs] at runs'
        cases runs'
    · exact absurd runs (Parse.program_ne_outOfFuel feed behind)
  refine ⟨fun program => ⟨fun outcome => ?_, fun ⟨known, nearest⟩ => complete known nearest⟩,
    fun ⟨program, outcome⟩ => ⟨program, sound outcome⟩, fun ⟨program, known⟩ => ?_⟩
  · -- the tokens are a program with the elses at the nearest `if` too, and the parser gives only one
    obtain ⟨program', known, nearest⟩ := (sound outcome).exists_nearest
    have same := complete known nearest
    rw [outcome] at same
    cases same
    exact ⟨known, nearest⟩
  · obtain ⟨program', known, nearest⟩ := known.exists_nearest
    exact ⟨program', complete known nearest⟩

/-- Behind two branches an `else` belongs to the second. -/
theorem ofTokens_eq_ok_iff_nested_branches :
    let token (kind : Token.Kind) (text : String) : Token := ⟨kind, text, ⟨⟨0, 1, 0⟩, 0⟩⟩
    let tokens := [token (.keyword .cond) "if", token .identifier "a",
      token (.keyword .thenArm) "then", token (.keyword .cond) "if", token .identifier "b",
      token (.keyword .thenArm) "then", token (.keyword .ret) "return", token .number "1",
      token (.keyword .elseArm) "else", token .identifier "c"]
    let inner := Stmt.branch (.variable "b") (.ret [.number "1" 1] none)
      (some (.expr (.variable "c")))
    let program : Program := ⟨[], [.branch (.variable "a") inner none]⟩
    ofTokens tokens = .ok program ∧ IsProgram tokens program ∧ program.ElsesNearest := by
  intro token tokens inner program
  have accepted : ofTokens tokens = .ok program := by
    dsimp only [tokens, token]
    rfl
  have noEnd : ∀ token ∈ tokens, token.kind ≠ .eof := by simp [tokens, token]
  have numbers : ∀ token ∈ tokens, token.kind = .number →
      (Numeral.value? token.text).isSome := by
    have one : (Numeral.value? "1").isSome := by decide
    simp [tokens, token, one]
  exact ⟨accepted, ((ofTokens_eq_ok_iff noEnd numbers).1 program).mp accepted⟩

end Program

end ScriptLang

import ScriptLang.Proofs.Emit.Phrases
import ScriptLang.Proofs.Parser.Completeness
import ScriptLang.Proofs.Parser.Output

/-!
# Printed expressions are read back

The text of an expression is cut into tokens that the parser reads as one expression, up to the end.
This is the tree that was printed, but for the word `not` and the spelling of numbers.
-/

namespace ScriptLang

open Grammar

/-- The feed of a parser that is to read a list of tokens. -/
def Feed.ofTokens : List Token → Feed TokenList
  | [] => ⟨TokenList.endToken (TokenList.ofList []).last, none, TokenList.ofList []⟩
  | token :: rest => ⟨token, none, ⟨rest, token.span⟩⟩

/-- A program is read from the feed of its tokens. -/
theorem Program.ofTokens_eq_ofFeed (tokens : List Token) :
    ofTokens tokens = ofFeed (Feed.ofTokens tokens) := by
  cases tokens <;> rfl

/-- In front of the end token the feed gives the tokens of the list. -/
theorem Feed.upcoming_ofTokens {tokens : List Token} (noEnd : ∀ token ∈ tokens, token.kind ≠ .eof)
    {last : Token} (ends : last.kind = .eof) :
    (Feed.ofTokens (tokens ++ [last])).upcoming = tokens := by
  cases tokens with
  | nil => exact upcoming_eq_nil ends
  | cons token tokens =>
    obtain ⟨more, others⟩ := List.forall_mem_cons.1 noEnd
    have front : (tokens ++ [last]).takeWhile (·.kind ≠ Token.Kind.eof) = tokens := by
      rw [List.takeWhile_append_of_pos (by simpa using others)]
      simp [ends]
    rw [List.cons_append, ofTokens, upcoming_of_ne_eof more]
    exact congrArg (token :: ·) front

/-- The parser reads an expression up to the end, if its fuel is above the number of tokens. -/
theorem Parse.expression_eq_ok {feed : Feed TokenList} {tree : Expr}
    (derived : Derives (.op 7) feed.upcoming tree) {fuel : Nat} (enough : feed.remaining < fuel) :
    ∃ behind, expression fuel feed = .ok tree behind ∧ behind.current.kind = .eof := by
  have yields := readsExpr derived fuel fuel [] (by decide)
  rw [List.append_nil, ofLevel_seven] at yields
  rcases yields rfl with ⟨behind, outcome, left⟩ | ⟨behind, outcome⟩
  · exact ⟨behind, outcome, by rw [behind.current_kind, left, Token.frontKind_nil]⟩
  · have within := within_expression enough feed le_rfl
    rw [outcome] at within
    exact absurd rfl within

/-- An expression of a program that was read from a text can be printed with every table that knows
its names, unless it has a cast, takes the address of an address or, for Go, has a complement. The
text is cut into tokens that the parser reads as one expression up to the end, and the expression is
the printed one: only the word `not` has become a mark, and in C numbers that it cannot spell have
become decimal. -/
theorem Program.expression_eq_reread_of_emit {text : String} {program : Program}
    (read : ofText text = .ok program) {tree : Expr} (within : tree ∈ program.exprs)
    {dialect : Dialect} (readable : ∀ node ∈ tree.nodes, node.IsReadable dialect)
    {table : ScopeTable Nat}
    (declared : ∀ name ∈ tree.names, name.isDotted = false → (table.get? name).isSome) :
    ∃ printed tokens, Emit.expr dialect table tree = .ok printed ∧ tokenize printed = .ok tokens ∧
      ∀ fuel, (Feed.ofTokens tokens).remaining < fuel →
        ∃ behind, Parse.expression fuel (Feed.ofTokens tokens) = .ok (tree.reread dialect) behind ∧
          behind.current.kind = .eof := by
  have proper := proper_of_mem_exprs (allProper_of_ofText read) within
  obtain ⟨printed, shown⟩ := (Emit.expr_eq_ok_iff tree).2 fun name looked => by
    by_cases dotted : name.isDotted = true
    · exact .inl dotted
    · exact .inr (declared name (tree.looked_subset_names looked) (Bool.eq_false_iff.2 dotted))
  have cut := Emit.cutsInto_expr proper readable shown [] (by simp [EndsExpr])
  obtain ⟨tokens, last, collected, derived, noEnd, ends⟩ := exists_tokenize_eq_ok cut
  refine ⟨printed, _, shown, collected, fun fuel enough => Parse.expression_eq_ok ?_ enough⟩
  rw [Feed.upcoming_ofTokens noEnd ends]
  exact derived.lift (by decide)

/-- For C the words `not` and `and` become marks, and a binary number becomes decimal. -/
theorem Program.expression_eq_reread_of_emit_words :
    let tree : Expr :=
      .logic .and (.logicPrefix .not (.variable "a")) (.call "f" [.number "0b1" 1])
    let program : Program := ⟨[], [.branch tree (.expr (.variable "x")) none]⟩
    let table : ScopeTable Nat := ⟨[⟨none, [("f", .func 1), ("a", .variable 0)]⟩], 0⟩
    ofText "if not a and f(0b1) then x" = .ok program ∧ tree ∈ program.exprs ∧
      (∀ node ∈ tree.nodes, node.IsReadable .c) ∧
      (∀ name ∈ tree.names, name.isDotted = false → (table.get? name).isSome) ∧
      ∃ printed tokens, Emit.expr .c table tree = .ok printed ∧ tokenize printed = .ok tokens ∧
        ∀ fuel, (Feed.ofTokens tokens).remaining < fuel →
          ∃ behind, Parse.expression fuel (Feed.ofTokens tokens) =
              .ok (.logic .and (.unary .not (.variable "a")) (.call "f" [.number "1" 1])) behind ∧
            behind.current.kind = .eof := by
  intro tree program table
  have cut : tokenize "if not a and f(0b1) then x" = .ok
      [⟨.keyword .cond, "if", ⟨⟨0, 1, 0⟩, 2⟩⟩, ⟨.keyword .not, "not", ⟨⟨3, 1, 3⟩, 6⟩⟩,
        ⟨.identifier, "a", ⟨⟨7, 1, 7⟩, 8⟩⟩, ⟨.keyword .and, "and", ⟨⟨9, 1, 9⟩, 12⟩⟩,
        ⟨.identifier, "f", ⟨⟨13, 1, 13⟩, 14⟩⟩, ⟨.mark .openParen, "(", ⟨⟨14, 1, 14⟩, 15⟩⟩,
        ⟨.number, "0b1", ⟨⟨15, 1, 15⟩, 18⟩⟩, ⟨.mark .closeParen, ")", ⟨⟨18, 1, 18⟩, 19⟩⟩,
        ⟨.keyword .thenArm, "then", ⟨⟨20, 1, 20⟩, 24⟩⟩, ⟨.identifier, "x", ⟨⟨25, 1, 25⟩, 26⟩⟩,
        ⟨.eof, "EOF", ⟨⟨26, 1, 26⟩, 26⟩⟩] := by
    with_unfolding_all rfl
  have read : ofText "if not a and f(0b1) then x" = .ok program :=
    (ofText_eq_of_tokenize cut).trans rfl
  have within : tree ∈ program.exprs := List.mem_cons_self
  have readable : ∀ node ∈ tree.nodes, node.IsReadable .c := by
    simp [tree, Expr.nodes, Expr.allNodes, Expr.IsReadable]
  have declared : ∀ name ∈ tree.names, name.isDotted = false → (table.get? name).isSome := by
    decide
  exact ⟨read, within, readable, declared,
    expression_eq_reread_of_emit read within readable declared⟩

end ScriptLang

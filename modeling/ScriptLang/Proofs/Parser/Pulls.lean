import ScriptLang.Proofs.Parser.Keeping
import ScriptLang.Proofs.Parser.Sources

/-!
# The parser reads in one pass

A recorder hands the tokens of a source on and keeps a record of them. What a parser has pulled is
what it has moved over and what it holds. It moves over the end token only to end the program, and
it never looks behind one. So it pulls the tokens of a list in order, each once, and no more than two
behind those in front of the first end token: that token and, when the end of the program is eaten,
one more.
-/

namespace ScriptLang

/-- A source with a record of the tokens that were pulled from it. -/
structure Recorder (σ : Type) where
  source : σ
  pulled : List Token

/-- A recorder gives what its source gives. -/
instance {σ : Type} [TokenSource σ] : TokenSource (Recorder σ) where
  next recorder :=
    match TokenSource.next recorder.source with
    | (.ok token, behind) => (.ok token, ⟨behind, recorder.pulled ++ [token]⟩)
    | (.error error, behind) => (.error error, ⟨behind, recorder.pulled⟩)
  remaining recorder := TokenSource.remaining recorder.source
  remaining_next_le recorder := by
    have bound := TokenSource.remaining_next_le recorder.source
    split <;> simp_all
  remaining_next_lt {recorder behind token} step more := by
    split at step
    · rename_i token' source step'
      simp only [Prod.mk.injEq, Except.ok.injEq] at step
      obtain ⟨rfl, rfl⟩ := step
      exact TokenSource.remaining_next_lt step' more
    · simp at step

namespace Recorder

/-- A parser that has just been opened on a source, with a record of what it pulls. -/
def open? {σ : Type} [TokenSource σ] (source : σ) : Except LexError (Feed (Recorder σ)) :=
  match TokenSource.next (⟨source, []⟩ : Recorder σ) with
  | (.ok token, behind) => .ok ⟨token, none, behind⟩
  | (.error error, _) => .error error

end Recorder

namespace TokenList

/-- The extent of the token that a list gives last. -/
def lastSpan (tokens : List Token) : Span :=
  match tokens.getLast? with
  | some token => token.span
  | none => (ofList []).last

/-- The record of a list: its first tokens, or all of them and end tokens. -/
inductive Recorded (tokens : List Token) : Recorder TokenList → Prop
  | within {before rest : List Token} : tokens = before ++ rest →
      Recorded tokens ⟨⟨rest, lastSpan before⟩, before⟩
  | behind (count : Nat) : Recorded tokens ⟨⟨[], lastSpan tokens⟩,
      tokens ++ List.replicate count (endToken (lastSpan tokens))⟩

variable {tokens passed rest : List Token} {recorder : Recorder TokenList}

/-- A pull gives a token and puts it behind the others. -/
theorem Recorded.next (recorded : Recorded tokens recorder) :
    ∃ token behind, TokenSource.next recorder = (.ok token, behind) ∧ Recorded tokens behind ∧
      behind.pulled = recorder.pulled ++ [token] := by
  cases recorded with
  | @within before rest whole =>
    cases rest with
    | nil =>
      obtain rfl : tokens = before := by simpa using whole
      exact ⟨_, _, rfl, .behind 1, rfl⟩
    | cons token rest =>
      have moved : lastSpan (before ++ [token]) = token.span := by simp [lastSpan]
      refine ⟨token, ⟨⟨rest, token.span⟩, before ++ [token]⟩, rfl, ?_, rfl⟩
      rw [← moved]
      exact .within (by simp [whole])
  | behind count =>
    refine ⟨_, _, rfl, ?_, rfl⟩
    have longer := @Recorded.behind tokens (count + 1)
    rwa [List.replicate_succ', ← List.append_assoc] at longer

/-- Nothing is pulled but the tokens of the list, in order, and end tokens behind them. -/
theorem Recorded.exists_prefix (recorded : Recorded tokens recorder) :
    ∃ count, recorder.pulled <+: tokens ++ List.replicate count (endToken (lastSpan tokens)) := by
  cases recorded with
  | within whole => exact ⟨0, by simp [whole]⟩
  | behind count => exact ⟨count, List.prefix_rfl⟩

/-- A record that is not too long stands in front of the list and two end tokens. -/
theorem Recorded.prefix_of_length_le (recorded : Recorded tokens recorder)
    (short : recorder.pulled.length ≤ (tokens.takeWhile (·.kind ≠ .eof)).length + 2) :
    recorder.pulled <+: tokens ++ List.replicate 2 (endToken (lastSpan tokens)) := by
  have fewer := (List.takeWhile_prefix (l := tokens) (·.kind ≠ Token.Kind.eof)).length_le
  cases recorded with
  | @within before rest whole =>
    rw [whole, List.append_assoc]
    exact List.prefix_append _ _
  | behind count =>
    simp only [List.length_append, List.length_replicate] at short
    refine (List.prefix_append_right_inj _).mpr
      ⟨List.replicate (2 - count) (endToken (lastSpan tokens)), ?_⟩
    rw [List.replicate_append_replicate, Nat.add_sub_cancel' (by omega)]

/-- Of what a list gives, the same tokens stand in front of an end token as in the list. -/
theorem takeWhile_append_ends (tokens : List Token) (count : Nat) (last : Span) :
    (tokens ++ List.replicate count (endToken last)).takeWhile (·.kind ≠ .eof) =
      tokens.takeWhile (·.kind ≠ .eof) := by
  induction tokens with
  | nil => cases count <;> simp [List.replicate_succ, endToken]
  | cons token tokens ih =>
    by_cases more : token.kind = .eof
    · simp [more]
    · simpa [more] using ih

/-- What is pulled in front of the first end token stands in the list in front of it. -/
theorem Recorded.exists_takeWhile (recorded : Recorded tokens recorder)
    (pulled : recorder.pulled = passed ++ rest) (more : ∀ token ∈ passed, token.kind ≠ .eof) :
    ∃ behind, tokens.takeWhile (·.kind ≠ .eof) =
      passed ++ (rest ++ behind).takeWhile (·.kind ≠ .eof) := by
  obtain ⟨count, behind, whole⟩ := recorded.exists_prefix
  refine ⟨behind, ?_⟩
  rw [← takeWhile_append_ends tokens count (lastSpan tokens), ← whole, pulled, List.append_assoc]
  exact List.takeWhile_append_of_pos (by simpa using more)

/-- A list gives the same with and without a record. -/
theorem alike_recorder (list : TokenList) (pulled : List Token) :
    TokenSource.Alike Eq none (⟨list, pulled⟩ : Recorder TokenList) list := by
  have gives (list : TokenList) (pulled : List Token) :
      TokenSource.Gives (⟨list, pulled⟩ : Recorder TokenList) := by
    obtain ⟨_ | ⟨token, rest⟩, last⟩ := list <;> exact ⟨_, _, rfl⟩
  obtain ⟨tokens, last⟩ := list
  induction tokens generalizing last pulled with
  | nil => exact .ends rfl rfl (.refl _) rfl (gives _ _) (TokenList.gives _)
  | cons token rest ih =>
    by_cases more : token.kind = .eof
    · exact .ends rfl rfl (.refl token) more (gives _ _) (TokenList.gives _)
    · exact .token rfl rfl (.refl token) more (ih _ _)

end TokenList

namespace Feed

/-- What was pulled is what the parser has moved over, no end token among it, and what it holds. -/
def OnlyPassed (feed : Feed (Recorder TokenList)) : Prop :=
  ∃ passed, feed.source.pulled = passed ++ feed.current :: feed.peeked.toList ∧
    ∀ token ∈ passed, token.kind ≠ .eof

/-- The feed of a parser on a list with its record, up to the end of the program. -/
structure Reading (tokens : List Token) (feed : Feed (Recorder TokenList)) : Prop where
  recorded : TokenList.Recorded tokens feed.source
  onlyPassed : feed.OnlyPassed
  ahead : feed.current.kind = .eof → feed.peeked = none

variable {tokens : List Token} {feed : Feed (Recorder TokenList)}

/-- A parser that is opened on a list has pulled one token. -/
theorem exists_open (tokens : List Token) :
    ∃ feed, Recorder.open? (TokenList.ofList tokens) = .ok feed ∧ feed.Reading tokens ∧
      Program.ofTokens tokens = Program.ofFeed feed := by
  have fresh : TokenList.Recorded tokens ⟨TokenList.ofList tokens, []⟩ :=
    @TokenList.Recorded.within tokens [] tokens rfl
  obtain ⟨token, behind, step, recorded, pulled⟩ := fresh.next
  have same : Program.ofTokens tokens = _ :=
    (Program.ofSource_eq (TokenList.alike_recorder (TokenList.ofList tokens) [])).symm
  rw [Program.ofSource, step] at same
  exact ⟨⟨token, none, behind⟩, by simp [Recorder.open?, step],
    ⟨recorded, ⟨[], pulled, List.forall_mem_nil _⟩, fun _ => rfl⟩, same⟩

/-- In front of an end token the parser may move on and look ahead. -/
theorem movable_reading (tokens : List Token) : Parse.Movable (Reading tokens) where
  advance := by
    rintro ⟨current, _ | token, source⟩ ⟨recorded, ⟨passed, pulled, others⟩, -⟩ more
    · obtain ⟨token, behind, step, recorded', pulled'⟩ := recorded.next
      have moved : Reading tokens ⟨token, none, behind⟩ :=
        ⟨recorded', ⟨passed ++ [current], by simp_all, by grind⟩, fun _ => rfl⟩
      simpa [Parse.advance, step] using moved
    · have moved : Reading tokens ⟨token, none, source⟩ :=
        ⟨recorded, ⟨passed ++ [current], by simp_all, by grind⟩, fun _ => rfl⟩
      simpa [Parse.advance] using moved
  peek := by
    rintro ⟨current, _ | token, source⟩ ⟨recorded, ⟨passed, pulled, others⟩, ahead⟩ more
    · obtain ⟨token, behind, step, recorded', pulled'⟩ := recorded.next
      have looked : Reading tokens ⟨current, some token, behind⟩ :=
        ⟨recorded', ⟨passed, by simp_all, others⟩, fun ends => absurd ends more⟩
      simpa [Parse.peek, step] using looked
    · exact ⟨recorded, ⟨passed, pulled, others⟩, ahead⟩

/-- At most the tokens in front of the first end token and that token are pulled, and all these when
the end token is the current one. -/
theorem Reading.length_pulled (reading : feed.Reading tokens) :
    feed.source.pulled.length ≤ (tokens.takeWhile (·.kind ≠ .eof)).length + 1 ∧
      (feed.current.kind = .eof →
        feed.source.pulled.length = (tokens.takeWhile (·.kind ≠ .eof)).length + 1) := by
  obtain ⟨passed, pulled, others⟩ := reading.onlyPassed
  obtain ⟨behind, front⟩ := reading.recorded.exists_takeWhile pulled others
  rw [pulled, front]
  by_cases ends : feed.current.kind = .eof
  · simp [ends, reading.ahead ends]
  · have held : feed.peeked.toList.length ≤ 1 := by cases feed.peeked <;> simp
    simp [ends]
    omega

/-- The end of the program is eaten at the first end token only, and then one more token is pulled. -/
theorem Reading.eat_eof (reading : feed.Reading tokens) :
    (∃ token behind, Parse.eat .eof feed = .ok token behind ∧
      TokenList.Recorded tokens behind.source ∧
      behind.source.pulled.length = (tokens.takeWhile (·.kind ≠ .eof)).length + 2) ∨
    ∃ error, Parse.eat .eof feed = .error (.fault error) feed := by
  by_cases ends : feed.current.kind = .eof
  · obtain ⟨token, behind, step, recorded, pulled⟩ := reading.recorded.next
    refine .inl ⟨feed.current, ⟨token, none, behind⟩, ?_, recorded, ?_⟩
    · simp [Parse.eat, ends, Parse.advance, reading.ahead ends, step]
    · simp [pulled, reading.length_pulled.2 ends]
  · exact .inr ⟨_, by simp only [Parse.eat, ends, if_false]; rfl⟩

/-- A parser with a record ends with a program behind two tokens more than stand in front of the first
end token, or stops behind at most one more. -/
theorem Reading.program_pulls (reading : feed.Reading tokens) (fuel : Nat) :
    (∃ program behind, Parse.program fuel feed = .ok program behind ∧
      TokenList.Recorded tokens behind.source ∧
      behind.source.pulled.length = (tokens.takeWhile (·.kind ≠ .eof)).length + 2) ∨
    ∃ stop behind, Parse.program fuel feed = .error stop behind ∧
      TokenList.Recorded tokens behind.source ∧
      behind.source.pulled.length ≤ (tokens.takeWhile (·.kind ≠ .eof)).length + 1 := by
  have known := Parse.keeps_contents (movable_reading tokens) fuel reading
  rw [Parse.program_eq]
  simp only [Bind.bind, EStateM.bind]
  cases outcome : Parse.contents fuel feed with
  | ok program middle =>
    replace known : middle.Reading tokens := by simpa [outcome] using known
    rcases known.eat_eof with ⟨token, behind, eats, recorded, count⟩ | ⟨error, refused⟩
    · exact .inl ⟨program, behind, by simp only [eats]; rfl, recorded, count⟩
    · exact .inr ⟨.fault error, middle, by simp only [refused], known.recorded, known.length_pulled.1⟩
  | error stop middle =>
    replace known : middle.Reading tokens := by simpa [outcome] using known
    exact .inr ⟨stop, middle, rfl, known.recorded, known.length_pulled.1⟩

end Feed

namespace Program

/-- A parser that is opened on a list of tokens and keeps a record of what it pulls comes to the end
of the input, which is all that it eats behind the contents of a program (`Parse.program_eq`), or stops
in front of it, without moving over an end token. It ends with the program or with the fault that is
read from the list. It has pulled the tokens of the list in order, each once, and end tokens behind
them: with a program, two more than stand in front of the first end token; with a fault, at most one
more. -/
theorem ofTokens_pulls (tokens : List Token) :
    let front := tokens.takeWhile (·.kind ≠ .eof)
    let eof := TokenList.endToken (TokenList.lastSpan tokens)
    ∃ feed, Recorder.open? (TokenList.ofList tokens) = .ok feed ∧
      (Parse.left (Parse.contents (feed.remaining + 1) feed)).OnlyPassed ∧
      (Parse.left (Parse.program (feed.remaining + 1) feed)).source.pulled <+: tokens ++ [eof, eof] ∧
      ((∃ program behind, Parse.program (feed.remaining + 1) feed = .ok program behind ∧
          ofTokens tokens = .ok program ∧ behind.source.pulled.length = front.length + 2) ∨
        ∃ error behind, Parse.program (feed.remaining + 1) feed = .error (.fault error) behind ∧
          ofTokens tokens = .error error ∧ behind.source.pulled.length ≤ front.length + 1) := by
  intro front eof
  obtain ⟨feed, opened, reading, same⟩ := Feed.exists_open tokens
  have known := Parse.keeps_contents (Feed.movable_reading tokens) (feed.remaining + 1) reading
  refine ⟨feed, opened, known.onlyPassed, ?_⟩
  rw [same]
  rcases reading.program_pulls (feed.remaining + 1) with ⟨program, behind, runs, recorded, count⟩ |
    ⟨stop, behind, runs, recorded, count⟩
  · rw [runs]
    refine ⟨recorded.prefix_of_length_le (by omega), .inl ⟨program, behind, rfl, ?_, count⟩⟩
    exact ofFeed_eq_ok runs
  · rw [runs]
    refine ⟨recorded.prefix_of_length_le (by omega), .inr ?_⟩
    cases stop with
    | fault error => exact ⟨error, behind, rfl, ofFeed_eq_error runs, count⟩
    | outOfFuel => exact absurd runs (Parse.program_ne_outOfFuel feed behind)

end Program

end ScriptLang

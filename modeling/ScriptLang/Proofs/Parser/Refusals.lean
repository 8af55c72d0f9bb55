import ScriptLang.Proofs.Parser.Keeping
import ScriptLang.Proofs.Parser.Recognition
import ScriptLang.Proofs.Token.Positions

/-!
# The parser refuses the first fault

The tokens that stand in front of a fault can be completed to a program: the parser reports the first
token that cannot be gone on with. There is one exception. A number is eaten before it is looked up,
and to eat it the parser pulls the token behind it; so if a string that is never closed stands behind
a number that is no numeral, the string is reported and the number is not.
-/

namespace ScriptLang

section Ends

variable {σ : Type} [TokenSource σ] {feed behind : Feed σ} {source : σ}

/-- Behind each end token the source gives another token. -/
def TokenSource.Settles (σ : Type) [TokenSource σ] : Prop :=
  ∀ ⦃source behind : σ⦄ ⦃token : Token⦄, TokenSource.next source = (.ok token, behind) →
    token.kind = .eof → TokenSource.Gives behind

/-- At the end of the input it is possible to move on. -/
structure Feed.Settled (feed : Feed σ) : Prop where
  current : feed.current.kind = .eof → feed.peeked = none ∧ TokenSource.Gives feed.source
  peeked : ∀ token ∈ feed.peeked, token.kind = .eof → TokenSource.Gives feed.source

/-- A feed that does not look ahead is settled if the source gives a token behind an end token. -/
theorem Feed.settled_of_gives {current : Token}
    (gives : current.kind = .eof → TokenSource.Gives source) :
    (⟨current, none, source⟩ : Feed σ).Settled where
  current last := ⟨rfl, gives last⟩
  peeked _ held := absurd held (Option.not_mem_none _)

/-- In front of the end token, moving on and looking ahead keep it so. -/
theorem Feed.movable_settled (settles : TokenSource.Settles σ) :
    Parse.Movable (Settled : Feed σ → Prop) where
  advance := by
    rintro ⟨current, _ | token, source⟩ settled more
    · rcases step : TokenSource.next source with ⟨error | token, behind⟩
      · have stopped : (⟨current, none, behind⟩ : Feed σ).Settled :=
          settled_of_gives fun last => absurd last more
        simpa [Parse.advance, step] using stopped
      · have moved : (⟨token, none, behind⟩ : Feed σ).Settled := settled_of_gives (settles step)
        simpa [Parse.advance, step] using moved
    · have moved : (⟨token, none, source⟩ : Feed σ).Settled :=
        settled_of_gives (settled.peeked token rfl)
      simpa [Parse.advance] using moved
  peek := by
    rintro ⟨current, _ | token, source⟩ settled more
    · rcases step : TokenSource.next source with ⟨error | token, behind⟩
      · have stopped : (⟨current, none, behind⟩ : Feed σ).Settled :=
          settled_of_gives fun last => absurd last more
        simpa [Parse.peek, step] using stopped
      · have looked : (⟨current, some token, behind⟩ : Feed σ).Settled := by
          refine ⟨fun last => absurd last more, ?_⟩
          rintro _ ⟨⟩ last
          exact settles step last
        simpa [Parse.peek, step] using looked
    · exact settled

/-- What a parser that is opened on a source has in front is what the source gives. -/
theorem Feed.prospect_open {token : Token} {behind : σ}
    (step : TokenSource.next source = (.ok token, behind)) :
    (⟨token, none, behind⟩ : Feed σ).prospect = TokenSource.prospect source :=
  (TokenSource.prospect_of_ok step).symm

/-- A program is refused at a token that stands behind the front of another program. -/
theorem Parse.refuses_program {fuel : Nat} {error : ParseError} (settles : TokenSource.Settles σ)
    (settled : feed.Settled) (outcome : program fuel feed = .error (.fault error) behind) :
    Refuses Grammar.IsProgram feed.prospect error := by
  have reading := (consumes_contents fuel).accounts feed
  have known := keeps_contents (Feed.movable_settled settles) fuel settled
  rw [program_eq] at outcome
  simp only [Bind.bind, EStateM.bind] at outcome
  cases reads : contents fuel feed with
  | error stop middle =>
    rw [reads] at outcome reading
    cases outcome
    exact reading
  | ok program middle =>
    replace known : middle.Settled := by simpa [reads] using known
    simp only [reads] at outcome reading
    obtain ⟨tokens, gives, sound, holds⟩ := reading
    by_cases last : middle.current.kind = .eof
    · obtain ⟨alone, token, ahead, step⟩ := known.current last
      simp [eat, last, advance, alone, step, pure, EStateM.pure] at outcome
    · simp only [eat, last, if_false] at outcome
      obtain ⟨⟨rfl⟩, -⟩ := EStateM.Result.error.inj outcome
      exact ⟨tokens, middle.prospect, gives, sound, begins_of_holds holds,
        .unexpected .eof middle.current middle.ahead⟩

end Ends

/-! Places in a text are told apart by their lines and columns. -/

/-- The first place is on a line above the second, or on its line further to the left. -/
def Before (place other : Nat × Nat) : Prop :=
  place.1 < other.1 ∨ place.1 = other.1 ∧ place.2 < other.2

instance (place other : Nat × Nat) : Decidable (Before place other) :=
  inferInstanceAs (Decidable (_ ∨ _))

/-- The line and the column. -/
def Position.place (position : Position) : Nat × Nat :=
  (position.line, position.column)

/-- The line and the column where a token starts. -/
def Token.place (token : Token) : Nat × Nat :=
  token.span.start.place

/-- The line and the column that are reported. -/
def LexError.place : LexError → Nat × Nat
  | .unterminatedString line column => (line, column)

/-- The line and the column of what is pulled. -/
def pulledPlace : Except LexError Token → Nat × Nat
  | .ok token => token.place
  | .error error => error.place

/-- The line and the column that are reported. -/
def ParseError.place : ParseError → Nat × Nat
  | .unexpectedToken _ _ _ line column => (line, column)
  | .invalidNumber _ line column => (line, column)
  | .lex error => error.place

section Order

variable {place other third : Nat × Nat}

/-- No place is in front of itself. -/
theorem not_before_self (place : Nat × Nat) : ¬Before place place := by
  simp [Before]

/-- What is in front of a place is in front of all that the place is in front of. -/
theorem Before.trans (first : Before place other) (second : Before other third) :
    Before place third := by
  unfold Before at *
  omega

/-- A place in front of another is in front of each that is not in front of that. -/
theorem Before.of_not_before (first : Before place other) (second : ¬Before third other) :
    Before place third := by
  unfold Before at *
  by_cases same : other = third
  · subst same
    exact first
  · have apart : other.1 ≠ third.1 ∨ other.2 ≠ third.2 := by
      by_contra! both
      exact same (Prod.ext both.1 both.2)
    omega

/-- Each character moves on. -/
theorem Position.before_next (position : Position) (c : Char) :
    Before position.place (position.next c).place := by
  unfold Position.next
  split <;> simp [Before, place]

/-- Going on in a text moves the place forwards. -/
theorem Position.before_advance (position : Position) {text : List Char} (more : text ≠ []) :
    Before position.place (position.advance text).place := by
  induction text generalizing position with
  | nil => exact absurd rfl more
  | cons c text ih =>
    rw [advance_cons]
    by_cases last : text = []
    · subst last
      exact position.before_next c
    · exact (position.before_next c).trans (ih _ last)

/-- Going on in a text never moves the place backwards. -/
theorem Position.not_before_advance (position : Position) (text : List Char) :
    ¬Before (position.advance text).place position.place := by
  by_cases more : text = []
  · subst more
    exact not_before_self _
  · intro back
    exact not_before_self _ ((position.before_advance more).trans back)

end Order

namespace Prospect

/-- Where the tokens start, and the end token or the error behind them. -/
def places (ahead : Prospect) : List (Nat × Nat) :=
  ahead.tokens.map Token.place ++ [pulledPlace ahead.ending]

/-- The first place of tokens with one in front is the place of this one. -/
theorem head?_places_cons (token : Token) (ahead : Prospect) :
    (ahead.cons token).places.head? = some token.place := by
  unfold cons
  split <;> rfl

/-- The places of a prospect behind tokens are those of the tokens and then its own. -/
theorem places_behind (tokens : List Token) (ahead : Prospect) :
    (behind tokens ahead).places = tokens.map Token.place ++ ahead.places := by
  simp [places, behind]

/-- The tokens in front of a place are those that stand there, if the places are in order. -/
theorem filter_before {read : List Token} {ahead : Prospect} {place : Nat × Nat}
    (ordered : (behind read ahead).places.Pairwise Before)
    (front : ahead.places.head? = some place) :
    (behind read ahead).tokens.filter (Before ·.place place) = read := by
  obtain ⟨others, split⟩ := List.head?_eq_some_iff.mp front
  rw [places_behind, split, List.pairwise_append] at ordered
  obtain ⟨-, after, before⟩ := ordered
  have none : ∀ token ∈ ahead.tokens, ¬Before token.place place := by
    intro token member
    have listed : token.place ∈ place :: others := by
      rw [← split]
      exact List.mem_append_left _ (List.mem_map_of_mem member)
    rcases List.mem_cons.mp listed with same | behind
    · exact same ▸ not_before_self _
    · exact fun back => not_before_self _ (back.trans ((List.pairwise_cons.mp after).1 _ behind))
  have here : read.filter (Before ·.place place) = read :=
    List.filter_eq_self.mpr fun token member => decide_eq_true
      (before _ (List.mem_map_of_mem member) place List.mem_cons_self)
  have there : ahead.tokens.filter (Before ·.place place) = [] :=
    List.filter_eq_nil_iff.mpr (by simpa using none)
  rw [behind, List.filter_append, here, there, List.append_nil]

end Prospect

/-- The reported place is that of what stands in front, unless a number is passed over. -/
theorem ParseError.Blames.front {error : ParseError} {ahead : Prospect} (blames : error.Blames ahead) :
    ahead.places.head? = some error.place ∨
      ∃ cut number, error = .lex cut ∧ ahead = ⟨[number], .error cut⟩ ∧ number.kind = .number ∧
        Numeral.value? number.text = none := by
  cases blames with
  | unexpected expected token ahead => exact .inl (ahead.head?_places_cons token)
  | @number token ahead => exact .inl (ahead.head?_places_cons token)
  | cut error => exact .inl rfl
  | @masked number error isNumber invalid => exact .inr ⟨error, number, rfl, rfl, isNumber, invalid⟩

namespace Cursor

/-- A token starts behind the cursor, and another one only behind it. -/
theorem Cuts.place {cursor behind : Cursor} {token : Token} (cuts : Cuts cursor token behind) :
    ¬Before token.place cursor.position.place ∧
      (token.kind ≠ .eof → Before token.place behind.position.place) := by
  obtain ⟨-, wrote⟩ := cuts
  refine ⟨Position.not_before_advance _ _, fun more => Position.before_advance _ ?_⟩
  exact List.ne_nil_of_length_pos (Lexeme.length_pos (Lexeme.lexeme?_of_isLexeme wrote).1 more)

/-- An error is reported behind the cursor. -/
theorem not_before_of_next {cursor behind : Cursor} {error : LexError}
    (step : cursor.next = (.error error, behind)) : ¬Before error.place cursor.position.place := by
  unfold next at step
  dsimp only at step
  split at step
  · cases step
    exact Position.not_before_advance _ _
  · cases step

/-- The tokens of a text, and what is behind them, start one behind the other. -/
theorem places_prospect (cursor : Cursor) :
    (TokenSource.prospect cursor).places.Pairwise Before ∧
      ∀ place ∈ (TokenSource.prospect cursor).places, ¬Before place cursor.position.place := by
  fun_induction TokenSource.prospect cursor with
  | case1 cursor error behind step =>
    have after := not_before_of_next step
    simpa [Prospect.places, pulledPlace] using after
  | case2 cursor token behind step last =>
    have after := (cuts_of_next step).place.1
    simpa [Prospect.places, pulledPlace] using after
  | case3 cursor token behind step more ih =>
    obtain ⟨after, before⟩ := (cuts_of_next step).place
    obtain ⟨ordered, later⟩ := ih
    have first : ∀ place ∈ (TokenSource.prospect behind).places, Before token.place place :=
      fun place member => (before more).of_not_before (later place member)
    refine ⟨List.pairwise_cons.mpr ⟨first, ordered⟩, List.forall_mem_cons.mpr ⟨after, ?_⟩⟩
    exact fun place member back => after ((first place member).trans back)

/-- The tokens of a text up to its end or an error are what is in front of a parser. -/
theorem lexed_eq_prospect (cursor : Cursor) : cursor.lexed = (TokenSource.prospect cursor).tokens := by
  fun_induction Cursor.lexed cursor with
  | case1 cursor error behind step => rw [TokenSource.prospect_of_error step]
  | case2 cursor token behind step more ih =>
    rw [TokenSource.prospect_of_ok step, Prospect.cons_of_ne_eof more, ih]
    rfl
  | case3 cursor token behind step last =>
    rw [TokenSource.prospect_of_ok step, Prospect.cons, if_pos (Decidable.not_not.mp last)]

end Cursor

namespace Program

open Grammar

/-- The tokens can be completed to ones that a program is read from. -/
def Viable (tokens : List Token) : Prop :=
  ∃ more program, ofTokens (tokens ++ more) = .ok program

/-- The tokens of a text, up to the first error, that start in front of a place. -/
def tokensBefore (text : String) (place : Nat × Nat) : List Token :=
  (Cursor.ofText text).lexed.filter (Before ·.place place)

/-- Sound tokens of the grammar are read. -/
theorem viable_of_begins {tokens : List Token} (sound : ∀ token ∈ tokens, token.Sound)
    (begins : Begins IsProgram tokens) : Viable tokens := by
  obtain ⟨more, program, others, known⟩ := begins
  have all : ∀ token ∈ tokens ++ more, token.Sound := fun token member =>
    (List.mem_append.mp member).elim (sound token) (others token)
  obtain ⟨result, known, nearest⟩ := known.exists_nearest
  obtain ⟨feed, reads, gives⟩ := exists_feed fun token member => (all token member).ne_eof
  have numbers : Parse.NumbersDenote (tokens ++ more) := fun token member =>
    (all token member).denotes
  rw [← gives] at known numbers
  rcases Parse.program_eq_ok_or_outOfFuel known nearest numbers (feed.remaining + 1) with
    ⟨behind, runs⟩ | ⟨behind, runs⟩
  · exact ⟨more, result, reads.trans (ofFeed_eq_ok runs)⟩
  · exact absurd runs (Parse.program_ne_outOfFuel feed behind)

/-- A program is read from sound tokens only, up to an end token. -/
theorem sound_of_ofTokens {tokens : List Token} {program : Program}
    (accepted : ofTokens tokens = .ok program) :
    ∀ token ∈ tokens.takeWhile (·.kind ≠ .eof), token.Sound := by
  rcases step : TokenSource.next (TokenList.ofList tokens) with ⟨error | token, behind⟩
  · simp [ofTokens, ofSource, step] at accepted
  · replace accepted : ofFeed ⟨token, none, behind⟩ = .ok program := by
      simpa [ofTokens, ofSource, step] using accepted
    rcases ofFeed_eq_ok_or_error ⟨token, none, behind⟩ with ⟨result, final, runs, -⟩ |
      ⟨error, final, -, refused⟩
    · have sound := (Parse.isProgram_of_program runs).2
      rwa [Feed.prospect_open step, Feed.prospect_list] at sound
    · cases accepted.symm.trans refused

/-- No program starts with sound tokens and a number that is no numeral. -/
theorem not_viable_of_number {before : List Token} {number : Token}
    (sound : ∀ token ∈ before, token.Sound) (isNumber : number.kind = .number)
    (invalid : Numeral.value? number.text = none) : ¬Viable (before ++ [number]) := by
  rintro ⟨more, program, accepted⟩
  have front : (before ++ [number] ++ more).takeWhile (·.kind ≠ .eof) =
      before ++ number :: more.takeWhile (·.kind ≠ .eof) := by
    rw [List.append_assoc, List.takeWhile_append_of_pos]
    · simp [isNumber]
    · exact fun token member => decide_eq_true (sound token member).ne_eof
  have read : number.Sound := sound_of_ofTokens accepted number (by rw [front]; simp)
  have denotes := read.denotes isNumber
  simp [invalid] at denotes

/-- A text in which no program is written is refused at one of its tokens, or at a string that is
never closed. -/
theorem refuses_of_ofText {text : String} {error : ParseError} (refused : ofText text = .error error) :
    Refuses IsProgram (TokenSource.prospect (Cursor.ofText text)) error := by
  rcases step : TokenSource.next (Cursor.ofText text) with ⟨cut | token, behind⟩
  · obtain rfl : .lex cut = error := by simpa [ofText, ofSource, step] using refused
    rw [TokenSource.prospect_of_error step]
    exact refuses_of_blames (.cut cut) (Parse.consumes_contents (σ := Cursor) 0).begins
  · replace refused : ofFeed ⟨token, none, behind⟩ = .error error := by
      simpa [ofText, ofSource, step] using refused
    have settled : (⟨token, none, behind⟩ : Feed Cursor).Settled :=
      Feed.settled_of_gives (Cursor.gives_of_eof step)
    rcases ofFeed_eq_ok_or_error ⟨token, none, behind⟩ with ⟨result, final, -, accepted⟩ |
      ⟨error', final, runs, same⟩
    · cases accepted.symm.trans refused
    · cases same.symm.trans refused
      rw [← Feed.prospect_open step]
      exact Parse.refuses_program (fun _ _ _ => Cursor.gives_of_eof) settled runs

/-- The tokens in front of the place of what stands behind them are these. -/
theorem tokensBefore_eq {text : String} {read : List Token} {ahead : Prospect} {place : Nat × Nat}
    (whole : TokenSource.prospect (Cursor.ofText text) = .behind read ahead)
    (front : ahead.places.head? = some place) : tokensBefore text place = read := by
  have ordered := (Cursor.places_prospect (Cursor.ofText text)).1
  rw [tokensBefore, Cursor.lexed_eq_prospect]
  rw [whole] at ordered ⊢
  exact Prospect.filter_before ordered front

/-- The tokens of a text that stand in front of the reported fault can be completed to a program. Only
if a string is reported that is never closed, the last token in front of it may be a number that is no
numeral; then the tokens in front of the number can be completed, and with the number they cannot. -/
theorem viable_of_ofText_error {text : String} {error : ParseError} (refused : ofText text = .error error) :
    Viable (tokensBefore text error.place) ∨
      ∃ cut before number, error = .lex cut ∧
        tokensBefore text error.place = before ++ [number] ∧ number.kind = .number ∧
        Numeral.value? number.text = none ∧ Viable before ∧ ¬Viable (before ++ [number]) := by
  obtain ⟨read, ahead, whole, sound, begins, blames⟩ := refuses_of_ofText refused
  have viable := viable_of_begins sound begins
  rcases blames.front with front | ⟨cut, number, rfl, rfl, isNumber, invalid⟩
  · rw [tokensBefore_eq whole front]
    exact .inl viable
  · -- the string is behind the number, and the number is the fault
    have split : TokenSource.prospect (Cursor.ofText text) =
        .behind (read ++ [number]) ⟨[], .error cut⟩ := by
      rw [whole, ← Prospect.behind_behind]
      rfl
    exact .inr ⟨cut, read, number, rfl, tokensBefore_eq split rfl, isNumber, invalid, viable,
      not_viable_of_number sound isNumber invalid⟩

/-- A closing parenthesis where a value is due. -/
theorem viable_of_ofText_error_parenthesis :
    ofText "a = )" = .error (.unexpectedToken .identifier (.mark .closeParen) ")" 1 4) ∧
      (Viable (tokensBefore "a = )" (1, 4)) ∨
        ∃ cut before number,
          ParseError.unexpectedToken .identifier (.mark .closeParen) ")" 1 4 = .lex cut ∧
          tokensBefore "a = )" (1, 4) = before ++ [number] ∧ number.kind = .number ∧
          Numeral.value? number.text = none ∧ Viable before ∧ ¬Viable (before ++ [number])) := by
  have cut : tokenize "a = )" = .ok [⟨.identifier, "a", ⟨⟨0, 1, 0⟩, 1⟩⟩,
      ⟨.mark .assign, "=", ⟨⟨2, 1, 2⟩, 3⟩⟩, ⟨.mark .closeParen, ")", ⟨⟨4, 1, 4⟩, 5⟩⟩,
      ⟨.eof, "EOF", ⟨⟨5, 1, 5⟩, 5⟩⟩] := by
    with_unfolding_all rfl
  have refused : ofText "a = )" =
      .error (.unexpectedToken .identifier (.mark .closeParen) ")" 1 4) :=
    (ofText_eq_of_tokenize cut).trans rfl
  exact ⟨refused, viable_of_ofText_error refused⟩

/-- A number that is no numeral goes unreported in front of a string that is never closed. -/
theorem not_viable_of_ofText_error : ¬∀ (text : String) (error : ParseError),
    ofText text = .error error → Viable (tokensBefore text error.place) := by
  intro always
  have first : TokenSource.next (Cursor.ofText "0x \"") =
      (.ok ⟨.number, "0x", ⟨⟨0, 1, 0⟩, 2⟩⟩, ⟨[' ', '"'], ⟨2, 1, 2⟩⟩) := by
    with_unfolding_all rfl
  have refused : ofText "0x \"" = .error (.lex (.unterminatedString 1 3)) := by
    rw [ofText, ofSource, first]
    rfl
  have before : tokensBefore "0x \"" (1, 3) = [⟨.number, "0x", ⟨⟨0, 1, 0⟩, 2⟩⟩] := by
    with_unfolding_all rfl
  have viable := always _ _ refused
  rw [ParseError.place, LexError.place, before] at viable
  exact @not_viable_of_number [] _ (List.forall_mem_nil _) rfl (by decide) viable

end Program

end ScriptLang

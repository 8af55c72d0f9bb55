import ScriptLang.Tree.Parser

/-!
# What a parser has in front of it

The tokens that are still to be pulled from a source up to its first end token, or up to its first
error, are its prospect. To move on takes the current token off the prospect of a feed, and to look
ahead changes nothing of it; where the source fails, both report this, with one token left.
-/

namespace ScriptLang

/-- The token stands in front of the end of the input, and if it is a number then it denotes a word. -/
structure Token.Sound (token : Token) : Prop where
  ne_eof : token.kind ≠ .eof
  denotes : token.kind = .number → (Numeral.value? token.text).isSome

/-- What is to be pulled: the tokens up to the end, and the end token or the error there. -/
structure Prospect where
  tokens : List Token
  ending : Except LexError Token

namespace Prospect

/-- A token in front of a prospect. Nothing counts that stands behind an end token. -/
def cons (token : Token) (behind : Prospect) : Prospect :=
  if token.kind = .eof then ⟨[], .ok token⟩ else ⟨token :: behind.tokens, behind.ending⟩

/-- Tokens in front of a prospect, none of which is an end token. -/
def behind (tokens : List Token) (ahead : Prospect) : Prospect :=
  ⟨tokens ++ ahead.tokens, ahead.ending⟩

/-- Behind no tokens there is what is ahead. -/
@[simp] theorem behind_nil (ahead : Prospect) : behind [] ahead = ahead := rfl

/-- Tokens behind tokens are those of both lists. -/
@[simp] theorem behind_behind (tokens tokens' : List Token) (ahead : Prospect) :
    behind tokens (behind tokens' ahead) = behind (tokens ++ tokens') ahead := by
  simp [behind]

/-- A token that is not the end stands in front of what is ahead. -/
theorem cons_of_ne_eof {token : Token} (more : token.kind ≠ .eof) (ahead : Prospect) :
    cons token ahead = behind [token] ahead :=
  if_neg more

end Prospect

namespace Token

/-- A token of a kind, to complete others with. -/
def sample (kind : Kind) : Token :=
  ⟨kind, "0", ⟨⟨0, 1, 0⟩, 0⟩⟩

/-- A sample of every kind but the end is sound. -/
theorem sound_sample {kind : Kind} (more : kind ≠ .eof) : (sample kind).Sound := by
  have zero : (Numeral.value? "0").isSome := by decide
  exact ⟨more, fun _ => zero⟩

end Token

section Refusals

variable {α : Type} {property property' : List Token → α → Prop} {tokens tokens' : List Token}
  {ahead : Prospect} {error : ParseError}

/-- The tokens can be completed with sound ones to tokens of which the property holds. -/
def Begins (property : List Token → α → Prop) (tokens : List Token) : Prop :=
  ∃ more value, (∀ token ∈ more, token.Sound) ∧ property (tokens ++ more) value

/-- Tokens of which the property holds begin it. -/
theorem begins_of_holds {value : α} (holds : property tokens value) : Begins property tokens :=
  ⟨[], value, nofun, by rwa [List.append_nil]⟩

/-- What begins a property begins every weaker one. -/
theorem Begins.weaken (begins : Begins property tokens)
    (implies : ∀ tokens value, property tokens value → property' tokens value) :
    Begins property' tokens := by
  obtain ⟨more, value, sound, holds⟩ := begins
  exact ⟨more, value, sound, implies _ _ holds⟩

/-- What begins behind sound tokens begins with them. -/
theorem Begins.append (begins : Begins (fun tokens' => property (tokens ++ tokens')) tokens') :
    Begins property (tokens ++ tokens') := by
  obtain ⟨more, value, sound, holds⟩ := begins
  exact ⟨more, value, sound, by rwa [List.append_assoc]⟩

/-- Sound tokens need not have been read yet. -/
theorem Begins.of_append (begins : Begins property (tokens ++ tokens'))
    (sound : ∀ token ∈ tokens', token.Sound) : Begins property tokens := by
  obtain ⟨more, value, others, holds⟩ := begins
  refine ⟨tokens' ++ more, value, fun token member => ?_, by rwa [← List.append_assoc]⟩
  exact (List.mem_append.mp member).elim (sound token) (others token)

/-- The fault says what stands in front: a token that is not the expected one, a number that is no
numeral, or an error of the source. But a number that is no numeral goes unreported if there is an
error behind it. -/
inductive ParseError.Blames : ParseError → Prospect → Prop where
  | unexpected (expected : Token.Kind) (token : Token) (ahead : Prospect) :
      Blames (.unexpectedToken expected token.kind token.text token.span.start.line
        token.span.start.column) (ahead.cons token)
  | number {token : Token} (ahead : Prospect) : token.kind = .number →
      Numeral.value? token.text = none →
        Blames (.invalidNumber token.text token.span.start.line token.span.start.column)
          (ahead.cons token)
  | cut (error : LexError) : Blames (.lex error) ⟨[], .error error⟩
  | masked {token : Token} (error : LexError) : token.kind = .number →
      Numeral.value? token.text = none → Blames (.lex error) ⟨[token], .error error⟩

/-- The fault is one of what stands behind sound tokens that begin the property. -/
def Refuses (property : List Token → α → Prop) (whole : Prospect) (error : ParseError) : Prop :=
  ∃ read ahead, whole = .behind read ahead ∧ (∀ token ∈ read, token.Sound) ∧
    Begins property read ∧ error.Blames ahead

/-- What has been begun goes on to what it begins in turn. -/
theorem Refuses.complete {β : Type} {final : List Token → β → Prop}
    (refuses : Refuses property ahead error)
    (goes : ∀ tokens value, property tokens value → Begins final tokens) :
    Refuses final ahead error := by
  obtain ⟨read, ahead, whole, sound, ⟨more, value, others, holds⟩, blames⟩ := refuses
  exact ⟨read, ahead, whole, sound, (goes (read ++ more) value holds).of_append others, blames⟩

/-- What is refused for a property is refused for every weaker one. -/
theorem Refuses.weaken (refuses : Refuses property ahead error)
    (implies : ∀ tokens value, property tokens value → property' tokens value) :
    Refuses property' ahead error :=
  refuses.complete fun tokens value holds => begins_of_holds (implies tokens value holds)

/-- A fault behind sound tokens is one behind them and more. -/
theorem Refuses.behind (refuses : Refuses (fun tokens' => property (tokens ++ tokens')) ahead error)
    (sound : ∀ token ∈ tokens, token.Sound) : Refuses property (.behind tokens ahead) error := by
  obtain ⟨read, ahead, rfl, others, begins, blames⟩ := refuses
  refine ⟨tokens ++ read, ahead, Prospect.behind_behind .., fun token member => ?_, begins.append,
    blames⟩
  exact (List.mem_append.mp member).elim (sound token) (others token)

/-- A fault of what stands in front is one behind no tokens. -/
theorem refuses_of_blames (blames : error.Blames ahead) (begins : Begins property []) :
    Refuses property ahead error :=
  ⟨[], ahead, rfl, nofun, begins, blames⟩

/-- An error of the source behind a sound token. -/
theorem refuses_behind {token : Token} (sound : token.Sound) (begins : Begins property [token])
    (error : LexError) :
    Refuses property ((⟨[], .error error⟩ : Prospect).cons token) (.lex error) :=
  ⟨[token], _, Prospect.cons_of_ne_eof sound.ne_eof _, by simpa using sound, begins, .cut error⟩

end Refusals

variable {σ : Type} [TokenSource σ]

/-- What a source is to give. -/
def TokenSource.prospect (source : σ) : Prospect :=
  match _step : TokenSource.next source with
  | (.error error, _) => ⟨[], .error error⟩
  | (.ok token, behind) =>
      if _last : token.kind = .eof then ⟨[], .ok token⟩
      else ⟨token :: (prospect behind).tokens, (prospect behind).ending⟩
termination_by TokenSource.remaining source
decreasing_by all_goals exact TokenSource.remaining_next_lt _step _last

/-- A source that gives a token has it in front. -/
theorem TokenSource.prospect_of_ok {source behind : σ} {token : Token}
    (step : TokenSource.next source = (.ok token, behind)) :
    prospect source = (prospect behind).cons token := by
  rw [prospect]
  split
  · rename_i refused
    cases step.symm.trans refused
  · rename_i given
    cases step.symm.trans given
    rfl

/-- A source that fails has nothing in front. -/
theorem TokenSource.prospect_of_error {source behind : σ} {error : LexError}
    (step : TokenSource.next source = (.error error, behind)) :
    prospect source = ⟨[], .error error⟩ := by
  rw [prospect]
  split
  · rename_i refused
    cases step.symm.trans refused
    rfl
  · rename_i given
    cases step.symm.trans given

/-- What a feed is to give behind the current token. -/
def Feed.ahead (feed : Feed σ) : Prospect :=
  match feed.peeked with
  | some token => (TokenSource.prospect feed.source).cons token
  | none => TokenSource.prospect feed.source

/-- What a feed is to give. -/
def Feed.prospect (feed : Feed σ) : Prospect :=
  feed.ahead.cons feed.current

namespace Parse

variable {feed behind : Feed σ} {token : Token} {kind' : Token.Kind} {stop : Stop}

/-- Moving on takes the current token off. -/
theorem prospect_of_advance (outcome : advance feed = .ok token behind) :
    token = feed.current ∧ feed.prospect = behind.prospect.cons token := by
  obtain ⟨current, _ | peeked, source⟩ := feed
  · unfold advance at outcome
    rcases step : TokenSource.next source with ⟨error | next, source'⟩
    · simp [step] at outcome
    · obtain ⟨rfl, rfl⟩ : current = token ∧ ⟨next, none, source'⟩ = behind := by
        simpa [step] using outcome
      simp [Feed.prospect, Feed.ahead, TokenSource.prospect_of_ok step]
  · obtain ⟨rfl, rfl⟩ : current = token ∧ ⟨peeked, none, source⟩ = behind := by
      simpa [advance] using outcome
    simp [Feed.prospect, Feed.ahead]

/-- If it is not possible to move on then the source has failed behind the current token. -/
theorem prospect_of_advance_error (outcome : advance feed = .error stop behind) :
    ∃ error, stop = .fault (.lex error) ∧
      feed.prospect = (⟨[], .error error⟩ : Prospect).cons feed.current := by
  obtain ⟨current, _ | peeked, source⟩ := feed
  · unfold advance at outcome
    rcases step : TokenSource.next source with ⟨error | next, source'⟩
    · obtain ⟨rfl, -⟩ : Stop.fault (.lex error) = stop ∧ _ := by simpa [step] using outcome
      exact ⟨error, rfl, by simp [Feed.prospect, Feed.ahead, TokenSource.prospect_of_error step]⟩
    · simp [step] at outcome
  · simp [advance] at outcome

/-- Looking ahead changes nothing of what is to come. -/
theorem prospect_of_peek (outcome : peek feed = .ok kind' behind) :
    behind.prospect = feed.prospect := by
  obtain ⟨current, _ | peeked, source⟩ := feed
  · unfold peek at outcome
    rcases step : TokenSource.next source with ⟨error | next, source'⟩
    · simp [step] at outcome
    · obtain ⟨-, rfl⟩ : _ ∧ ⟨current, some next, source'⟩ = behind := by
        simpa [step] using outcome
      simp [Feed.prospect, Feed.ahead, TokenSource.prospect_of_ok step]
  · obtain ⟨-, rfl⟩ : _ ∧ ⟨current, some peeked, source⟩ = behind := by
      simpa [peek] using outcome
    rfl

/-- If it is not possible to look ahead then the source has failed behind the current token. -/
theorem prospect_of_peek_error (outcome : peek feed = .error stop behind) :
    ∃ error, stop = .fault (.lex error) ∧
      feed.prospect = (⟨[], .error error⟩ : Prospect).cons feed.current := by
  obtain ⟨current, _ | peeked, source⟩ := feed
  · unfold peek at outcome
    rcases step : TokenSource.next source with ⟨error | next, source'⟩
    · obtain ⟨rfl, -⟩ : Stop.fault (.lex error) = stop ∧ _ := by simpa [step] using outcome
      exact ⟨error, rfl, by simp [Feed.prospect, Feed.ahead, TokenSource.prospect_of_error step]⟩
    · simp [step] at outcome
  · simp [peek] at outcome

/-- What is eaten is the current token. -/
theorem prospect_of_eat {expected : Token.Kind} (outcome : eat expected feed = .ok token behind) :
    token = feed.current ∧ token.kind = expected ∧ feed.prospect = behind.prospect.cons token := by
  unfold eat at outcome
  dsimp only at outcome
  split at outcome
  · rename_i seen
    obtain ⟨rfl, rest⟩ := prospect_of_advance outcome
    exact ⟨rfl, seen, rest⟩
  · cases outcome

end Parse

end ScriptLang

import ScriptLang.Proofs.Parser.Prospect

/-!
# Reading tokens

What a parser does with the tokens in front of it, said without its feed. `Yields` says that a
computation on a list reads a result off the front of given tokens, unless its fuel is used up.
`Consumes` says of a computation on any source what must hold of the tokens that it has read when it
gave a result, and that they can be completed to such tokens when it came to a fault. Both follow the
structure of a computation, step by step.
-/

namespace ScriptLang

/-- The kind of the first token of a list, behind which the input ends. -/
def Token.frontKind : List Token → Token.Kind
  | [] => .eof
  | token :: _ => token.kind

/-- Where no token is left the end is in front. -/
@[simp] theorem Token.frontKind_nil : Token.frontKind [] = .eof := rfl

/-- In front of tokens stands the first of them. -/
@[simp] theorem Token.frontKind_cons (token : Token) (tokens : List Token) :
    Token.frontKind (token :: tokens) = token.kind := rfl

/-- Cutting tokens off at the end does not change their front. -/
theorem Token.frontKind_takeWhile (tokens : List Token) :
    Token.frontKind (tokens.takeWhile (·.kind ≠ .eof)) = Token.frontKind tokens := by
  cases tokens with
  | nil => rfl
  | cons token rest =>
    by_cases last : token.kind = .eof
    · simp [last]
    · rw [List.takeWhile_cons_of_pos (by simpa using last)]
      rfl

/-- The tokens that a feed is to give behind the current one and before an end token. -/
def Feed.behind (feed : Feed TokenList) : List Token :=
  (feed.peeked.toList ++ feed.source.tokens).takeWhile (·.kind ≠ .eof)

/-- The tokens that a feed is to give before an end token. -/
def Feed.upcoming (feed : Feed TokenList) : List Token :=
  if feed.current.kind = .eof then [] else feed.current :: feed.behind

namespace Feed

/-- The current kind is that of the first upcoming token. -/
theorem current_kind (feed : Feed TokenList) :
    feed.current.kind = Token.frontKind feed.upcoming := by
  unfold upcoming
  split
  · rename_i last
    rw [last, Token.frontKind_nil]
  · rfl

/-- At the end nothing is to come. -/
theorem upcoming_eq_nil {feed : Feed TokenList} (last : feed.current.kind = .eof) :
    feed.upcoming = [] :=
  if_pos last

/-- In front of the end the current token is the first that is to come. -/
theorem upcoming_of_ne_eof {feed : Feed TokenList} (more : feed.current.kind ≠ .eof) :
    feed.upcoming = feed.current :: feed.behind :=
  if_neg more

/-- If a token is to come then it is the current one. -/
theorem current_of_upcoming {feed : Feed TokenList} {token : Token} {tokens : List Token}
    (gives : feed.upcoming = token :: tokens) : feed.current = token ∧ feed.behind = tokens := by
  unfold upcoming at gives
  split at gives
  · cases gives
  · exact List.cons.inj gives

/-- The prospect of a list of tokens is the list up to the end. -/
theorem prospect_list (list : TokenList) :
    (TokenSource.prospect list).tokens = list.tokens.takeWhile (·.kind ≠ .eof) := by
  obtain ⟨tokens, last⟩ := list
  induction tokens generalizing last with
  | nil => rw [TokenSource.prospect_of_ok rfl]; rfl
  | cons token tokens ih =>
    rw [TokenSource.prospect_of_ok rfl]
    by_cases ends : token.kind = .eof
    · simp [Prospect.cons, ends]
    · simpa [Prospect.cons, ends] using ih token.span

/-- On a list, what is to come is the prospect. -/
theorem upcoming_eq_prospect (feed : Feed TokenList) : feed.upcoming = feed.prospect.tokens := by
  have ahead : feed.behind = feed.ahead.tokens := by
    obtain ⟨current, _ | peeked, source⟩ := feed
    · exact (prospect_list source).symm
    · by_cases ends : peeked.kind = .eof
      · simp [behind, Feed.ahead, Prospect.cons, ends]
      · simp [behind, Feed.ahead, Prospect.cons, ends, prospect_list]
  by_cases ends : feed.current.kind = .eof
  · simp [upcoming, Feed.prospect, Prospect.cons, ends]
  · simp [upcoming, Feed.prospect, Prospect.cons, ends, ahead]

end Feed

namespace Parse

variable {token : Token} {tokens : List Token}

/-- Over a list it is always possible to move on. -/
theorem advance_eq_ok (feed : Feed TokenList) :
    ∃ moved, advance feed = .ok feed.current moved ∧ moved.upcoming = feed.behind := by
  have upcoming (current : Token) (rest : List Token) (last : Span) :
      (⟨current, none, ⟨rest, last⟩⟩ : Feed TokenList).upcoming =
        (current :: rest).takeWhile (·.kind ≠ .eof) := by
    by_cases ends : current.kind = .eof <;> simp [Feed.upcoming, Feed.behind, ends]
  obtain ⟨current, _ | peeked, ⟨_ | ⟨next, rest⟩, last⟩⟩ := feed
  · exact ⟨_, rfl, upcoming _ _ _⟩
  · exact ⟨_, rfl, upcoming _ _ _⟩
  · exact ⟨_, rfl, upcoming _ _ _⟩
  · exact ⟨_, rfl, upcoming _ _ _⟩

/-- Over a list it is always possible to look ahead, and nothing that is to come changes. -/
theorem peek_eq_ok (feed : Feed TokenList) :
    ∃ looked, peek feed = .ok (Token.frontKind feed.behind) looked ∧
      looked.upcoming = feed.upcoming := by
  unfold Feed.behind
  rw [Token.frontKind_takeWhile]
  obtain ⟨current, _ | peeked, ⟨_ | ⟨next, rest⟩, last⟩⟩ := feed
  · exact ⟨_, rfl, rfl⟩
  · exact ⟨_, rfl, rfl⟩
  · exact ⟨_, rfl, rfl⟩
  · exact ⟨_, rfl, rfl⟩

/-- What a program is read from, the end of the input left out. -/
def contents {σ : Type} [TokenSource σ] (fuel : Nat) : Parse σ Program := do
  skipLineBreaks fuel
  let paths ← imports fuel
  let body ← statements (statement fuel) fuel
  return ⟨paths, body⟩

/-- A program is its contents and the end of the input. -/
theorem program_eq {σ : Type} [TokenSource σ] (fuel : Nat) : (program fuel : Parse σ Program) =
    (do let result ← contents fuel; let _ ← eat .eof; return result) := by
  simp [program, contents]

variable {α β : Type}

/-- The computation reads the value off the front of the first tokens and leaves the second, unless
its fuel is used up. -/
def Yields (computation : Parse TokenList α) (tokens : List Token) (value : α)
    (rest : List Token) : Prop :=
  ∀ ⦃feed : Feed TokenList⦄, feed.upcoming = tokens →
    (∃ behind, computation feed = .ok value behind ∧ behind.upcoming = rest) ∨
      ∃ behind, computation feed = .error .outOfFuel behind

section Yields

variable {rest : List Token}

/-- A value is given without reading anything. -/
theorem yields_pure (value : α) (tokens : List Token) : Yields (pure value) tokens value tokens :=
  fun feed gives => .inl ⟨feed, rfl, gives⟩

/-- Running out of fuel is allowed everywhere. -/
theorem yields_exhausted {value : α} : Yields exhausted tokens value rest :=
  fun feed _ => .inr ⟨feed, rfl⟩

/-- Two steps read one part each. -/
theorem Yields.bind {first : Parse TokenList α} {next : α → Parse TokenList β} {value : α}
    {result : β} {middle : List Token} (here : Yields first tokens value middle)
    (there : Yields (next value) middle result rest) :
    Yields (first >>= next) tokens result rest := by
  intro feed gives
  simp only [Bind.bind, EStateM.bind]
  rcases here gives with ⟨behind, outcome, left⟩ | ⟨behind, outcome⟩
  · rw [outcome]
    exact there left
  · rw [outcome]
    exact .inr ⟨behind, rfl⟩

/-- The current kind is that of the tokens in front. -/
theorem yields_kind (tokens : List Token) : Yields kind tokens (Token.frontKind tokens) tokens := by
  intro feed gives
  refine .inl ⟨feed, ?_, gives⟩
  rw [← gives, ← feed.current_kind]
  rfl

/-- The current kind is compared without reading anything. -/
theorem yields_sees (expected : Token.Kind) (tokens : List Token) :
    Yields (sees expected) tokens (decide (Token.frontKind tokens = expected)) tokens := by
  intro feed gives
  refine .inl ⟨feed, ?_, gives⟩
  rw [← gives, ← feed.current_kind]
  rfl

/-- Looking ahead gives the kind behind the first token and reads nothing. -/
theorem yields_peek (token : Token) (tokens : List Token) :
    Yields peek (token :: tokens) (Token.frontKind tokens) (token :: tokens) := by
  intro feed gives
  obtain ⟨looked, outcome, same⟩ := peek_eq_ok feed
  rw [(Feed.current_of_upcoming gives).2] at outcome
  exact .inl ⟨looked, outcome, same.trans gives⟩

/-- A token of the expected kind is eaten. -/
theorem yields_eat {expected : Token.Kind} (seen : token.kind = expected) :
    Yields (eat expected) (token :: tokens) token tokens := by
  intro feed gives
  obtain ⟨moved, outcome, left⟩ := advance_eq_ok feed
  obtain ⟨rfl, rfl⟩ := Feed.current_of_upcoming gives
  exact .inl ⟨moved, by simp [eat, seen, outcome], left⟩

/-- A token of the expected kind is accepted. -/
theorem yields_accept {expected : Token.Kind} (seen : token.kind = expected) :
    Yields (accept expected) (token :: tokens) true tokens := by
  intro feed gives
  obtain ⟨moved, outcome, left⟩ := advance_eq_ok feed
  obtain ⟨rfl, rfl⟩ := Feed.current_of_upcoming gives
  exact .inl ⟨moved, by simp [accept, seen, outcome], left⟩

/-- In front of another kind nothing is accepted. -/
theorem yields_accept_other {expected : Token.Kind} (other : Token.frontKind tokens ≠ expected) :
    Yields (accept expected) tokens false tokens := by
  intro feed gives
  rw [← gives, ← feed.current_kind] at other
  exact .inl ⟨feed, by simp [accept, other], gives⟩

/-- A token that means something is taken. -/
theorem yields_take {meaning? : Token.Kind → Option α} {meaning : α}
    (seen : meaning? token.kind = some meaning) :
    Yields (take? meaning?) (token :: tokens) (some meaning) tokens := by
  intro feed gives
  obtain ⟨moved, outcome, left⟩ := advance_eq_ok feed
  obtain ⟨rfl, rfl⟩ := Feed.current_of_upcoming gives
  exact .inl ⟨moved, by simp [take?, seen, outcome], left⟩

/-- In front of a kind that means nothing no token is taken. -/
theorem yields_take_none {meaning? : Token.Kind → Option α}
    (other : meaning? (Token.frontKind tokens) = none) :
    Yields (take? meaning?) tokens none tokens := by
  intro feed gives
  rw [← gives, ← feed.current_kind] at other
  exact .inl ⟨feed, by simp [take?, other], gives⟩

end Yields

/-- What a computation has done with what was in front of it: with a value it has read sound tokens of
which the property holds, and a fault is one of what stands behind sound tokens that begin it. -/
def Accounts {σ : Type} [TokenSource σ] (property : List Token → α → Prop) (whole : Prospect) :
    EStateM.Result Stop (Feed σ) α → Prop
  | .ok value behind => ∃ tokens, whole = .behind tokens behind.prospect ∧
      (∀ token ∈ tokens, token.Sound) ∧ property tokens value
  | .error (.fault error) _ => Refuses property whole error
  | .error .outOfFuel _ => True

/-- The computation reads tokens of which the property holds, or refuses what stands behind tokens that
begin it. -/
structure Consumes (σ : Type) [TokenSource σ] {α : Type} (computation : Parse σ α)
    (property : List Token → α → Prop) : Prop where
  accounts : ∀ feed : Feed σ, Accounts property feed.prospect (computation feed)
  begins : Begins property []

section Outcomes

variable {σ : Type}

/-- What gives a value gives this one and moves nothing. -/
theorem of_pure_eq_ok {value result : α} {feed behind : Feed σ}
    (outcome : (pure value : Parse σ α) feed = .ok result behind) :
    value = result ∧ feed = behind := by
  simpa [pure, EStateM.pure] using outcome

/-- A sequence gives a result by way of a result of its first part. -/
theorem exists_of_bind_eq_ok {first : Parse σ α} {next : α → Parse σ β}
    {feed behind : Feed σ} {result : β} (outcome : (first >>= next) feed = .ok result behind) :
    ∃ value middle, first feed = .ok value middle ∧ next value middle = .ok result behind := by
  simp only [Bind.bind, EStateM.bind] at outcome
  cases step : first feed with
  | error stop middle =>
    rw [step] at outcome
    cases outcome
  | ok value middle =>
    rw [step] at outcome
    exact ⟨value, middle, rfl, outcome⟩

/-- The answer on the current kind is the right one, and nothing is moved. -/
theorem of_sees_eq_ok {expected : Token.Kind} {seen : Bool} {feed behind : Feed σ}
    (outcome : sees expected feed = .ok seen behind) :
    decide (feed.current.kind = expected) = seen ∧ feed = behind := by
  simpa [sees] using outcome

end Outcomes

section Consumes

variable {σ : Type} [TokenSource σ] {property property' : List Token → α → Prop}

/-- An outcome that accounts for a property accounts for every weaker one. -/
theorem Accounts.weaken {whole : Prospect} {result : EStateM.Result Stop (Feed σ) α}
    (accounts : Accounts property whole result)
    (implies : ∀ tokens value, property tokens value → property' tokens value) :
    Accounts property' whole result := by
  cases result with
  | ok value behind =>
    obtain ⟨tokens, gives, sound, holds⟩ := accounts
    exact ⟨tokens, gives, sound, implies tokens value holds⟩
  | error stop behind =>
    cases stop with
    | fault error => exact Refuses.weaken accounts implies
    | outOfFuel => trivial

/-- What consumes tokens of a property consumes tokens of every weaker one. -/
theorem Consumes.weaken {computation : Parse σ α} (consumes : Consumes σ computation property)
    (implies : ∀ tokens value, property tokens value → property' tokens value) :
    Consumes σ computation property' :=
  ⟨fun feed => (consumes.accounts feed).weaken implies, consumes.begins.weaken implies⟩

/-- Whenever the computation gives a value, it has read tokens of which the property holds. -/
theorem Consumes.gives {computation : Parse σ α} {feed behind : Feed σ} {value : α}
    (consumes : Consumes σ computation property) (outcome : computation feed = .ok value behind) :
    ∃ tokens, feed.prospect = .behind tokens behind.prospect ∧ (∀ token ∈ tokens, token.Sound) ∧
      property tokens value := by
  have accounts := consumes.accounts feed
  rwa [outcome] at accounts

/-- Whenever the computation comes to a fault, this is one of what is in front. -/
theorem Consumes.refuses {computation : Parse σ α} {feed behind : Feed σ} {error : ParseError}
    (consumes : Consumes σ computation property)
    (outcome : computation feed = .error (.fault error) behind) :
    Refuses property feed.prospect error := by
  have accounts := consumes.accounts feed
  rwa [outcome] at accounts

/-- Giving a value consumes no tokens. -/
theorem consumes_pure {value : α} (holds : property [] value) :
    Consumes σ (pure value) property :=
  ⟨fun _ => ⟨[], rfl, nofun, holds⟩, begins_of_holds holds⟩

/-- A computation may run out of fuel where the property can be begun. -/
theorem consumes_exhausted (begins : Begins property []) :
    Consumes σ (exhausted : Parse σ α) property :=
  ⟨fun _ => trivial, begins⟩

/-- What is done behind sound tokens accounts for them and more. -/
theorem Accounts.behind {tokens : List Token} {ahead : Prospect}
    {result : EStateM.Result Stop (Feed σ) α}
    (accounts : Accounts (fun tokens' => property (tokens ++ tokens')) ahead result)
    (sound : ∀ token ∈ tokens, token.Sound) : Accounts property (.behind tokens ahead) result := by
  cases result with
  | ok value behind =>
    obtain ⟨tokens', rfl, sound', holds⟩ := accounts
    refine ⟨tokens ++ tokens', Prospect.behind_behind .., fun token member => ?_, holds⟩
    exact (List.mem_append.mp member).elim (sound token) (sound' token)
  | error stop behind =>
    cases stop with
    | fault error => exact Refuses.behind accounts sound
    | outOfFuel => trivial

/-- Where nothing is in front, nothing has been read. -/
theorem Accounts.of_nil {whole : Prospect} {result : EStateM.Result Stop (Feed σ) α}
    (accounts : Accounts property whole result) (nothing : whole.tokens = [])
    (begins : Begins property' [])
    (implies : ∀ value, property [] value → property' [] value) : Accounts property' whole result := by
  cases result with
  | ok value behind =>
    obtain ⟨tokens, rfl, sound, holds⟩ := accounts
    obtain ⟨rfl, -⟩ := List.append_eq_nil_iff.mp nothing
    exact ⟨[], rfl, nofun, implies value holds⟩
  | error stop behind =>
    cases stop with
    | fault error =>
      obtain ⟨read, ahead, rfl, -, -, blames⟩ := accounts
      obtain ⟨rfl, -⟩ := List.append_eq_nil_iff.mp nothing
      exact refuses_of_blames blames begins
    | outOfFuel => trivial

/-- A sequence accounts for what its first part has read and for the rest. -/
theorem Accounts.bind {first : Parse σ α} {next : α → Parse σ β} {feed : Feed σ}
    {final : List Token → β → Prop} (here : Accounts property feed.prospect (first feed))
    (there : ∀ tokens value, property tokens value →
      Consumes σ (next value) fun tokens' => final (tokens ++ tokens')) :
    Accounts final feed.prospect ((first >>= next) feed) := by
  simp only [Bind.bind, EStateM.bind]
  generalize first feed = result at here
  cases result with
  | ok value middle =>
    obtain ⟨tokens, gives, sound, holds⟩ := here
    rw [gives]
    exact ((there tokens value holds).accounts middle).behind sound
  | error stop middle =>
    cases stop with
    | fault error =>
      -- what was begun is completed by the first part, and then by the rest
      refine Refuses.complete here fun tokens value holds => ?_
      simpa using (there tokens value holds).begins.append
    | outOfFuel => trivial

/-- Two steps consume the tokens of the first and then those of the second. -/
theorem Consumes.bind {first : Parse σ α} {next : α → Parse σ β}
    {final : List Token → β → Prop} (here : Consumes σ first property)
    (there : ∀ tokens value, property tokens value →
      Consumes σ (next value) fun tokens' => final (tokens ++ tokens')) :
    Consumes σ (first >>= next) final where
  accounts feed := (here.accounts feed).bind there
  begins := by
    obtain ⟨tokens, value, sound, holds⟩ := here.begins
    have begins : Begins final tokens := by simpa using (there tokens value holds).begins.append
    exact Begins.of_append begins sound

/-- A token is sound by its kind if that is neither the end of the input nor a number. -/
theorem sound_of_kind {kind : Token.Kind} (seen : token.kind = kind)
    (plain : kind ≠ .eof ∧ kind ≠ .number) : token.Sound :=
  ⟨seen ▸ plain.1, fun isNumber => absurd (seen ▸ isNumber) plain.2⟩

/-- Moving on over a sound token reads it, unless the source fails behind it. -/
theorem accounts_advance {feed : Feed σ} (sound : feed.current.Sound)
    {property : List Token → Token → Prop} (holds : property [feed.current] feed.current) :
    Accounts property feed.prospect (advance feed) := by
  cases outcome : advance feed with
  | ok token behind =>
    obtain ⟨rfl, gives⟩ := prospect_of_advance outcome
    rw [gives, Prospect.cons_of_ne_eof sound.ne_eof]
    exact ⟨[feed.current], rfl, by simpa using sound, holds⟩
  | error stop behind =>
    obtain ⟨error, rfl, gives⟩ := prospect_of_advance_error outcome
    rw [gives]
    exact refuses_behind sound (begins_of_holds holds) error

/-- Eating consumes one token of the expected kind. -/
theorem consumes_eat {expected : Token.Kind} (plain : expected ≠ .eof ∧ expected ≠ .number) :
    Consumes σ (eat expected) fun tokens token => tokens = [token] ∧ token.kind = expected := by
  have begins : Begins (fun tokens token => tokens = [token] ∧ token.kind = expected) [] :=
    ⟨[.sample expected], .sample expected, by simpa using Token.sound_sample plain.1, rfl, rfl⟩
  refine ⟨fun feed => ?_, begins⟩
  by_cases seen : feed.current.kind = expected
  · simp only [eat, seen, if_true]
    exact accounts_advance (sound_of_kind seen plain) ⟨rfl, seen⟩
  · simp only [eat, seen, if_false]
    exact refuses_of_blames (.unexpected expected feed.current feed.ahead) begins

/-- Accepting consumes one token of the expected kind, or none. -/
theorem consumes_accept {expected : Token.Kind} (plain : expected ≠ .eof ∧ expected ≠ .number) :
    Consumes σ (accept expected) fun tokens found =>
      if found then ∃ token, tokens = [token] ∧ token.kind = expected else tokens = [] := by
  refine ⟨fun feed => ?_, [], false, nofun, rfl⟩
  by_cases seen : feed.current.kind = expected
  · have moved : accept expected feed = (advance >>= fun _ => pure true) feed := by
      simp only [accept, seen, if_true, Bind.bind, EStateM.bind]
      cases advance feed <;> rfl
    have here : Accounts (fun tokens token => tokens = [token] ∧ token.kind = expected)
        feed.prospect (advance feed) := accounts_advance (sound_of_kind seen plain) ⟨rfl, seen⟩
    rw [moved]
    apply here.bind
    rintro tokens token ⟨rfl, isExpected⟩
    exact consumes_pure ⟨token, rfl, isExpected⟩
  · simp only [accept, seen, if_false]
    exact ⟨[], rfl, nofun, rfl⟩

/-- What has a meaning is neither the end of the input nor a number. -/
theorem plain_of_meaning {meaning? : Token.Kind → Option α} {kind : Token.Kind} {meaning : α}
    (seen : meaning? kind = some meaning)
    (more : meaning? .eof = none ∧ meaning? .number = none) : kind ≠ .eof ∧ kind ≠ .number := by
  refine ⟨?_, ?_⟩
  · rintro rfl
    cases seen.symm.trans more.1
  · rintro rfl
    cases seen.symm.trans more.2

/-- Taking consumes one token that means something, or none. -/
theorem consumes_take {meaning? : Token.Kind → Option α}
    (more : meaning? .eof = none ∧ meaning? .number = none) :
    Consumes σ (take? meaning?) fun tokens found =>
      match found with
      | some meaning => ∃ token, tokens = [token] ∧ meaning? token.kind = some meaning
      | none => tokens = [] := by
  refine ⟨fun feed => ?_, [], none, nofun, rfl⟩
  cases seen : meaning? feed.current.kind with
  | some meaning =>
    have moved : take? meaning? feed = (advance >>= fun _ => pure (some meaning)) feed := by
      simp only [take?, seen, Bind.bind, EStateM.bind]
      cases advance feed <;> rfl
    have here : Accounts (fun tokens token => tokens = [token] ∧ meaning? token.kind = some meaning)
        feed.prospect (advance feed) :=
      accounts_advance (sound_of_kind rfl (plain_of_meaning seen more)) ⟨rfl, seen⟩
    rw [moved]
    apply here.bind
    rintro tokens token ⟨rfl, means⟩
    exact consumes_pure ⟨token, rfl, means⟩
  | none =>
    simp only [take?, seen]
    exact ⟨[], rfl, nofun, rfl⟩

/-! What is done behind one step on the feed accounts for the tokens that the step has read. -/

section Then

variable {final : List Token → β → Prop}

/-- A step that asks for the current kind consumes what goes on behind it. -/
theorem consumes_kind_then {next : Token.Kind → Parse σ β}
    (there : ∀ seen, Consumes σ (next seen) final) : Consumes σ (kind >>= next) final :=
  ⟨fun feed => (there feed.current.kind).accounts feed, (there .eof).begins⟩

/-- A step that compares the current kind consumes what goes on behind it. -/
theorem consumes_sees_then {expected : Token.Kind} {next : Bool → Parse σ β}
    (there : ∀ seen, Consumes σ (next seen) final) : Consumes σ (sees expected >>= next) final :=
  ⟨fun feed => (there _).accounts feed, (there true).begins⟩

/-- Looking behind a sound token leaves all that is in front there, unless the source fails. -/
theorem accounts_peek_then {next : Token.Kind → Parse σ β} {feed : Feed σ}
    (sound : feed.current.Sound) (begins : Begins final [feed.current])
    (there : ∀ seen, Consumes σ (next seen) final) :
    Accounts final feed.prospect ((peek >>= next) feed) := by
  simp only [Bind.bind, EStateM.bind]
  cases outcome : peek feed with
  | ok seen looked =>
    rw [← prospect_of_peek outcome]
    exact (there seen).accounts looked
  | error stop behind =>
    obtain ⟨error, rfl, gives⟩ := prospect_of_peek_error outcome
    rw [gives]
    exact refuses_behind sound begins error

/-- A step that eats a token consumes it in front of what goes on behind it. -/
theorem consumes_eat_then {expected : Token.Kind} {next : Token → Parse σ β}
    (plain : expected ≠ .eof ∧ expected ≠ .number) (there : ∀ token, token.kind = expected →
      Consumes σ (next token) fun tokens => final (token :: tokens)) :
    Consumes σ (eat expected >>= next) final := by
  refine (consumes_eat plain).bind fun tokens token eaten => ?_
  obtain ⟨rfl, isExpected⟩ := eaten
  exact there token isExpected

/-- A step that accepts a token consumes it in front of what goes on, or what goes on without it. -/
theorem consumes_accept_then {expected : Token.Kind} {next : Bool → Parse σ β}
    (plain : expected ≠ .eof ∧ expected ≠ .number) (found : ∀ token, token.kind = expected →
      Consumes σ (next true) fun tokens => final (token :: tokens))
    (other : Consumes σ (next false) final) : Consumes σ (accept expected >>= next) final := by
  refine (consumes_accept plain).bind fun tokens here accepted => ?_
  cases here with
  | true =>
    obtain ⟨token, rfl, isExpected⟩ := accepted
    exact found token isExpected
  | false =>
    obtain rfl : tokens = [] := accepted
    exact other

/-- A step that takes a token consumes it in front of what goes on, or what goes on without it. -/
theorem consumes_take_then {meaning? : Token.Kind → Option α}
    {next : Option α → Parse σ β} (more : meaning? .eof = none ∧ meaning? .number = none)
    (found : ∀ token meaning, meaning? token.kind = some meaning →
      Consumes σ (next (some meaning)) fun tokens => final (token :: tokens))
    (other : Consumes σ (next none) final) : Consumes σ (take? meaning? >>= next) final := by
  refine (consumes_take more).bind fun tokens here taken => ?_
  cases here with
  | some meaning =>
    obtain ⟨token, rfl, means⟩ := taken
    exact found token meaning means
  | none =>
    obtain rfl : tokens = [] := taken
    exact other

end Then

end Consumes

end Parse

end ScriptLang

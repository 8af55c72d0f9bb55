import ScriptLang.Proofs.Parser.Sources
import ScriptLang.Proofs.Token.Pieces

/-!
# Layout does not matter

The tokens of a text can be written anew with nothing but single spaces between them. A space ends
every word, number and mark, and a line break takes the space behind it with it, so the new text is
cut into tokens of the same kinds and texts (`cutsInto_respaced`). The parser looks at the place of a
token only to report it, so the two texts have one outcome but for the places in it.
-/

namespace ScriptLang

open Lexeme

namespace Token

/-- How a token is written by itself: a string between quotes, a line break as one line feed. -/
def spelling : Token → String
  | ⟨.eof, _, _⟩ => ""
  | ⟨.lineBreak, _, _⟩ => "\n"
  | ⟨.string, text, _⟩ => "\"" ++ text ++ "\""
  | ⟨_, text, _⟩ => text

/-- The spelling of a line break is a line feed. -/
theorem spelling_of_lineBreak (token : Token) (folds : token.kind = .lineBreak) :
    token.spelling.toList = ['\n'] := by
  obtain ⟨kind, text, span⟩ := token
  cases folds
  simp [spelling]

/-- The tokens have one kind and one text, wherever they stand. -/
abbrev SaysSame : Token → Token → Prop :=
  Token.Alike fun _ _ => True

end Token

/-- The tokens in front of the end, written with single spaces between them. -/
def respaced (tokens : List Token) : String :=
  " ".intercalate ((tokens.filter (·.kind ≠ .eof)).map Token.spelling)

/-- A fault without the place that it names. -/
def ParseError.unplaced : ParseError → ParseError
  | unexpectedToken expected found text _ _ => unexpectedToken expected found text 0 0
  | invalidNumber literal _ _ => invalidNumber literal 0 0
  | lex (.unterminatedString _ _) => lex (.unterminatedString 0 0)

namespace Lexeme

variable {kind : Token.Kind} {text : String} {written rest behind : List Char}

/-- Only line breaks are written in several ways. -/
theorem IsLexeme.written_eq (wrote : IsLexeme kind text written rest) (within : kind ≠ .lineBreak)
    (span : Span) : written = (Token.spelling ⟨kind, text, span⟩).toList := by
  cases wrote with
  | eof => rfl
  | lineBreak => exact absurd rfl within
  | string => simp [Token.spelling]
  | number => exact String.toList_ofList.symm
  | mark => rfl
  | keyword => exact String.toList_ofList.symm
  | identifier => exact String.toList_ofList.symm

/-- What is neither the end nor a line break is cut in front of a space as it is cut elsewhere. -/
theorem IsLexeme.in_front_of_space (wrote : IsLexeme kind text written rest) (more : kind ≠ .eof)
    (within : kind ≠ .lineBreak) (space : ∀ c ∈ behind.head?, c = ' ') :
    IsLexeme kind text written behind := by
  have delimited : ∀ c ∈ behind.head?, isIdentifierPart c = false := by
    intro c front
    rw [space c front]
    decide
  cases wrote with
  | eof => exact absurd rfl more
  | lineBreak => exact absurd rfl within
  | string content => exact .string content
  | number isDigit longest =>
    refine .number isDigit ⟨longest.within, fun c front => ?_⟩
    rw [space c front]
    decide
  | @mark sign =>
    refine isLexeme_mark fun c front => ?_
    rw [space c front]
    exact sign.blank_not_mem_fusing
  | keyword word spelled => exact .keyword (word.in_front_of delimited) spelled
  | identifier word unspelled => exact .identifier (word.in_front_of delimited) unspelled

/-- No other token starts like a line break. -/
theorem IsLexeme.endsLayout (wrote : IsLexeme kind text written rest) (within : kind ≠ .lineBreak) :
    EndsLayout (written ++ rest) := by
  refine ⟨wrote.endsGap, ?_⟩
  cases wrote with
  | eof => simp
  | lineBreak => exact absurd rfl within
  | string => simp [isLineEnd]
  | number isDigit => simpa using isLineEnd_of_isDigit isDigit
  | @mark sign =>
    obtain ⟨c, behind, spelled, plain⟩ := sign.exists_plain
    simpa [spelled] using plain.lineEnd
  | keyword word => simpa using word.lineEnd
  | identifier word => simpa using word.lineEnd

end Lexeme

section Respaced

variable {token : Token} {tokens : List Token} {written rest behind : List Char}

/-- Spellings with spaces between them start with the first one, which ends or has a space behind. -/
theorem exists_behind_spelling (first : List Char) (others : List (List Char)) :
    ∃ behind, [' '].intercalate (first :: others) = first ++ behind ∧ ∀ c ∈ behind.head?, c = ' ' := by
  cases others with
  | nil => exact ⟨[], by simp, by simp⟩
  | cons second others =>
    refine ⟨' ' :: [' '].intercalate (second :: others), ?_, by simp⟩
    rw [List.intercalate_cons_cons, List.append_assoc, List.singleton_append]

/-- A line break is cut from a line feed and the layout behind it. -/
theorem cutsInto_lineBreak {layout : List Char} (wrote : IsLexeme token.kind token.text written rest)
    (folds : token.kind = .lineBreak) (wrote' : IsLayout layout behind) (ends : EndsLayout behind) :
    CutsInto (token.spelling.toList ++ layout) behind (List.Forall₂ Token.SaysSame [token]) := by
  rw [token.spelling_of_lineBreak folds]
  obtain ⟨kind, text, span⟩ := token
  cases folds
  cases wrote with
  | lineBreak =>
    exact cutsInto_lexeme (.lineBreak rfl (.space (.inr rfl) wrote') ends) nofun
      fun _ => .cons ⟨rfl, rfl, trivial⟩ .nil

/-- A token that is no line break is cut from its spelling, at the end or in front of a space. -/
theorem cutsInto_spelling (wrote : IsLexeme token.kind token.text written rest)
    (more : token.kind ≠ .eof) (within : token.kind ≠ .lineBreak)
    (space : ∀ c ∈ behind.head?, c = ' ') :
    CutsInto token.spelling.toList behind (List.Forall₂ Token.SaysSame [token]) := by
  rw [← wrote.written_eq within token.span]
  exact cutsInto_lexeme (wrote.in_front_of_space more within space) more
    fun _ => .cons ⟨rfl, rfl, trivial⟩ .nil

/-- A token in front of others is cut as they are. -/
theorem CutsInto.cons (first : CutsInto written behind (List.Forall₂ Token.SaysSame [token]))
    (others : CutsInto behind [] (List.Forall₂ Token.SaysSame tokens)) :
    CutsInto (written ++ behind) [] (List.Forall₂ Token.SaysSame (token :: tokens)) := by
  refine CutsInto.append (by rwa [List.append_nil]) others ?_
  rintro _ _ (_ | ⟨same, _ | _⟩) same'
  exact .cons same same'

/-- Tokens with single spaces between them are cut into tokens that say the same. -/
theorem cutsInto_respaced (more : ∀ token ∈ tokens, token.kind ≠ .eof)
    (lexed : ∀ token ∈ tokens, ∃ written rest, IsLexeme token.kind token.text written rest)
    (apart : tokens.IsChain fun earlier later =>
      ¬(earlier.kind = .lineBreak ∧ later.kind = .lineBreak)) :
    CutsInto ([' '].intercalate (tokens.map (·.spelling.toList))) []
      (List.Forall₂ Token.SaysSame tokens) := by
  induction tokens with
  | nil => exact cutsInto_nil [] .nil
  | cons token tokens ih =>
    obtain ⟨here, others⟩ := List.forall_mem_cons.1 more
    obtain ⟨⟨written, rest, wrote⟩, behind⟩ := List.forall_mem_cons.1 lexed
    have cut := ih others behind apart.tail
    cases tokens with
    | nil =>
      rw [List.map_singleton, List.intercalate_singleton]
      by_cases folds : token.kind = .lineBreak
      · have alone := cutsInto_lineBreak wrote folds .nil ⟨endsGap_nil, by simp⟩
        rwa [List.append_nil] at alone
      · exact cutsInto_spelling wrote here folds (by simp)
    | cons next tokens =>
      rw [List.map_cons, List.map_cons, List.intercalate_cons_cons]
      rw [List.map_cons] at cut
      by_cases folds : token.kind = .lineBreak
      · -- The line break takes the space with it, up to the next token, which is no line break.
        have within : next.kind ≠ .lineBreak := fun folds' =>
          (List.isChain_cons_cons.1 apart).1 ⟨folds, folds'⟩
        obtain ⟨⟨written', rest', wrote'⟩, -⟩ := List.forall_mem_cons.1 behind
        have ends : EndsLayout ([' '].intercalate
            (next.spelling.toList :: tokens.map (·.spelling.toList))) := by
          obtain ⟨behind, same, space⟩ := exists_behind_spelling next.spelling.toList
            (tokens.map (·.spelling.toList))
          rw [same, ← wrote'.written_eq within next.span]
          exact (wrote'.in_front_of_space (others next List.mem_cons_self) within space).endsLayout within
        exact (cutsInto_lineBreak wrote folds (.space (.inl rfl) .nil) ends).cons cut
      · rw [List.append_assoc, List.singleton_append]
        exact (cutsInto_spelling wrote here folds (by simp)).cons (cut.blank nofun)

end Respaced

/-- All end tokens have one text. -/
theorem text_of_eof {text : String} {tokens : List Token} (collected : tokenize text = .ok tokens) :
    ∀ token ∈ tokens, token.kind = .eof → token.text = Token.eofText := by
  obtain ⟨others, last, middle, behind, rfl, reads, cuts, ends⟩ :=
    Cursor.tokens_eq_ok_iff.1 collected
  have tiles := tiles_of_reads reads (Cursor.within_ofText text) cuts ends
  intro token member kind
  obtain ⟨written, rest, -, wrote⟩ := tiles.written token member
  rw [kind] at wrote
  generalize token.text = shown at wrote ⊢
  cases wrote
  rfl

/-- What can be cut into tokens can be written with single spaces between them, and is cut into tokens
that say the same. -/
theorem exists_tokenize_respaced {text : String} {tokens : List Token}
    (collected : tokenize text = .ok tokens) :
    ∃ before last before' last', tokens = before ++ [last] ∧ last.kind = .eof ∧
      tokenize (respaced tokens) = .ok (before' ++ [last']) ∧
      List.Forall₂ Token.SaysSame before before' ∧ last.SaysSame last' := by
  have texts := text_of_eof collected
  obtain ⟨before, last, middle, behind, rfl, reads, cuts, ends⟩ :=
    Cursor.tokens_eq_ok_iff.1 collected
  have tiles := tiles_of_reads reads (Cursor.within_ofText text) cuts ends
  have spelled : (respaced (before ++ [last])).toList =
      [' '].intercalate (before.map (·.spelling.toList)) := by
    have kept : (before ++ [last]).filter (·.kind ≠ .eof) = before := by
      rw [List.filter_append, List.filter_eq_self.2 (by simpa using reads.ne_eof)]
      simp [ends]
    rw [respaced, kept, String.toList_intercalate, List.map_map]
    rfl
  have lexed : ∀ token ∈ before, ∃ written rest, IsLexeme token.kind token.text written rest := by
    intro token member
    obtain ⟨written, rest, -, wrote⟩ := tiles.written token (List.mem_append_left _ member)
    exact ⟨written, rest, wrote⟩
  have cut := cutsInto_respaced reads.ne_eof lexed (List.isChain_append.1 tiles.lineBreaks).1
  rw [← spelled] at cut
  obtain ⟨before', last', collected', same, -, ends'⟩ := exists_tokenize_eq_ok cut
  have text := texts last (by simp) ends
  have text' := text_of_eof collected' last' (by simp) ends'
  exact ⟨before, last, before', last', rfl, ends, collected', same,
    ends'.trans ends.symm, text'.trans text.symm, trivial⟩

/-- Tokens that say the same have in common what depends on the kind and the text only. -/
theorem map_eq_of_saysSame {α : Type} {tokens tokens' : List Token} {part : Token → α}
    (same : List.Forall₂ Token.SaysSame tokens tokens')
    (kept : ∀ token token' : Token, token.SaysSame token' → part token' = part token) :
    tokens'.map part = tokens.map part := by
  induction same with
  | nil => rfl
  | cons here _ ih => rw [List.map_cons, List.map_cons, kept _ _ here, ih]

/-- Faults that say the same are the same but for their places. -/
theorem ParseError.Alike.unplaced_eq {place : Span → Span → Prop} {error error' : ParseError}
    (alike : Alike place error error') : error'.unplaced = error.unplaced := by
  cases alike with
  | unexpected same => simp [unplaced, same.kind, same.text]
  | number same => simp [unplaced, same.text]

/-- A text that can be cut into tokens can be written anew with nothing but single spaces between them:
the new text is cut into tokens of the same kinds and texts, and it is read as the same program or
refused with the same fault, but for the place that the fault names. -/
theorem Program.ofText_respaced {text : String} {tokens : List Token}
    (collected : tokenize text = .ok tokens) :
    (∃ tokens', tokenize (respaced tokens) = .ok tokens' ∧
      tokens'.map Token.kind = tokens.map Token.kind ∧
      tokens'.map Token.text = tokens.map Token.text) ∧
    (ofText (respaced tokens)).mapError ParseError.unplaced =
      (ofText text).mapError ParseError.unplaced := by
  obtain ⟨before, last, before', last', rfl, ends, collected', same, same'⟩ :=
    exists_tokenize_respaced collected
  constructor
  · have all := List.rel_append same (.cons same' .nil)
    exact ⟨_, collected', map_eq_of_saysSame all fun _ _ => Token.Alike.kind,
      map_eq_of_saysSame all fun _ _ => Token.Alike.text⟩
  · have alike : TokenSource.Alike (fun _ _ => True) none (TokenList.ofList (before ++ [last]))
        (TokenList.ofList (before' ++ [last'])) :=
      TokenList.alike_of_forall₂ same same' ends [] [] _ _
    rw [ofText_eq_of_tokenize collected, ofText_eq_of_tokenize collected', ofTokens, ofTokens]
    rcases ofSource_alike alike with ⟨program, -, read, read'⟩ |
      ⟨error, error', alike, read, read'⟩ | ⟨error, fails, -⟩
    · rw [read, read']
    · rw [read, read', Except.mapError, Except.mapError, alike.unplaced_eq]
    · cases fails

/-- A string with a quote and a line feed in it, a comment in front of a line break, a name that starts
with a stray character, and operators without spaces. -/
theorem Program.ofText_respaced_string_and_stray_character :
    let text := "import \"a\\\"\n\"//c\n\n@t-=12*-@t"
    let tokens : List Token := [⟨.keyword .use, "import", ⟨⟨0, 1, 0⟩, 6⟩⟩,
      ⟨.string, "a\\\"\n", ⟨⟨7, 1, 7⟩, 13⟩⟩, ⟨.lineBreak, "ENTER", ⟨⟨16, 2, 4⟩, 18⟩⟩,
      ⟨.identifier, "@t", ⟨⟨18, 4, 0⟩, 20⟩⟩, ⟨.mark .minusAssign, "-=", ⟨⟨20, 4, 2⟩, 22⟩⟩,
      ⟨.number, "12", ⟨⟨22, 4, 4⟩, 24⟩⟩, ⟨.mark .star, "*", ⟨⟨24, 4, 6⟩, 25⟩⟩,
      ⟨.mark .minus, "-", ⟨⟨25, 4, 7⟩, 26⟩⟩, ⟨.identifier, "@t", ⟨⟨26, 4, 8⟩, 28⟩⟩,
      ⟨.eof, "EOF", ⟨⟨28, 4, 10⟩, 28⟩⟩]
    tokenize text = .ok tokens ∧
      respaced tokens = "import \"a\\\"\n\" \n @t -= 12 * - @t" ∧
      (∃ tokens', tokenize (respaced tokens) = .ok tokens' ∧
        tokens'.map Token.kind = tokens.map Token.kind ∧
        tokens'.map Token.text = tokens.map Token.text) ∧
      (ofText (respaced tokens)).mapError ParseError.unplaced =
        (ofText text).mapError ParseError.unplaced := by
  intro text tokens
  have collected : tokenize text = .ok tokens := by decide +kernel
  exact ⟨collected, by decide +kernel, ofText_respaced collected⟩

end ScriptLang

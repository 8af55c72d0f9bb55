import ScriptLang.Proofs.Parser.Grammar
import ScriptLang.Proofs.Token.Tiling
import ScriptLang.Proofs.Tree.Proper

/-!
# Texts that are put together from tokens

A text that is put together from the spellings of tokens is cut into these tokens again if each
spelling ends where the next one begins: a word in front of a delimiter, a number in front of a
character that cannot go on with it, and a mark in front of one that it is not cut together with.
-/

namespace ScriptLang

open Lexeme

/-- The characters in front of which a mark is not cut alone: the two together are a longer mark or
open a comment. -/
def Mark.fusing : Mark → List Char
  | .plus | .minus | .star | .assign | .less | .greater | .bang => ['=']
  | .slash => ['=', '/']
  | .amp => ['&']
  | .pipe => ['|']
  | _ => []

/-- A mark that starts with another one goes on with a character that the other is cut together
with. -/
theorem Mark.mem_fusing {sign other : Mark} {c : Char} {behind : List Char}
    (spelled : other.spelling.toList = sign.spelling.toList ++ c :: behind) : c ∈ sign.fusing := by
  have table : ∀ sign ∈ Mark.longestFirst, ∀ other ∈ Mark.longestFirst,
      sign.spelling.toList <+: other.spelling.toList →
        (other.spelling.toList.drop sign.spelling.toList.length).head?.all (· ∈ sign.fusing) := by
    decide +kernel
  have listed := table sign (mem_longestFirst sign) other (mem_longestFirst other) ⟨_, spelled.symm⟩
  rw [spelled, List.drop_left] at listed
  exact of_decide_eq_true listed

/-- A blank stands behind every mark without being cut together with it. -/
theorem Mark.blank_not_mem_fusing (sign : Mark) : ' ' ∉ sign.fusing := by
  cases sign <;> decide

/-- The first character of a mark is a mark. -/
theorem Mark.exists_single (sign : Mark) :
    ∃ single : Mark, single.spelling.toList = sign.spelling.toList.take 1 := by
  have table : ∀ sign ∈ Mark.longestFirst, ∃ single ∈ Mark.longestFirst,
      single.spelling.toList = sign.spelling.toList.take 1 := by
    decide +kernel
  obtain ⟨single, -, alone⟩ := table sign (mem_longestFirst sign)
  exact ⟨single, alone⟩

namespace Lexeme

variable {text : String} {rest : List Char}

/-- Two slashes stand at the front of a text that starts with a mark only if the mark is a slash. -/
theorem head?_of_opensComment {sign : Mark} (opens : OpensComment (sign.spelling.toList ++ rest)) :
    sign = .slash ∧ rest.head? = some '/' := by
  have table : ∀ sign ∈ Mark.longestFirst, sign.spelling.toList.head? = some '/' →
      sign.spelling.toList[1]? = none ∧ sign = .slash ∨ sign.spelling.toList[1]? = some '=' := by
    decide
  obtain ⟨c, behind, spelled, -⟩ := sign.exists_plain
  have starts := table sign (Mark.mem_longestFirst sign)
  rw [spelled] at starts opens
  obtain ⟨rfl, second⟩ := opensComment_cons.1 opens
  rcases starts rfl with ⟨alone, rfl⟩ | equals
  · cases behind with
    | nil => exact ⟨rfl, second⟩
    | cons => cases alone
  · cases behind with
    | nil => cases equals
    | cons next behind =>
      cases second
      cases equals

/-- A mark is cut in front of every character that it is not cut together with. -/
theorem isLexeme_mark {sign : Mark} (apart : ∀ c ∈ rest.head?, c ∉ sign.fusing) :
    IsLexeme (.mark sign) sign.spelling sign.spelling.toList rest := by
  refine .mark (fun opens => ?_) ⟨List.prefix_append _ _, fun other stands => ?_⟩
  · obtain ⟨rfl, second⟩ := head?_of_opensComment opens
    exact apart '/' second (by decide)
  · -- A longer mark at this place would go on with the first character of the rest.
    by_contra! longer
    rw [← String.length_toList, ← String.length_toList] at longer
    obtain ⟨more, spelled⟩ :=
      List.prefix_of_prefix_length_le (List.prefix_append _ rest) stands longer.le
    cases more with
    | nil =>
      rw [← spelled, List.append_nil] at longer
      exact absurd longer (lt_irrefl _)
    | cons c behind =>
      rw [← spelled, List.prefix_append_right_inj] at stands
      obtain ⟨after, rfl⟩ := stands
      exact apart c rfl (Mark.mem_fusing spelled.symm)

/-- A word is a word in front of every delimiter. -/
theorem IsWord.in_front_of {first : Char} {run : List Char} {behind : List Char}
    (word : IsWord first run rest) (ends : ∀ c ∈ behind.head?, isIdentifierPart c = false) :
    IsWord first run behind := by
  refine ⟨word.toIsPlain, fun sign stands => ?_, word.longest.within, ends⟩
  -- Of a mark at the front the first character alone would be a mark, whatever comes behind it.
  obtain ⟨single, alone⟩ := sign.exists_single
  obtain ⟨c, behind, spelled, -⟩ := sign.exists_plain
  rw [spelled] at stands alone
  obtain ⟨rfl, -⟩ := List.cons_prefix_cons.1 stands
  exact word.mark single ⟨_, congrArg (· ++ _) alone⟩

/-- An identifier is cut in front of every delimiter. -/
theorem isLexeme_identifier (word : IsIdentifier text)
    (ends : ∀ c ∈ rest.head?, isIdentifierPart c = false) :
    IsLexeme .identifier text text.toList rest := by
  unfold IsIdentifier at word
  generalize text.toList = written at word
  cases word with
  | identifier word unspelled => exact .identifier (word.in_front_of ends) unspelled

/-- A number is cut in front of every character that cannot stand in one. -/
theorem isLexeme_number {value : Word} (numeral : IsNumeral text value)
    (ends : ∀ c ∈ rest.head?, isNumberPart c = false) : IsLexeme .number text text.toList rest := by
  have lexeme := numeral.lexeme
  generalize text.toList = written at lexeme
  cases lexeme with
  | @number digit run _ isDigit longest => exact .number isDigit ⟨longest.within, ends⟩

/-- Where a mark stands the token is a mark that starts with it. -/
theorem exists_mark_of_prefix {sign : Mark} {kind : Token.Kind} {written : List Char}
    (wrote : IsLexeme kind text written rest) (stands : sign.spelling.toList <+: written ++ rest) :
    ∃ other : Mark, kind = .mark other ∧ sign.spelling.toList <+: other.spelling.toList := by
  obtain ⟨c, behind, spelled, plain⟩ := sign.exists_plain
  have front (first : Char) (after : List Char) (same : written ++ rest = first :: after) :
      c = first := by
    rw [spelled, same] at stands
    exact (List.cons_prefix_cons.1 stands).1
  cases wrote with
  | eof =>
    rw [spelled] at stands
    exact absurd (List.prefix_nil.1 stands) (List.cons_ne_nil _ _)
  | lineBreak lineEnd =>
    obtain rfl := front _ _ rfl
    rw [plain.lineEnd] at lineEnd
    cases lineEnd
  | string => exact absurd (front _ _ rfl) plain.quote
  | number isDigit =>
    obtain rfl := front _ _ rfl
    rw [plain.digit] at isDigit
    cases isDigit
  | @mark other _ _ longest =>
    have shorter := longest.longest sign stands
    rw [← String.length_toList, ← String.length_toList] at shorter
    exact ⟨other, rfl, List.prefix_of_prefix_length_le stands longest.stands shorter⟩
  | keyword word => exact absurd stands (word.mark sign)
  | identifier word => exact absurd stands (word.mark sign)

/-- The content of a string between quotes is a lexeme. -/
theorem isLexeme_string (content : IsContent text.toList) :
    IsLexeme .string text ('"' :: text.toList ++ ['"']) rest := by
  have wrote : IsLexeme .string (String.ofList text.toList) ('"' :: text.toList ++ ['"']) rest :=
    .string content
  rwa [String.ofList_toList] at wrote

end Lexeme

namespace Cursor

/-- Where a mark stands that is no slash, a mark that starts with it is cut off. -/
theorem Cuts.exists_mark {cursor behind : Cursor} {token : Token} (cuts : Cuts cursor token behind)
    {sign : Mark} (stands : sign.spelling.toList <+: cursor.rest)
    (other : sign.spelling.toList[0]? ≠ '/') :
    ∃ other : Mark, token.kind = .mark other ∧ sign.spelling.toList <+: other.spelling.toList := by
  obtain ⟨wrote, lexeme⟩ := cuts
  rename_i position gap written rest kind shown
  obtain ⟨c, after, spelled, plain⟩ := sign.exists_plain
  dsimp only at stands
  have whole := stands
  rw [spelled] at whole other
  obtain ⟨text, same⟩ := whole
  have ends : EndsGap (gap ++ (written ++ rest)) := by
    rw [← same, List.cons_append]
    exact endsGap_cons plain.blank fun slash => other (congrArg some slash)
  obtain rfl := wrote.eq_nil lexeme.endsGap ends
  exact exists_mark_of_prefix lexeme stands

/-- What can be cut off can also be cut off behind a blank. -/
theorem Cuts.blank {text : List Char} {position : Position} {token : Token} {behind : Cursor}
    (cuts : Cuts ⟨text, position.next ' '⟩ token behind) :
    Cuts ⟨' ' :: text, position⟩ token behind := by
  generalize start : (⟨text, position.next ' '⟩ : Cursor) = cursor at cuts
  obtain ⟨wrote, lexeme⟩ := cuts
  rename_i place gap written rest kind shown
  obtain ⟨rfl, rfl⟩ := Cursor.mk.inj start
  have wrote' : IsGap (' ' :: gap) (written ++ rest) := by
    cases wrote with
    | blanks blank => exact .blanks (List.forall_mem_cons.2 ⟨rfl, blank⟩)
    | @comment blanks comment _ blank opens =>
      exact @IsGap.comment (' ' :: blanks) comment _ (List.forall_mem_cons.2 ⟨rfl, blank⟩) opens
  exact .behindGap wrote' lexeme

end Cursor

/-- From every position the characters in front of the rest of a text are cut into tokens of which
the property holds. -/
def CutsInto (written rest : List Char) (property : List Token → Prop) : Prop :=
  ∀ position, ∃ tokens position',
    Cursor.Reads ⟨written ++ rest, position⟩ tokens ⟨rest, position'⟩ ∧ property tokens

section CutsInto

variable {written written' rest : List Char} {property property' final : List Token → Prop}

/-- Where nothing is written there are no tokens. -/
theorem cutsInto_nil (rest : List Char) (holds : property []) : CutsInto [] rest property :=
  fun position => ⟨[], position, .nil, holds⟩

/-- What is cut into tokens of a property is cut into tokens of every weaker one. -/
theorem CutsInto.weaken (cut : CutsInto written rest property)
    (implies : ∀ tokens, property tokens → final tokens) : CutsInto written rest final := by
  intro position
  obtain ⟨tokens, behind, reads, holds⟩ := cut position
  exact ⟨tokens, behind, reads, implies tokens holds⟩

/-- Two pieces one behind the other are cut into the tokens of both. -/
theorem CutsInto.append (here : CutsInto written (written' ++ rest) property)
    (there : CutsInto written' rest property')
    (both : ∀ tokens tokens', property tokens → property' tokens' → final (tokens ++ tokens')) :
    CutsInto (written ++ written') rest final := by
  intro position
  obtain ⟨tokens, middle, reads, holds⟩ := here position
  obtain ⟨tokens', behind, reads', holds'⟩ := there middle
  rw [List.append_assoc]
  exact ⟨tokens ++ tokens', behind, reads.append reads', both _ _ holds holds'⟩

/-- A lexeme is cut into one token with its kind and its text. -/
theorem cutsInto_lexeme {kind : Token.Kind} {text : String} (wrote : IsLexeme kind text written rest)
    (more : kind ≠ .eof) (holds : ∀ span, property [⟨kind, text, span⟩]) :
    CutsInto written rest property := by
  intro position
  have cuts := @Cursor.Cuts.behindGap position [] _ _ _ _ (.blanks (by simp)) wrote
  exact ⟨_, _, .cons cuts more .nil, holds _⟩

/-- A mark is cut into one token, if no character behind it makes it a longer one. -/
theorem cutsInto_mark {sign : Mark} (apart : ∀ c ∈ rest.head?, c ∉ sign.fusing) :
    CutsInto sign.spelling.toList rest fun tokens => ∃ token : Token, tokens = [token] ∧
      token.kind = .mark sign :=
  cutsInto_lexeme (isLexeme_mark apart) nofun fun _ => ⟨_, rfl, rfl⟩

/-- A blank may stand in front of the first token. -/
theorem CutsInto.blank (here : CutsInto written rest property) (nonempty : ¬property []) :
    CutsInto (' ' :: written) rest property := by
  intro position
  obtain ⟨tokens, behind, reads, holds⟩ := here (position.next ' ')
  refine ⟨tokens, behind, ?_, holds⟩
  generalize (⟨rest, behind⟩ : Cursor) = final at reads ⊢
  cases reads with
  | nil => exact absurd holds nonempty
  | cons cuts more reads => exact .cons cuts.blank more reads

/-- A text that is cut into tokens up to its end is tokenized as these and an end token. -/
theorem exists_tokenize_eq_ok {text : String} (cut : CutsInto text.toList [] property) :
    ∃ tokens last, tokenize text = .ok (tokens ++ [last]) ∧ property tokens ∧
      (∀ token ∈ tokens, token.kind ≠ .eof) ∧ last.kind = .eof := by
  obtain ⟨tokens, position, reads, holds⟩ := cut Position.start
  rw [List.append_nil] at reads
  have last := @Cursor.Cuts.behindGap position [] [] [] _ _ (.blanks (by simp)) .eof
  exact ⟨tokens, _, Cursor.tokens_eq_ok_iff.2 ⟨tokens, _, _, _, rfl, reads, last, rfl⟩, holds,
    reads.ne_eof, rfl⟩

/-- A name is cut into its words and the dots between them. -/
theorem cutsInto_name {name : Name} (proper : name.Proper)
    (ends : ∀ c ∈ rest.head?, isIdentifierPart c = false) :
    CutsInto name.toList rest (Grammar.IsName · name) := by
  induction proper generalizing rest with
  | word word =>
    exact cutsInto_lexeme (isLexeme_identifier word ends) (by decide) fun span => .word rfl
  | @dotted name word _ isWord ih =>
    have last : CutsInto word.toList rest fun tokens => ∃ token : Token, tokens = [token] ∧
        token.kind = .identifier ∧ token.text = word :=
      cutsInto_lexeme (isLexeme_identifier isWord ends) (by decide) fun _ => ⟨_, rfl, rfl, rfl⟩
    have behind : CutsInto (".".toList ++ word.toList) rest fun tokens => ∃ dot token : Token,
        tokens = [dot, token] ∧ dot.kind = .mark .dot ∧ token.kind = .identifier ∧
          token.text = word := by
      have dot := @cutsInto_mark (word.toList ++ rest) .dot (by simp [Mark.fusing])
      refine dot.append last ?_
      rintro _ _ ⟨dot, rfl, isDot⟩ ⟨token, rfl, isToken⟩
      exact ⟨dot, token, rfl, isDot, isToken⟩
    rw [String.toList_append, String.toList_append, List.append_assoc]
    refine (ih (by simp; decide)).append behind ?_
    rintro tokens _ known ⟨dot, token, rfl, isDot, isIdentifier, rfl⟩
    exact .dotted known isDot isIdentifier

end CutsInto

end ScriptLang

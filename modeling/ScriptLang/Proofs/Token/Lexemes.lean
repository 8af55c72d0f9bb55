import Mathlib.Data.List.Nodup
import Mathlib.Data.List.TakeWhile
import ScriptLang.Token.Cursor

/-!
# What a text is cut into

The gaps between tokens and the tokens themselves, told by the characters that they are made of and
by what follows them in the text, and not by the way in which they are found. Each reaches as far as
it can: a gap ends in front of a character that is no blank and opens no comment, a folded line break
ends in front of one that is no line end either, and so on. So a text is cut in one way only, and the
lengths that a scan measures are the lengths of these parts.
-/

namespace ScriptLang

namespace Lexeme

/-- A run of allowed characters that reaches as far as it can. -/
structure IsLongestRun (allowed : Char → Bool) (run rest : List Char) : Prop where
  within : ∀ c ∈ run, allowed c = true
  ends : ∀ c ∈ rest.head?, allowed c = false

/-- Whether a text starts with two slashes. -/
def OpensComment (text : List Char) : Prop :=
  ['/', '/'] <+: text

/-- Two slashes and all that follows them up to the end of the line or of the text. -/
structure IsComment (comment rest : List Char) : Prop where
  opens : OpensComment comment
  longest : IsLongestRun (!isLineEnd ·) comment rest

/-- Blanks, and a comment behind them if there is one. -/
inductive IsGap : List Char → List Char → Prop
  | blanks {blanks rest : List Char} : (∀ c ∈ blanks, isBlank c = true) → IsGap blanks rest
  | comment {blanks comment rest : List Char} : (∀ c ∈ blanks, isBlank c = true) →
      IsComment comment rest → IsGap (blanks ++ comment) rest

/-- No gap goes on in front of the text. -/
structure EndsGap (rest : List Char) : Prop where
  blank : ∀ c ∈ rest.head?, isBlank c = false
  comment : ¬OpensComment rest

/-- Blanks, line ends and comments. -/
inductive IsLayout : List Char → List Char → Prop
  | nil {rest : List Char} : IsLayout [] rest
  | space {c : Char} {layout rest : List Char} : isBlank c = true ∨ isLineEnd c = true →
      IsLayout layout rest → IsLayout (c :: layout) rest
  | comment {comment layout rest : List Char} : IsComment comment (layout ++ rest) →
      IsLayout layout rest → IsLayout (comment ++ layout) rest

/-- No layout goes on in front of the text. -/
structure EndsLayout (rest : List Char) : Prop extends EndsGap rest where
  lineEnd : ∀ c ∈ rest.head?, isLineEnd c = false

/-- What can stand between quotes: a backslash takes any character with it, and no other character
is a quote. -/
inductive IsContent : List Char → Prop
  | nil : IsContent []
  | plain {c : Char} {content : List Char} : c ≠ '"' → c ≠ '\\' → IsContent content →
      IsContent (c :: content)
  | escaped {c : Char} {content : List Char} : IsContent content → IsContent ('\\' :: c :: content)

/-- No quote closes what stands in front of the text. -/
def Unclosed (text : List Char) : Prop :=
  ¬∃ content rest, IsContent content ∧ text = content ++ '"' :: rest

end Lexeme

/-- The mark stands at the front of a text, and no longer one does. -/
structure Mark.IsLongest (sign : Mark) (text : List Char) : Prop where
  stands : sign.spelling.toList <+: text
  longest : ∀ other : Mark, other.spelling.toList <+: text →
    other.spelling.length ≤ sign.spelling.length

namespace Lexeme

/-- A character that starts no gap, line break, string or number. -/
structure IsPlain (c : Char) : Prop where
  blank : isBlank c = false
  lineEnd : isLineEnd c = false
  quote : c ≠ '"'
  digit : c.isDigit = false

/-- A character that starts no other token, and the longest run behind it that no delimiter ends. -/
structure IsWord (first : Char) (run rest : List Char) : Prop extends IsPlain first where
  mark : ∀ sign : Mark, ¬sign.spelling.toList <+: first :: (run ++ rest)
  longest : IsLongestRun isIdentifierPart run rest

/-- The kind and the text of the token that is written with the given characters, in front of the
rest of a text. -/
inductive IsLexeme : Token.Kind → String → List Char → List Char → Prop
  | eof : IsLexeme .eof Token.eofText [] []
  | lineBreak {first : Char} {layout rest : List Char} : isLineEnd first = true →
      IsLayout (first :: layout) rest → EndsLayout rest →
        IsLexeme .lineBreak Token.lineBreakText (first :: layout) rest
  | string {content rest : List Char} : IsContent content →
      IsLexeme .string (String.ofList content) ('"' :: content ++ ['"']) rest
  | number {digit : Char} {run rest : List Char} : digit.isDigit = true →
      IsLongestRun isNumberPart run rest →
        IsLexeme .number (String.ofList (digit :: run)) (digit :: run) rest
  | mark {sign : Mark} {rest : List Char} : ¬OpensComment (sign.spelling.toList ++ rest) →
      sign.IsLongest (sign.spelling.toList ++ rest) →
        IsLexeme (.mark sign) sign.spelling sign.spelling.toList rest
  | keyword {word : Keyword} {first : Char} {run rest : List Char} : IsWord first run rest →
      word.spelling = String.ofList (first :: run) →
        IsLexeme (.keyword word) (String.ofList (first :: run)) (first :: run) rest
  | identifier {first : Char} {run rest : List Char} : IsWord first run rest →
      (∀ word : Keyword, word.spelling ≠ String.ofList (first :: run)) →
        IsLexeme .identifier (String.ofList (first :: run)) (first :: run) rest

section Runs

variable {allowed : Char → Bool} {run rest text : List Char}

/-- A longest run is what is taken of the text while its characters are allowed. -/
theorem IsLongestRun.takeWhile_eq (longest : IsLongestRun allowed run rest) :
    (run ++ rest).takeWhile allowed = run := by
  rw [List.takeWhile_append_of_pos longest.within]
  cases rest with
  | nil => simp
  | cons c rest => simp [longest.ends c rfl]

/-- What stands behind a longest run is left when the allowed characters are dropped. -/
theorem IsLongestRun.dropWhile_eq (longest : IsLongestRun allowed run rest) :
    (run ++ rest).dropWhile allowed = rest := by
  rw [List.dropWhile_append_of_pos longest.within]
  cases rest with
  | nil => rfl
  | cons c rest => simp [longest.ends c rfl]

/-- A text starts with one longest run of allowed characters. -/
theorem IsLongestRun.unique {run' rest' : List Char} (longest : IsLongestRun allowed run rest)
    (longest' : IsLongestRun allowed run' rest') (same : run ++ rest = run' ++ rest') :
    run = run' ∧ rest = rest' := by
  constructor
  · rw [← longest.takeWhile_eq, ← longest'.takeWhile_eq, same]
  · rw [← longest.dropWhile_eq, ← longest'.dropWhile_eq, same]

/-- A run without a mark goes on up to the mark. -/
theorem IsLongestRun.up_to {mark : Char} (absent : mark ∉ run) (ends : ∀ c ∈ rest.head?, c = mark) :
    IsLongestRun (· ≠ mark) run rest where
  within _ member := decide_eq_true fun same => absent (same ▸ member)
  ends c front := decide_eq_false (not_not_intro (ends c front))

/-- Every text starts with a longest run of allowed characters. -/
theorem exists_longestRun (allowed : Char → Bool) (text : List Char) :
    ∃ run rest, text = run ++ rest ∧ IsLongestRun allowed run rest := by
  refine ⟨text.takeWhile allowed, text.dropWhile allowed, List.takeWhile_append_dropWhile.symm, ?_⟩
  refine ⟨fun c member => List.mem_takeWhile_imp member, fun c front => ?_⟩
  have ends := List.head?_dropWhile_not allowed text
  rwa [Option.mem_def.1 front] at ends

end Runs

section Gaps

variable {comment gap rest text : List Char}

/-- Lines end with a carriage return or a line feed. -/
theorem isLineEnd_iff {c : Char} : isLineEnd c = true ↔ c = '\r' ∨ c = '\n' := by
  simp [isLineEnd]

/-- No digit ends a line. -/
theorem isLineEnd_of_isDigit {c : Char} (isDigit : c.isDigit = true) : isLineEnd c = false := by
  refine Bool.eq_false_iff.2 fun lineEnd => ?_
  rcases isLineEnd_iff.1 lineEnd with rfl | rfl
  · exact absurd isDigit (by decide)
  · exact absurd isDigit (by decide)

/-- A comment opens with two slashes. -/
theorem opensComment_cons {c : Char} {rest : List Char} :
    OpensComment (c :: rest) ↔ c = '/' ∧ rest.head? = some '/' := by
  cases rest <;> simp [OpensComment, List.cons_prefix_cons, eq_comm]

/-- A comment is two slashes and what stands behind them on the line. -/
theorem isComment_iff {comment rest : List Char} : IsComment comment rest ↔
    ∃ run, comment = '/' :: '/' :: run ∧ IsLongestRun (!isLineEnd ·) run rest := by
  constructor
  · rintro ⟨⟨run, rfl⟩, within, ends⟩
    exact ⟨run, rfl, fun c member => within c (List.mem_append_right _ member), ends⟩
  · rintro ⟨run, rfl, within, ends⟩
    refine ⟨⟨run, rfl⟩, fun c member => ?_, ends⟩
    rcases List.mem_cons.1 member with rfl | member
    · rfl
    · rcases List.mem_cons.1 member with rfl | member
      · rfl
      · exact within c member

/-- A text that opens a comment starts with a comment. -/
theorem exists_comment (opens : OpensComment text) :
    ∃ comment rest, text = comment ++ rest ∧ IsComment comment rest := by
  obtain ⟨behind, rfl⟩ := opens
  obtain ⟨run, rest, rfl, longest⟩ := exists_longestRun (!isLineEnd ·) behind
  exact ⟨'/' :: '/' :: run, rest, rfl, isComment_iff.2 ⟨run, rfl, longest⟩⟩

/-- A gap ends at the end of the text. -/
theorem endsGap_nil : EndsGap [] :=
  ⟨by simp, by simp [OpensComment]⟩

/-- A gap ends in front of a character that is neither a blank nor a slash. -/
theorem endsGap_cons {c : Char} (blank : isBlank c = false) (slash : c ≠ '/') :
    EndsGap (c :: rest) :=
  ⟨by simpa using blank, fun opens => slash (opensComment_cons.1 opens).1⟩

/-- A gap ends at the end of a line. -/
theorem endsGap_of_lineEnd {c : Char} (lineEnd : isLineEnd c = true) : EndsGap (c :: rest) := by
  rcases isLineEnd_iff.1 lineEnd with rfl | rfl
  · exact endsGap_cons rfl (by decide)
  · exact endsGap_cons rfl (by decide)

/-- Behind a comment no gap goes on. -/
theorem IsComment.endsGap (wrote : IsComment comment rest) : EndsGap rest := by
  cases rest with
  | nil => exact endsGap_nil
  | cons c rest => exact endsGap_of_lineEnd (by simpa using wrote.longest.ends c rfl)

/-- The length of a comment is found. -/
theorem commentLength_of_isComment (wrote : IsComment comment rest) :
    commentLength (comment ++ rest) = comment.length := by
  obtain ⟨run, rfl, longest⟩ := isComment_iff.1 wrote
  simp only [commentLength, List.cons_append, longest.takeWhile_eq, List.length_cons]
  omega

/-- Where no comment opens its length is zero. -/
theorem commentLength_of_not_opensComment (plain : ¬OpensComment text) : commentLength text = 0 := by
  unfold commentLength
  split
  · exact absurd ⟨_, rfl⟩ plain
  · rfl

/-- The measured gap is the gap. -/
theorem gapLength_of_isGap (wrote : IsGap gap rest) (ends : EndsGap rest) :
    gapLength (gap ++ rest) = gap.length := by
  unfold gapLength
  cases wrote with
  | blanks blank =>
    have longest : IsLongestRun isBlank gap rest := ⟨blank, ends.blank⟩
    rw [longest.takeWhile_eq, longest.dropWhile_eq, commentLength_of_not_opensComment ends.comment]
    rfl
  | @comment blanks comment _ blank wrote =>
    have longest : IsLongestRun isBlank blanks (comment ++ rest) := by
      obtain ⟨run, rfl, -⟩ := isComment_iff.1 wrote
      exact ⟨blank, by simp [isBlank]⟩
    rw [List.append_assoc, longest.takeWhile_eq, longest.dropWhile_eq,
      commentLength_of_isComment wrote, List.length_append]

/-- Where no gap goes on, the gap is empty. -/
theorem IsGap.eq_nil (wrote : IsGap gap rest) (ends : EndsGap rest) (ends' : EndsGap (gap ++ rest)) :
    gap = [] := by
  have measured := gapLength_of_isGap (.blanks (by simp) : IsGap [] (gap ++ rest)) ends'
  rw [List.nil_append, gapLength_of_isGap wrote ends] at measured
  exact List.length_eq_zero_iff.1 measured

/-- Every text starts with a gap behind which no gap goes on. -/
theorem exists_gap (text : List Char) :
    ∃ gap rest, text = gap ++ rest ∧ IsGap gap rest ∧ EndsGap rest := by
  obtain ⟨blanks, behind, rfl, blank, ends⟩ := exists_longestRun isBlank text
  by_cases opens : OpensComment behind
  · obtain ⟨comment, rest, rfl, wrote⟩ := exists_comment opens
    exact ⟨blanks ++ comment, rest, (List.append_assoc ..).symm, .comment blank wrote, wrote.endsGap⟩
  · exact ⟨blanks, behind, rfl, .blanks blank, ends, opens⟩

end Gaps

section Layouts

variable {layout run rest text : List Char}

/-- Within a comment a line break goes on up to the end of the line, and then as outside. -/
theorem breakLength_in_comment (longest : IsLongestRun (!isLineEnd ·) run rest) :
    breakLength true (run ++ rest) = run.length + breakLength false rest := by
  obtain ⟨within, ends⟩ := longest
  induction run with
  | nil =>
    cases rest with
    | nil => rfl
    | cons c rest =>
      have lineEnd : isLineEnd c = true := by simpa using ends c rfl
      simp [breakLength, lineEnd]
  | cons c run ih =>
    have inside : isLineEnd c = false := by simpa using within c List.mem_cons_self
    have behind := ih fun c member => within c (List.mem_cons_of_mem _ member)
    simp only [List.cons_append, breakLength, inside, Bool.false_eq_true, if_false, if_true, behind,
      List.length_cons]
    omega

/-- The measured line break is the layout. -/
theorem breakLength_of_isLayout (wrote : IsLayout layout rest) (ends : EndsLayout rest) :
    breakLength false (layout ++ rest) = layout.length := by
  induction wrote with
  | @nil rest =>
    cases rest with
    | nil => rfl
    | cons c rest =>
      have plain := opensComment_cons.not.1 ends.comment
      simp [breakLength, ends.lineEnd c rfl, ends.blank c rfl, plain]
  | @space c layout rest free _ ih =>
    rw [List.cons_append, breakLength, ih ends, List.length_cons]
    rcases free with blank | lineEnd
    · simp [blank, Nat.add_comm]
    · simp [lineEnd, Nat.add_comm]
  | @comment comment layout rest wrote _ ih =>
    obtain ⟨run, rfl, longest⟩ := isComment_iff.1 wrote
    have inside := breakLength_in_comment longest
    have slash : isLineEnd '/' = false ∧ isBlank '/' = false := by decide
    simp [breakLength, slash, inside, ih ends]
    omega

/-- Every text starts with a layout behind which no layout goes on. -/
theorem exists_layout (text : List Char) :
    ∃ layout rest, text = layout ++ rest ∧ IsLayout layout rest ∧ EndsLayout rest := by
  -- A comment takes many characters at once, so the induction is on the length.
  induction size : text.length using Nat.strong_induction_on generalizing text with
  | _ count ih =>
    obtain _ | ⟨c, behind⟩ := text
    · exact ⟨[], [], rfl, .nil, endsGap_nil, by simp⟩
    · by_cases free : isBlank c = true ∨ isLineEnd c = true
      · obtain ⟨layout, rest, rfl, wrote, ends⟩ := ih behind.length (by simp [← size]) behind rfl
        exact ⟨c :: layout, rest, rfl, .space free wrote, ends⟩
      · by_cases opens : OpensComment (c :: behind)
        · obtain ⟨comment, after, same, wrote⟩ := exists_comment opens
          have shorter : after.length < count := by
            obtain ⟨run, rfl, -⟩ := isComment_iff.1 wrote
            have lengths := congrArg List.length same
            simp only [List.length_append, List.length_cons] at lengths size
            omega
          obtain ⟨layout, rest, rfl, wrote', ends⟩ := ih after.length shorter after rfl
          exact ⟨comment ++ layout, rest, by rw [same, List.append_assoc], .comment wrote wrote', ends⟩
        · obtain ⟨blank, lineEnd⟩ := not_or.1 free
          refine ⟨[], c :: behind, rfl, .nil, ⟨?_, opens⟩, ?_⟩
          · rintro _ ⟨⟩
            exact Bool.eq_false_iff.2 blank
          · rintro _ ⟨⟩
            exact Bool.eq_false_iff.2 lineEnd

end Layouts

section Strings

variable {content rest text : List Char}

/-- The measured string ends behind the first quote that no backslash takes with it. -/
theorem stringLength?_of_isContent (wrote : IsContent content) (rest : List Char) :
    stringLength? (content ++ '"' :: rest) = some (content.length + 1) := by
  induction wrote with
  | nil => rw [List.nil_append, stringLength?] <;> simp
  | @plain c content quote backslash _ ih =>
    rw [List.cons_append, stringLength?, if_neg quote, ih]
    · rfl
    · simp [backslash]
    · simp [backslash]
  | escaped _ ih =>
    rw [List.cons_append, List.cons_append, stringLength?, ih]
    rfl

/-- A measured string is closed. -/
theorem exists_content {length : Nat} (measured : stringLength? text = some length) :
    ∃ content rest, IsContent content ∧ text = content ++ '"' :: rest := by
  fun_induction stringLength? text generalizing length with
  | case1 => cases measured
  | case2 => cases measured
  | case3 c behind ih =>
    obtain ⟨inner, found, -⟩ := Option.map_eq_some_iff.1 measured
    obtain ⟨content, rest, wrote, rfl⟩ := ih found
    exact ⟨'\\' :: c :: content, rest, .escaped wrote, rfl⟩
  | case4 behind => exact ⟨[], behind, .nil, rfl⟩
  | case5 c behind alone taken quote ih =>
    obtain ⟨inner, found, -⟩ := Option.map_eq_some_iff.1 measured
    obtain ⟨content, rest, wrote, rfl⟩ := ih found
    -- A backslash would have taken the next character with it, and there is one.
    have backslash : c ≠ '\\' := by
      cases content with
      | nil => exact fun same => taken _ _ same rfl
      | cons => exact fun same => taken _ _ same rfl
    exact ⟨c :: content, rest, .plain quote backslash wrote, rfl⟩

/-- The length of a string is not found exactly if no quote closes it. -/
theorem stringLength?_eq_none_iff : stringLength? text = none ↔ Unclosed text := by
  constructor
  · rintro unmeasured ⟨content, rest, wrote, rfl⟩
    rw [stringLength?_of_isContent wrote] at unmeasured
    cases unmeasured
  · intro unclosed
    refine Option.eq_none_iff_forall_ne_some.2 fun length measured => unclosed ?_
    exact exists_content measured

end Strings

end Lexeme

namespace Mark

variable {sign : Mark} {text : List Char}

/-- No two marks are written alike. -/
theorem spelling_injective : Function.Injective spelling := by
  have apart : (longestFirst.map spelling).Nodup := by decide
  exact fun sign other =>
    List.inj_on_of_nodup_map apart (mem_longestFirst sign) (mem_longestFirst other)

/-- Marks of two characters are listed in front of those of one. -/
theorem pairwise_longestFirst : longestFirst.Pairwise fun earlier later =>
    later.spelling.length ≤ earlier.spelling.length := by
  decide

/-- No mark starts like a gap, a line break, a string or a number. -/
theorem exists_plain (sign : Mark) :
    ∃ c behind, sign.spelling.toList = c :: behind ∧ Lexeme.IsPlain c := by
  cases sign <;> exact ⟨_, _, rfl, by decide, by decide, by decide, by decide⟩

/-- No mark is found exactly if none stands in front. -/
theorem at?_eq_none_iff : at? text = none ↔ ∀ sign : Mark, ¬sign.spelling.toList <+: text := by
  simp [at?, mem_longestFirst]

/-- The mark that is found is the longest one. -/
theorem isLongest_of_at? (found : at? text = some sign) : sign.IsLongest text := by
  obtain ⟨stands, earlier, later, list, passed⟩ := List.find?_eq_some_iff_append.1 found
  have pairwise := pairwise_longestFirst
  rw [list, List.pairwise_append, List.pairwise_cons] at pairwise
  refine ⟨List.isPrefixOf_iff_prefix.1 stands, fun other stands' => ?_⟩
  have listed : other ∈ earlier ++ sign :: later := list ▸ mem_longestFirst other
  rcases List.mem_append.1 listed with before | behind
  · have absent := passed other before
    rw [List.isPrefixOf_iff_prefix.2 stands'] at absent
    cases absent
  · rcases List.mem_cons.1 behind with rfl | behind
    · exact le_rfl
    · exact pairwise.2.1.1 other behind

/-- A text starts with at most one longest mark. -/
theorem IsLongest.eq {other : Mark} (longest : sign.IsLongest text)
    (longest' : other.IsLongest text) : sign = other := by
  -- Each is at least as long as the other, and both stand at the front of the same text.
  have lengths : sign.spelling.toList.length = other.spelling.toList.length := by
    rw [String.length_toList, String.length_toList]
    exact le_antisymm (longest'.longest sign longest.stands) (longest.longest other longest'.stands)
  have within := List.prefix_of_prefix_length_le longest.stands longest'.stands lengths.le
  exact spelling_injective (String.toList_injective (within.eq_of_length lengths))

/-- The mark that is found is the longest one that stands in front. -/
theorem at?_eq_some_iff : at? text = some sign ↔ sign.IsLongest text := by
  refine ⟨isLongest_of_at?, fun longest => ?_⟩
  cases found : at? text with
  | none => exact absurd longest.stands (at?_eq_none_iff.1 found sign)
  | some other => rw [(isLongest_of_at? found).eq longest]

end Mark

namespace Lexeme

variable {kind : Token.Kind} {text : String} {written rest behind : List Char}

/-- No gap goes on in front of a token. -/
theorem IsLexeme.endsGap (wrote : IsLexeme kind text written rest) : EndsGap (written ++ rest) := by
  have word {first : Char} {run : List Char} (word : IsWord first run rest) :
      EndsGap (first :: (run ++ rest)) := by
    refine endsGap_cons word.blank ?_
    rintro rfl
    exact word.mark .slash ⟨run ++ rest, rfl⟩
  cases wrote with
  | eof => exact endsGap_nil
  | lineBreak lineEnd => exact endsGap_of_lineEnd lineEnd
  | string => exact endsGap_cons rfl (by decide)
  | @number digit _ _ isDigit =>
    refine endsGap_cons (Bool.eq_false_iff.2 fun blank => ?_) ?_
    · rcases Bool.or_eq_true_iff.1 blank with same | same
      · exact absurd isDigit (by rw [beq_iff_eq.1 same]; decide)
      · exact absurd isDigit (by rw [beq_iff_eq.1 same]; decide)
    · rintro rfl
      exact absurd isDigit (by decide)
  | @mark sign _ unopened longest =>
    obtain ⟨c, behind, spelled, plain⟩ := sign.exists_plain
    exact ⟨by simpa [spelled] using plain.blank, unopened⟩
  | keyword wrote => exact word wrote
  | identifier wrote => exact word wrote

/-- The recognised kind, length and text are those of the token. -/
theorem lexeme?_of_isLexeme (wrote : IsLexeme kind text written rest) :
    lexeme? (written ++ rest) = some (kind, written.length) ∧ tokenText written kind = text := by
  cases wrote with
  | eof => exact ⟨rfl, rfl⟩
  | @lineBreak first layout _ lineEnd wrote ends =>
    have measured := breakLength_of_isLayout wrote ends
    rw [List.cons_append] at measured ⊢
    exact ⟨by simp [lexeme?, lineEnd, measured], rfl⟩
  | @string content _ wrote =>
    have measured := stringLength?_of_isContent wrote rest
    constructor
    · simp [lexeme?, isLineEnd, measured]
    · simp [tokenText]
  | @number digit run _ isDigit longest =>
    have lineEnd := isLineEnd_of_isDigit isDigit
    have quote : digit ≠ '"' := by
      rintro rfl
      exact absurd isDigit (by decide)
    refine ⟨?_, rfl⟩
    simp [lexeme?, lineEnd, quote, isDigit, longest.takeWhile_eq, Nat.add_comm]
  | @mark sign _ unopened longest =>
    obtain ⟨c, behind, spelled, plain⟩ := sign.exists_plain
    have found := Mark.at?_eq_some_iff.2 longest
    have length : sign.spelling.length = (c :: behind).length := by
      rw [← spelled, String.length_toList]
    refine ⟨?_, String.ofList_toList⟩
    rw [spelled, List.cons_append] at found ⊢
    simp [lexeme?, plain.lineEnd, plain.quote, plain.digit, found, length]
  | @keyword keyword first run _ word spelled =>
    have reserved := Keyword.ofSpelling?_spelling keyword
    rw [spelled] at reserved
    refine ⟨?_, rfl⟩
    simp only [List.cons_append, lexeme?, word.lineEnd, word.quote, word.digit,
      Mark.at?_eq_none_iff.2 word.mark, word.longest.takeWhile_eq, reserved, Bool.false_eq_true,
      if_false]
  | @identifier first run _ word unspelled =>
    have unreserved : Keyword.ofSpelling? (String.ofList (first :: run)) = none :=
      Option.eq_none_iff_forall_ne_some.2 fun keyword found =>
        unspelled keyword (Keyword.spelling_of_ofSpelling? found)
    refine ⟨?_, rfl⟩
    simp only [List.cons_append, lexeme?, word.lineEnd, word.quote, word.digit,
      Mark.at?_eq_none_iff.2 word.mark, word.longest.takeWhile_eq, unreserved, Bool.false_eq_true,
      if_false]

/-- A string that is not closed is refused. -/
theorem lexeme?_of_unclosed (unclosed : Unclosed behind) : lexeme? ('"' :: behind) = none := by
  have unmeasured := stringLength?_eq_none_iff.2 unclosed
  simp [lexeme?, isLineEnd, unmeasured]

/-- A plain character starts a token. -/
theorem exists_lexeme_of_isPlain {c : Char} (plain : IsPlain c)
    (unopened : ¬OpensComment (c :: behind)) :
    ∃ kind shown written rest, c :: behind = written ++ rest ∧ IsLexeme kind shown written rest := by
  cases found : Mark.at? (c :: behind) with
  | some sign =>
    have longest := Mark.at?_eq_some_iff.1 found
    obtain ⟨rest, same⟩ := longest.stands
    rw [← same] at longest unopened
    exact ⟨_, _, _, rest, same.symm, .mark unopened longest⟩
  | none =>
    obtain ⟨run, rest, rfl, longest⟩ := exists_longestRun isIdentifierPart behind
    have word : IsWord c run rest := ⟨plain, Mark.at?_eq_none_iff.1 found, longest⟩
    by_cases reserved : ∃ keyword : Keyword, keyword.spelling = String.ofList (c :: run)
    · obtain ⟨keyword, spelled⟩ := reserved
      exact ⟨_, _, c :: run, rest, rfl, .keyword word spelled⟩
    · exact ⟨_, _, c :: run, rest, rfl, .identifier word (not_exists.1 reserved)⟩

/-- A text in front of which no gap goes on starts with a token, or with a string that is not
closed. -/
theorem exists_lexeme {text : List Char} (ends : EndsGap text) :
    (∃ kind shown written rest, text = written ++ rest ∧ IsLexeme kind shown written rest) ∨
      ∃ behind, text = '"' :: behind ∧ Unclosed behind := by
  obtain _ | ⟨c, behind⟩ := text
  · exact .inl ⟨_, _, [], [], rfl, .eof⟩
  · by_cases lineEnd : isLineEnd c = true
    · obtain ⟨layout, rest, rfl, wrote, ends'⟩ := exists_layout behind
      exact .inl ⟨_, _, c :: layout, rest, rfl, .lineBreak lineEnd (.space (.inr lineEnd) wrote) ends'⟩
    · by_cases quote : c = '"'
      · subst quote
        by_cases closed : ∃ content rest, IsContent content ∧ behind = content ++ '"' :: rest
        · obtain ⟨content, rest, wrote, rfl⟩ := closed
          exact .inl ⟨_, _, '"' :: content ++ ['"'], rest, by simp, .string wrote⟩
        · exact .inr ⟨behind, rfl, closed⟩
      · by_cases digit : c.isDigit = true
        · obtain ⟨run, rest, rfl, longest⟩ := exists_longestRun isNumberPart behind
          exact .inl ⟨_, _, c :: run, rest, rfl, .number digit longest⟩
        · have plain : IsPlain c := ⟨ends.blank c rfl, Bool.eq_false_iff.2 lineEnd, quote,
            Bool.eq_false_iff.2 digit⟩
          exact .inl (exists_lexeme_of_isPlain plain ends.comment)

end Lexeme

end ScriptLang

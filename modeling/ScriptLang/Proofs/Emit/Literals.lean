import ScriptLang.Proofs.Emit.Numbers
import ScriptLang.Proofs.Token.Numerals

/-!
# Literals of the target languages

A number is printed as it is written, except that C gets decimal digits for the marks and underscores
that it does not know. `Dialect.integer?` is the grammar of the integer literals of C and of Go. Both
read a zero that other digits follow as the mark of base eight, and decimal numerals may start with
such zeros: the printed literal denotes the number unless it keeps a leading zero and the number is
eight or more.
-/

namespace ScriptLang

namespace Numeral

/-- The value of digits between which single underscores may stand. -/
def grouped? (base : Base) (run : List Char) : Option Nat :=
  (digits? base run).map (positional base)

/-- The value of digits without underscores. -/
def plain? (base : Base) (run : List Char) : Option Nat :=
  if '_' ∈ run then none else grouped? base run

/-- The value of digits behind a mark, where an underscore may stand in front of them too. -/
def marked? (base : Base) : List Char → Option Nat
  | '_' :: run => grouped? base run
  | run => grouped? base run

/-- What an integer literal of C denotes. -/
def cInteger? : List Char → Option Nat
  | '0' :: 'x' :: run => plain? .hexadecimal run
  | '0' :: 'X' :: run => plain? .hexadecimal run
  | '0' :: next :: run => plain? .octal (next :: run)
  | run => plain? .decimal run

/-- What an integer literal of Go denotes. -/
def goInteger? : List Char → Option Nat
  | '0' :: 'x' :: run => marked? .hexadecimal run
  | '0' :: 'X' :: run => marked? .hexadecimal run
  | '0' :: 'o' :: run => marked? .octal run
  | '0' :: 'O' :: run => marked? .octal run
  | '0' :: 'b' :: run => marked? .binary run
  | '0' :: 'B' :: run => marked? .binary run
  | '0' :: next :: run => marked? .octal (next :: run)
  | run => grouped? .decimal run

end Numeral

namespace Dialect

/-- What a text denotes as an integer literal of the language; `none` if it is none. -/
def integer? (dialect : Dialect) (text : String) : Option Nat :=
  match dialect with
  | c => Numeral.cInteger? text.toList
  | go => Numeral.goInteger? text.toList

/-- The text is an integer literal of the language that denotes the word. -/
def Denotes (dialect : Dialect) (text : String) (value : Word) : Prop :=
  ∃ count, dialect.integer? text = some count ∧ value.toInt = count

/-- A numeral starts with a zero in front of other digits, and the dialect prints it as it is
written. -/
def KeepsLeadingZero (dialect : Dialect) (literal : String) : Prop :=
  ∃ next run, literal.toList = '0' :: next :: run ∧ (next.isDigit = true ∨ next = '_') ∧
    (dialect = c → '_' ∉ literal.toList)

end Dialect

namespace Numeral

variable {base : Base} {run : List Char} {digit count : Nat} {digits : List Nat} {c : Char}

/-- A grouped number is the positional value of digits that the text spells. -/
theorem grouped?_eq_some_iff : grouped? base run = some count ↔
    ∃ digits, Spells base run digits ∧ positional base digits = count := by
  constructor
  · intro denotes
    obtain ⟨digits, spelled, value⟩ := Option.map_eq_some_iff.1 denotes
    exact ⟨digits, spells_of_digits? spelled, value⟩
  · rintro ⟨digits, spells, rfl⟩
    rw [grouped?, digits?_of_spells spells]
    rfl

/-- A zero in front does not change the value. -/
theorem positional_zero_cons (base : Base) (digits : List Nat) :
    positional base (0 :: digits) = positional base digits := by
  simp [positional]

/-- In a larger base digits count for more. -/
theorem positional_octal_le (digits : List Nat) :
    positional .octal digits ≤ positional .decimal digits := by
  induction digits using List.reverseRecOn with
  | nil => exact le_rfl
  | append_singleton digits digit ih =>
    rw [positional_concat, positional_concat, Base.radix, Base.radix]
    omega

/-- Base eight and base ten give digits the same value only if the value is a single digit. -/
theorem positional_octal_eq_iff (small : ∀ digit ∈ digits, digit < 8) :
    positional .octal digits = positional .decimal digits ↔ positional .decimal digits < 8 := by
  induction digits using List.reverseRecOn with
  | nil => simp [positional]
  | append_singleton digits digit ih =>
    have last : digit < 8 := small digit (by simp)
    have smaller := positional_octal_le digits
    rw [positional_concat, positional_concat, Base.radix, Base.radix]
    omega

/-- No digit is above the value. -/
theorem le_positional : ∀ digit ∈ digits, digit ≤ positional .decimal digits := by
  induction digits using List.reverseRecOn with
  | nil => simp
  | append_singleton digits last ih =>
    intro digit member
    rw [positional_concat, Base.radix]
    rcases List.mem_append.1 member with member | member
    · have := ih digit member
      omega
    · have := List.mem_singleton.1 member
      omega

/-- The octal digits are the decimal digits below eight. -/
theorem digit?_octal_eq_some_iff : Base.octal.digit? c = some digit ↔
    Base.decimal.digit? c = some digit ∧ digit < 8 := by
  simp only [digit?_eq_some_iff, Base.radix]
  constructor
  · rintro ⟨read, small⟩
    exact ⟨⟨read, by omega⟩, small⟩
  · rintro ⟨⟨read, -⟩, small⟩
    exact ⟨read, small⟩

/-- The digits of base eight are those of base ten but for the last two. -/
theorem spells_octal_iff : Spells .octal run digits ↔
    Spells .decimal run digits ∧ ∀ digit ∈ digits, digit < 8 := by
  constructor
  · intro spells
    induction spells with
    | single read =>
      obtain ⟨read, small⟩ := digit?_octal_eq_some_iff.1 read
      exact ⟨.single read, by simpa using small⟩
    | next read _ ih =>
      obtain ⟨read, small⟩ := digit?_octal_eq_some_iff.1 read
      exact ⟨.next read ih.1, List.forall_mem_cons.2 ⟨small, ih.2⟩⟩
    | spaced read _ ih =>
      obtain ⟨read, small⟩ := digit?_octal_eq_some_iff.1 read
      exact ⟨.spaced read ih.1, List.forall_mem_cons.2 ⟨small, ih.2⟩⟩
  · rintro ⟨spells, small⟩
    induction spells with
    | single read => exact .single (digit?_octal_eq_some_iff.2 ⟨read, by simpa using small⟩)
    | next read _ ih =>
      obtain ⟨first, others⟩ := List.forall_mem_cons.1 small
      exact .next (digit?_octal_eq_some_iff.2 ⟨read, first⟩) (ih others)
    | spaced read _ ih =>
      obtain ⟨first, others⟩ := List.forall_mem_cons.1 small
      exact .spaced (digit?_octal_eq_some_iff.2 ⟨read, first⟩) (ih others)

/-- Digits of base ten keep their value in base eight only if it is below eight. -/
theorem grouped?_octal_iff (spells : Spells .decimal run digits) :
    grouped? .octal run = some (positional .decimal digits) ↔ positional .decimal digits < 8 := by
  rw [grouped?_eq_some_iff]
  constructor
  · rintro ⟨digits', spells', same⟩
    obtain ⟨spells', small⟩ := spells_octal_iff.1 spells'
    obtain rfl : digits' = digits :=
      Option.some.inj ((digits?_of_spells spells').symm.trans (digits?_of_spells spells))
    exact (positional_octal_eq_iff small).1 same
  · intro single
    have small : ∀ digit ∈ digits, digit < 8 := fun digit member =>
      (le_positional digit member).trans_lt single
    exact ⟨digits, spells_octal_iff.2 ⟨spells, small⟩, (positional_octal_eq_iff small).2 single⟩

/-- Behind a leading zero there is nothing, or there are the digits that count. -/
theorem Spells.of_zero (spells : Spells .decimal ('0' :: run) digits) :
    run = [] ∧ positional .decimal digits = 0 ∨
      ∃ others behind, Spells .decimal behind others ∧ (run = behind ∨ run = '_' :: behind) ∧
        positional .decimal digits = positional .decimal others := by
  have zero : Base.decimal.digit? '0' = some 0 := rfl
  cases spells with
  | single read =>
    cases zero.symm.trans read
    exact .inl ⟨rfl, rfl⟩
  | next read spells =>
    cases zero.symm.trans read
    exact .inr ⟨_, _, spells, .inl rfl, positional_zero_cons ..⟩
  | spaced read spells =>
    cases zero.symm.trans read
    exact .inr ⟨_, _, spells, .inr rfl, positional_zero_cons ..⟩

/-- Without underscores there is nothing to be grouped. -/
theorem plain?_eq_grouped? (joined : '_' ∉ run) : plain? base run = grouped? base run :=
  if_neg joined

/-- Digits are read behind a mark, with or without an underscore in front of them. -/
theorem marked?_of_spells (spells : Spells base run digits) (other : Base) :
    marked? other run = grouped? other run ∧ marked? other ('_' :: run) = grouped? other run := by
  obtain ⟨first, behind, _, rfl, read⟩ := spells.exists_cons
  refine ⟨?_, rfl⟩
  rw [marked?]
  rintro _ ⟨⟩
  exact ne_underscore_of_digit? read rfl

/-- The value of digits that are spelled is their positional value. -/
theorem grouped?_of_spells (spells : Spells base run digits) :
    grouped? base run = some (positional base digits) :=
  grouped?_eq_some_iff.2 ⟨digits, spells, rfl⟩

/-- The digits of a number are no zero in front of others. -/
theorem toDigits_ne_zero_cons (count : Nat) (next : Char) (run : List Char) :
    Nat.toDigits 10 count ≠ '0' :: next :: run := by
  induction count using Nat.strong_induction_on generalizing next run with
  | _ count ih =>
    intro same
    by_cases small : count < 10
    · have alone := congrArg List.length same
      rw [Nat.toDigits_of_lt_base small] at alone
      cases alone
    · have smaller : count / 10 < count := by omega
      rw [Nat.toDigits_of_base_le (by decide) (by omega)] at same
      cases digits : Nat.toDigits 10 (count / 10) with
      | nil => exact Nat.toDigits_ne_nil digits
      | cons first others =>
        rw [digits] at same
        obtain ⟨rfl, -⟩ := List.cons.inj same
        cases others with
        | nil =>
          have value := @Nat.ofDigitChars_ten_toDigits (count / 10)
          rw [digits] at value
          have zero : Nat.ofDigitChars 10 ['0'] 0 = 0 := rfl
          omega
        | cons other others => exact ih _ smaller other others digits

/-- The decimal digits of a number are read back in C and in Go. -/
theorem integer?_toDigits (count : Nat) :
    cInteger? (Nat.toDigits 10 count) = some count ∧
      goInteger? (Nat.toDigits 10 count) = some count := by
  have digits := isDigit_of_mem_toDigits count
  have value : grouped? .decimal (Nat.toDigits 10 count) = some count := by
    rw [grouped?, digits?_of_isDigit Nat.toDigits_ne_nil digits, Option.map_some,
      positional_map_digitValue, Nat.ofDigitChars_ten_toDigits]
  have joined : '_' ∉ Nat.toDigits 10 count := Nat.underscore_not_in_toDigits
  have apart (next : Char) (run : List Char) := toDigits_ne_zero_cons count next run
  constructor
  · rw [cInteger?, plain?_eq_grouped? joined, value]
    all_goals
      intros
      exact apart _ _ ‹_›
  · rw [goInteger?, value]
    all_goals
      intros
      exact apart _ _ ‹_›

/-- What is a digit or an underscore is no other character. -/
theorem ne_of_isDigit_or_underscore {other : Char} (plain : c.isDigit = true ∨ c = '_')
    (letter : other.isDigit = false) (apart : other ≠ '_') : c ≠ other := by
  rcases plain with isDigit | rfl
  · exact ne_of_isDigit isDigit letter
  · exact apart.symm

/-- A zero stands in front of other characters. -/
def LeadingZero (run : List Char) : Prop :=
  ∃ next behind, run = '0' :: next :: behind

/-- C reads a decimal numeral without underscores as it is meant, unless a leading zero makes it octal
and it is eight or more. -/
theorem cInteger?_iff (spells : Spells .decimal run digits) (joined : '_' ∉ run) :
    cInteger? run = some (positional .decimal digits) ↔
      ¬(LeadingZero run ∧ 8 ≤ positional .decimal digits) := by
  by_cases leads : LeadingZero run
  · rw [and_iff_right leads, not_le]
    obtain ⟨next, behind, rfl⟩ := leads
    have plain := spells.isDigit_or_underscore next (by simp)
    have joined' : '_' ∉ next :: behind := fun member => joined (List.mem_cons_of_mem _ member)
    have octal : cInteger? ('0' :: next :: behind) = grouped? .octal (next :: behind) := by
      rw [cInteger?, plain?_eq_grouped? joined']
      all_goals exact ne_of_isDigit_or_underscore plain rfl (by decide)
    rcases spells.of_zero with ⟨nothing, -⟩ | ⟨others, rest, spells', rfl | same, value⟩
    · cases nothing
    · rw [octal, value, grouped?_octal_iff spells']
    · simp [same] at joined'
  · have decimal : cInteger? run = grouped? .decimal run := by
      rw [cInteger?, plain?_eq_grouped? joined]
      all_goals
        intros
        exact leads ⟨_, _, ‹_›⟩
    simp [decimal, grouped?_of_spells spells, leads]

/-- Go reads a decimal numeral as it is meant, unless a leading zero makes it octal and it is eight or
more. -/
theorem goInteger?_iff (spells : Spells .decimal run digits) :
    goInteger? run = some (positional .decimal digits) ↔
      ¬(LeadingZero run ∧ 8 ≤ positional .decimal digits) := by
  by_cases leads : LeadingZero run
  · rw [and_iff_right leads, not_le]
    obtain ⟨next, behind, rfl⟩ := leads
    have plain := spells.isDigit_or_underscore next (by simp)
    have octal : goInteger? ('0' :: next :: behind) = marked? .octal (next :: behind) := by
      rw [goInteger?]
      all_goals exact ne_of_isDigit_or_underscore plain rfl (by decide)
    rcases spells.of_zero with ⟨nothing, -⟩ | ⟨others, rest, spells', same, value⟩
    · cases nothing
    · have behindMark : marked? .octal (next :: behind) = grouped? .octal rest := by
        rcases same with same | same
        · rw [same, (marked?_of_spells spells' .octal).1]
        · rw [same, (marked?_of_spells spells' .octal).2]
      rw [octal, behindMark, value, grouped?_octal_iff spells']
  · have decimal : goInteger? run = grouped? .decimal run := by
      rw [goInteger?]
      all_goals
        intros
        exact leads ⟨_, _, ‹_›⟩
    simp [decimal, grouped?_of_spells spells, leads]

end Numeral

namespace Dialect

open Numeral

variable {dialect : Dialect} {literal : String} {value : Word} {count : Nat}

/-- A text denotes a word exactly if it is an integer literal of its value. -/
theorem denotes_iff (counts : value.toInt = count) {text : String} :
    dialect.Denotes text value ↔ dialect.integer? text = some count := by
  constructor
  · rintro ⟨count', read, counts'⟩
    obtain rfl : count = count' := by omega
    exact read
  · exact fun read => ⟨count, read, counts⟩

/-- Both languages read the decimal digits of a word. -/
theorem denotes_decimal (counts : value.toInt = count) (dialect : Dialect) :
    dialect.Denotes (Word.decimal value) value := by
  have shown : (Word.decimal value).toList = Nat.toDigits 10 count := by
    rw [Word.decimal, counts]
    change count.repr.toList = _
    rw [Nat.repr_eq_ofList_toDigits, String.toList_ofList]
  rw [denotes_iff counts]
  cases dialect with
  | c => exact (congrArg _ shown).trans (integer?_toDigits count).1
  | go => exact (congrArg _ shown).trans (integer?_toDigits count).2

/-- A literal that the language of the output does not read has a mark for another base or an
underscore. -/
theorem isForeignNumber_iff : isForeignNumber literal = true ↔
    (∃ mark run, literal.toList = '0' :: mark :: run ∧ mark ∈ ['o', 'O', 'b', 'B']) ∨
      '_' ∈ literal.toList := by
  unfold isForeignNumber
  rw [Bool.or_eq_true, List.contains_iff_mem]
  refine or_congr_left ?_
  split
  · rename_i mark run same
    simp [same, or_assoc]
  · rename_i other
    refine ⟨nofun, ?_⟩
    rintro ⟨mark, run, same, -⟩
    exact absurd same (other mark run)

/-- Of a numeral with another base the zero belongs to the mark. -/
theorem not_keepsLeadingZero {letter : Char} {run : List Char}
    (written : literal.toList = '0' :: letter :: run) (isLetter : letter.isDigit = false)
    (apart : letter ≠ '_') : ¬dialect.KeepsLeadingZero literal := by
  rintro ⟨next, behind, same, plain, -⟩
  obtain ⟨-, same⟩ := List.cons.inj (written.symm.trans same)
  obtain ⟨rfl, -⟩ := List.cons.inj same
  rcases plain with isDigit | rfl
  · rw [isLetter] at isDigit
    cases isDigit
  · exact apart rfl

/-- Numerals that C gets in decimal digits keep no zero. -/
theorem not_keepsLeadingZero_of_isForeignNumber (foreign : isForeignNumber literal = true) :
    ¬c.KeepsLeadingZero literal := by
  rcases isForeignNumber_iff.1 foreign with ⟨mark, run, written, listed⟩ | spaced
  · have table : ['o', 'O', 'b', 'B'].all (fun mark => !mark.isDigit && mark != '_') = true := by
      decide
    obtain ⟨isLetter, apart⟩ : mark.isDigit = false ∧ mark ≠ '_' := by
      simpa using List.all_eq_true.1 table mark listed
    exact not_keepsLeadingZero written isLetter apart
  · rintro ⟨-, -, -, -, joined⟩
    exact joined rfl spaced

/-- A decimal numeral that is printed as it is written keeps its leading zero. -/
theorem keepsLeadingZero_iff {digits : List Nat} (spells : Spells .decimal literal.toList digits)
    (joined : dialect = c → '_' ∉ literal.toList) :
    dialect.KeepsLeadingZero literal ↔ LeadingZero literal.toList := by
  constructor
  · rintro ⟨next, behind, written, -⟩
    exact ⟨next, behind, written⟩
  · rintro ⟨next, behind, written⟩
    refine ⟨next, behind, written, spells.isDigit_or_underscore next ?_, joined⟩
    simp [written]

/-- C reads a printed number as the word that it stands for, unless it keeps a leading zero. -/
theorem c_denotes_iff (denotes : value? literal = some value) :
    c.Denotes (c.number literal value) value ↔ ¬(c.KeepsLeadingZero literal ∧ 8 ≤ value.toInt) := by
  obtain ⟨base, mark, listed, run, digits, written, spells, counts⟩ := exists_spells denotes
  by_cases foreign : isForeignNumber literal = true
  · rw [number, if_pos foreign]
    exact iff_of_true (denotes_decimal counts c)
      (fun keeps => not_keepsLeadingZero_of_isForeignNumber foreign keeps.1)
  · rw [number, if_neg foreign, denotes_iff counts, counts, integer?]
    obtain ⟨unmarked, joined⟩ := not_or.1 (isForeignNumber_iff.not.1 foreign)
    cases base with
    | binary =>
      obtain rfl := List.mem_singleton.1 listed
      exact absurd ⟨_, _, written, by decide⟩ unmarked
    | octal =>
      obtain rfl := List.mem_singleton.1 listed
      exact absurd ⟨_, _, written, by decide⟩ unmarked
    | decimal =>
      obtain rfl := List.mem_singleton.1 listed
      obtain rfl : literal.toList = run := written
      rw [cInteger?_iff spells joined, keepsLeadingZero_iff spells fun _ => joined]
      norm_cast
    | hexadecimal =>
      have joined' : '_' ∉ run := fun member => joined (written ▸ List.mem_append_right _ member)
      have whole : plain? .hexadecimal run = some (positional .hexadecimal digits) := by
        rw [plain?_eq_grouped? joined', grouped?_of_spells spells]
      rcases List.mem_pair.1 listed with rfl | rfl
      · exact iff_of_true ((congrArg cInteger? written).trans whole)
          (fun keeps => not_keepsLeadingZero written rfl (by decide) keeps.1)
      · exact iff_of_true ((congrArg cInteger? written).trans whole)
          (fun keeps => not_keepsLeadingZero written rfl (by decide) keeps.1)

/-- Go reads a printed number as the word that it stands for, unless it keeps a leading zero. -/
theorem go_denotes_iff (denotes : value? literal = some value) :
    go.Denotes (go.number literal value) value ↔
      ¬(go.KeepsLeadingZero literal ∧ 8 ≤ value.toInt) := by
  obtain ⟨base, mark, listed, run, digits, written, spells, counts⟩ := exists_spells denotes
  rw [number, denotes_iff counts, counts, integer?]
  have behindMark {letter : Char} (written : literal.toList = '0' :: letter :: run)
      (isLetter : letter.isDigit = false) (apart : letter ≠ '_')
      (reads : goInteger? ('0' :: letter :: run) = marked? base run) :
      goInteger? literal.toList = some (positional base digits) ↔
        ¬(go.KeepsLeadingZero literal ∧ 8 ≤ (positional base digits : Int)) := by
    refine iff_of_true ?_ fun keeps => not_keepsLeadingZero written isLetter apart keeps.1
    rw [written, reads, (marked?_of_spells spells base).1, grouped?_of_spells spells]
  cases base with
  | binary =>
    obtain rfl := List.mem_singleton.1 listed
    exact behindMark written rfl (by decide) rfl
  | octal =>
    obtain rfl := List.mem_singleton.1 listed
    exact behindMark written rfl (by decide) rfl
  | decimal =>
    obtain rfl := List.mem_singleton.1 listed
    obtain rfl : literal.toList = run := written
    have unasked : go = c → '_' ∉ literal.toList := fun same => by cases same
    rw [goInteger?_iff spells, keepsLeadingZero_iff spells unasked]
    norm_cast
  | hexadecimal =>
    rcases List.mem_pair.1 listed with rfl | rfl
    · exact behindMark written rfl (by decide) rfl
    · exact behindMark written rfl (by decide) rfl

/-- A printed number is an integer literal of the language that denotes the word which the number
stands for, unless it is eight or more and keeps a leading zero, which makes it octal. -/
theorem denotes_number_iff (denotes : value? literal = some value) (dialect : Dialect) :
    dialect.Denotes (dialect.number literal value) value ↔
      ¬(dialect.KeepsLeadingZero literal ∧ 8 ≤ value.toInt) := by
  cases dialect with
  | c => exact c_denotes_iff denotes
  | go => exact go_denotes_iff denotes

/-- A binary number becomes decimal for C, and Go reads seven behind zeros. -/
theorem denotes_number_iff_binary_and_zeros :
    value? "0b1_010" = some 10 ∧ c.Denotes (c.number "0b1_010" 10) 10 ∧
      value? "00_7" = some 7 ∧ go.Denotes (go.number "00_7" 7) 7 := by
  have binary : value? "0b1_010" = some 10 := by decide
  have seven : value? "00_7" = some 7 := by decide
  refine ⟨binary, (denotes_number_iff binary c).2 fun keeps => ?_, seven,
    (denotes_number_iff seven go).2 fun keeps => absurd keeps.2 (by decide)⟩
  exact not_keepsLeadingZero_of_isForeignNumber (by decide) keeps.1

/-- Not every printed number denotes the word that it stands for. -/
theorem not_denotes_number : ¬∀ (literal : String) (value : Word) (dialect : Dialect),
    value? literal = some value → dialect.Denotes (dialect.number literal value) value := by
  intro keeps
  obtain ⟨count, read, counts⟩ := keeps "010" 10 c (by decide)
  have octal : c.integer? (c.number "010" 10) = some 8 := by decide
  rw [octal] at read
  cases read
  cases counts

end Dialect

end ScriptLang

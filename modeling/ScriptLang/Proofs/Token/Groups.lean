import Mathlib.Data.List.Forall2
import Mathlib.Data.Nat.Digits.Defs
import Mathlib.Tactic.IntervalCases
import ScriptLang.Proofs.Token.Numerals

/-!
# Numerals as groups of digits

A numeral is the mark of its base, and behind it one or more groups of digits with one underscore
between neighbours. `value?_eq_some_iff` says that these are all the texts that denote a number, and
that the number is the positional value of the digits, however many zeros stand in front: a text is
refused for its size only if this value is too large for a word.
-/

namespace ScriptLang.Numeral

/-- The character writes the digit in the base. Letters may be small or capital. -/
def Base.Writes (base : Base) (c : Char) (digit : Nat) : Prop :=
  digit < base.radix ∧ (c = digit.digitChar ∨ c = digit.digitChar.toUpper)

/-- Characters that write digits in the base, in groups with one underscore between neighbours. -/
structure Grouped (base : Base) (groups : List (List Char)) (run : List Char) (digits : List Nat) :
    Prop where
  some_group : groups ≠ []
  some_digit : ∀ group ∈ groups, group ≠ []
  run_eq : run = ['_'].intercalate groups
  writes : List.Forall₂ base.Writes groups.flatten digits

variable {base : Base} {c : Char} {run mark : List Char} {digit : Nat} {digits : List Nat}

/-- A character between two others is found by counting from the lower one. -/
theorem exists_eq_ofNat {low high : Char} (within : low ≤ c ∧ c ≤ high) :
    ∃ count ≤ high.toNat - low.toNat, c = Char.ofNat (low.toNat + count) := by
  have above : low.toNat ≤ c.toNat := within.1
  have below : c.toNat ≤ high.toNat := within.2
  refine ⟨c.toNat - low.toNat, by omega, ?_⟩
  rw [Nat.add_sub_cancel' above, Char.ofNat_toNat]

/-- The digits up to sixteen are the ten decimal digits and six letters, small or capital. -/
theorem hexDigit?_eq_some_iff : hexDigit? c = some digit ↔
    digit < 16 ∧ (c = digit.digitChar ∨ c = digit.digitChar.toUpper) := by
  constructor
  · intro read
    unfold hexDigit? at read
    split_ifs at read with decimal small capital
    · obtain ⟨count, bound, rfl⟩ := exists_eq_ofNat decimal
      cases read
      have bound : count ≤ 9 := bound
      interval_cases count <;> decide
    · obtain ⟨count, bound, rfl⟩ := exists_eq_ofNat small
      cases read
      have bound : count ≤ 5 := bound
      interval_cases count <;> decide
    · obtain ⟨count, bound, rfl⟩ := exists_eq_ofNat capital
      cases read
      have bound : count ≤ 5 := bound
      interval_cases count <;> decide
  · rintro ⟨small, written⟩
    interval_cases digit <;> rcases written with rfl | rfl <;> rfl

/-- No base has more digits than the hexadecimal one. -/
theorem radix_le (base : Base) : base.radix ≤ 16 := by
  cases base <;> decide

/-- A character is read as a digit exactly if it writes the digit. -/
theorem digit?_eq_some_iff_writes : base.digit? c = some digit ↔ base.Writes c digit := by
  rw [digit?_eq_some_iff, hexDigit?_eq_some_iff, Base.Writes]
  have := radix_le base
  constructor
  · rintro ⟨⟨-, written⟩, small⟩
    exact ⟨small, written⟩
  · rintro ⟨small, written⟩
    exact ⟨⟨by omega, written⟩, small⟩

/-- Spelled digits fall into groups at the underscores between them. -/
theorem exists_grouped (spells : Spells base run digits) :
    ∃ groups, Grouped base groups run digits := by
  induction spells with
  | @single c digit read =>
    exact ⟨[[c]], by simp, by simp, by simp, .cons (digit?_eq_some_iff_writes.1 read) .nil⟩
  | @next c run digit digits read spells ih =>
    obtain ⟨groups, more, full, rfl, writes⟩ := ih
    obtain ⟨group, groups, rfl⟩ := List.exists_cons_of_ne_nil more
    have written := digit?_eq_some_iff_writes.1 read
    refine ⟨(c :: group) :: groups, by simp, ?_, ?_, .cons written writes⟩
    · exact List.forall_mem_cons.2 ⟨by simp, (List.forall_mem_cons.1 full).2⟩
    · cases groups <;> simp [List.intercalate]
  | @spaced c run digit digits read spells ih =>
    obtain ⟨groups, more, full, rfl, writes⟩ := ih
    obtain ⟨group, groups, rfl⟩ := List.exists_cons_of_ne_nil more
    have written := digit?_eq_some_iff_writes.1 read
    refine ⟨[c] :: group :: groups, by simp, ?_, by simp [List.intercalate], .cons written writes⟩
    exact List.forall_mem_cons.2 ⟨by simp, full⟩

/-- Digits in groups are spelled. -/
theorem Grouped.spells {groups : List (List Char)} (grouped : Grouped base groups run digits) :
    Spells base run digits := by
  -- Each digit is the first character of the first group that is left.
  induction digits generalizing groups run with
  | nil =>
    obtain ⟨more, full, -, writes⟩ := grouped
    obtain ⟨group, groups, rfl⟩ := List.exists_cons_of_ne_nil more
    have nothing := List.forall₂_nil_right_iff.1 writes
    exact absurd (List.append_eq_nil_iff.1 nothing).1 (full group List.mem_cons_self)
  | cons digit digits ih =>
    obtain ⟨more, full, rfl, writes⟩ := grouped
    obtain ⟨group, groups, rfl⟩ := List.exists_cons_of_ne_nil more
    obtain ⟨first, others⟩ := List.forall_mem_cons.1 full
    obtain ⟨c, group, rfl⟩ := List.exists_cons_of_ne_nil first
    obtain ⟨written, writes⟩ := List.forall₂_cons.1 writes
    have read := digit?_eq_some_iff_writes.2 written
    match group, groups with
    | [], [] =>
      obtain rfl := List.forall₂_nil_left_iff.1 writes
      simpa using Spells.single read
    | [], next :: groups =>
      simpa [List.intercalate] using Spells.spaced read (ih ⟨by simp, others, rfl, writes⟩)
    | next :: group, groups =>
      have rest := ih ⟨by simp, List.forall_mem_cons.2 ⟨by simp, others⟩, rfl, writes⟩
      cases groups <;> simpa [List.intercalate] using Spells.next read rest

/-- The positional value, from the last digit on. -/
theorem positional_eq_ofDigits (base : Base) (digits : List Nat) :
    positional base digits = Nat.ofDigits base.radix digits.reverse := by
  induction digits using List.reverseRecOn with
  | nil => rfl
  | append_singleton digits digit ih =>
    rw [positional_concat, ih, List.reverse_append, List.reverse_singleton, List.singleton_append,
      Nat.ofDigits_cons, Nat.add_comm, Nat.mul_comm]

/-- The mark of a base is split off from the digits behind it. -/
theorem splitBase_append (listed : mark ∈ base.marks) (spells : Spells base run digits) :
    splitBase (mark ++ run) = (base, run) := by
  cases base with
  | binary =>
    obtain rfl := List.mem_singleton.1 listed
    rfl
  | octal =>
    obtain rfl := List.mem_singleton.1 listed
    rfl
  | decimal =>
    obtain rfl := List.mem_singleton.1 listed
    have plain := spells.isDigit_or_underscore
    rw [List.nil_append, splitBase]
    all_goals
      rintro rest rfl
      simp [Char.isDigit] at plain
  | hexadecimal =>
    rcases List.mem_pair.1 listed with rfl | rfl <;> rfl

/-- A text denotes the positional value of its digits, if a word holds that. -/
theorem value?_eq_some_iff_spells {text : String} {word : Word} : value? text = some word ↔
    ∃ base, ∃ mark ∈ base.marks, ∃ run digits, text.toList = mark ++ run ∧ Spells base run digits ∧
      word.toInt = positional base digits := by
  constructor
  · exact exists_spells
  · rintro ⟨base, mark, listed, run, digits, written, spells, denotes⟩
    rw [value?, written, splitBase_append listed spells]
    simp only [digits?_of_spells spells, Option.bind_some]
    exact Word.ofInt?_eq_some_iff.2 denotes

/-- A text denotes a number exactly if it is the mark of a base with groups of digits behind it,
between which single underscores stand, and the number is the positional value of the digits, which a
word holds. -/
theorem value?_eq_some_iff (text : String) (value : Int) :
    (value? text).map Int64.toInt = some value ↔
      ∃ base, ∃ mark ∈ base.marks, ∃ groups run digits, text.toList = mark ++ run ∧
        Grouped base groups run digits ∧ value = (Nat.ofDigits base.radix digits.reverse : Nat) ∧
          value ≤ 2 ^ 63 - 1 := by
  constructor
  · intro denotes
    obtain ⟨word, stored, rfl⟩ := Option.map_eq_some_iff.1 denotes
    obtain ⟨base, mark, listed, run, digits, written, spells, same⟩ := exists_spells stored
    obtain ⟨groups, grouped⟩ := exists_grouped spells
    rw [positional_eq_ofDigits] at same
    exact ⟨base, mark, listed, groups, run, digits, written, grouped, same, (Word.fits_toInt word).2⟩
  · rintro ⟨base, mark, listed, groups, run, digits, written, grouped, same, bound⟩
    have fits : Word.Fits value := ⟨by omega, bound⟩
    have stored := Word.toInt_ofInt_of_fits fits
    refine Option.map_eq_some_iff.2 ⟨Int64.ofInt value, value?_eq_some_iff_spells.2 ?_, stored⟩
    rw [← positional_eq_ofDigits] at same
    exact ⟨base, mark, listed, run, digits, written, grouped.spells, stored.trans same⟩

/-- The largest word is the last that a numeral denotes, in whatever base it stands and with whatever
zeros in front. -/
example : value? "00_9223372036854775807" = some Int64.maxValue ∧
    value? "0x8000_0000_0000_0000" = none := by
  decide

end ScriptLang.Numeral

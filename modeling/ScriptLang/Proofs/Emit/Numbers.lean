import ScriptLang.Emit.Dialect
import ScriptLang.Proofs.Tree.Proper

/-!
# The numbers of a dialect

C gets a number that it cannot read in decimal digits. Decimal digits are a numeral too, and they
denote the word that they were made from, so a number that is printed in either dialect keeps its
value.
-/

namespace ScriptLang

namespace Numeral

variable {c : Char} {run : List Char}

/-- What a decimal digit counts. -/
def digitValue (c : Char) : Nat :=
  c.toNat - '0'.toNat

/-- A digit is no other character. -/
theorem ne_of_isDigit {other : Char} (isDigit : c.isDigit = true) (letter : other.isDigit = false) :
    c ≠ other := by
  rintro rfl
  rw [letter] at isDigit
  cases isDigit

/-- A decimal digit is read as its value. -/
theorem digit?_of_isDigit (isDigit : c.isDigit = true) :
    Base.decimal.digit? c = some (digitValue c) := by
  obtain ⟨low, high⟩ : '0' ≤ c ∧ c ≤ '9' := by
    simpa [Char.isDigit, Char.le_def] using isDigit
  have small : digitValue c < 10 := by
    have le : c.toNat ≤ 57 := high
    have zero : '0'.toNat = 48 := rfl
    unfold digitValue
    omega
  have digit : hexDigit? c = some (digitValue c) := if_pos ⟨low, high⟩
  rw [Base.digit?, digit]
  exact if_pos (decide_eq_true small)

/-- Decimal digits are read one by one. -/
theorem digits?_of_isDigit (more : run ≠ []) (digits : ∀ c ∈ run, c.isDigit = true) :
    digits? .decimal run = some (run.map digitValue) := by
  induction run with
  | nil => exact absurd rfl more
  | cons c run ih =>
    obtain ⟨first, others⟩ := List.forall_mem_cons.1 digits
    cases run with
    | nil => simp [digits?, digit?_of_isDigit first]
    | cons next run =>
      have next' : next ≠ '_' := ne_of_isDigit (others next List.mem_cons_self) rfl
      rw [digits?, digit?_of_isDigit first, ih (List.cons_ne_nil _ _) others]
      · rfl
      · exact next'

/-- Decimal digits carry no mark of a base. -/
theorem splitBase_of_isDigit (digits : ∀ c ∈ run, c.isDigit = true) :
    splitBase run = (.decimal, run) := by
  rw [splitBase]
  all_goals
    rintro rest rfl
    simp [Char.isDigit] at digits

/-- The positional value of digits is the number that the library reads from them. -/
theorem positional_map_digitValue (run : List Char) :
    positional .decimal (run.map digitValue) = Nat.ofDigitChars 10 run 0 := by
  rw [positional, List.foldl_map, Nat.ofDigitChars_eq_foldl]
  simp only [Base.radix, digitValue, Nat.mul_comm]

/-- The decimal digits of a number are digits. -/
theorem isDigit_of_mem_toDigits (count : Nat) : ∀ c ∈ Nat.toDigits 10 count, c.isDigit = true :=
  fun _ => Nat.isDigit_of_mem_toDigits (by decide) (by decide)

/-- The digits of a natural number denote the number, if it fits. -/
theorem value?_repr (count : Nat) : value? count.repr = Word.ofInt? count := by
  have digits := isDigit_of_mem_toDigits count
  rw [value?, Nat.repr_eq_ofList_toDigits, String.toList_ofList, splitBase_of_isDigit digits]
  simp only [digits?_of_isDigit Nat.toDigits_ne_nil digits, Option.bind_some,
    positional_map_digitValue, Nat.ofDigitChars_ten_toDigits]

end Numeral

/-- A word that is not negative is denoted by its decimal digits. -/
theorem isNumeral_decimal {word : Word} (nonneg : 0 ≤ word.toInt) :
    IsNumeral (Word.decimal word) word := by
  obtain ⟨count, counts⟩ := Int.eq_ofNat_of_zero_le nonneg
  have shown : Word.decimal word = count.repr := by
    rw [Word.decimal, counts]
    rfl
  have digits := Numeral.isDigit_of_mem_toDigits count
  rw [shown]
  refine ⟨?_, by rw [Numeral.value?_repr, ← counts, Word.ofInt?_toInt]⟩
  rw [Nat.repr_eq_ofList_toDigits, String.toList_ofList]
  obtain ⟨first, run, same⟩ := List.exists_cons_of_ne_nil (@Nat.toDigits_ne_nil count 10)
  rw [same] at digits ⊢
  obtain ⟨first, others⟩ := List.forall_mem_cons.1 digits
  refine .number first ⟨fun c member => ?_, by simp⟩
  simp [Lexeme.isNumberPart, others c member]

/-- A number is printed as a numeral of the same value. -/
theorem Dialect.isNumeral_number (dialect : Dialect) {literal : String} {value : Word}
    (numeral : IsNumeral literal value) : IsNumeral (dialect.number literal value) value := by
  have nonneg := Numeral.nonneg_of_value? numeral.denotes
  unfold number
  split
  · split
    · exact isNumeral_decimal nonneg
    · exact numeral
  · exact numeral

end ScriptLang

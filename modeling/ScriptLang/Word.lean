/-!
# Words

A word is a signed 64-bit integer, the only kind of value that programs compute with. Arithmetic
is exact or absent: `add?`, `sub?`, `mul?`, `quotient?` and `neg?` take the result in the unbounded
integers and answer `none` when it does not fit. The main statements `ofInt?_eq_some_iff` and
`ofInt?_toInt` say that `ofInt?` is the partial inverse of reading a word as an integer.

A count has 64 bits and no sign. `ofCount` keeps its bits, so a count that is too large for a word
is read as a negative number (`toInt_ofCount`).
-/

namespace ScriptLang

/-- A signed 64-bit integer. -/
abbrev Word := Int64

namespace Word

/-- Whether an integer can be stored in a word. -/
def Fits (value : Int) : Prop :=
  -0x8000000000000000 ≤ value ∧ value ≤ 0x7fffffffffffffff

instance (value : Int) : Decidable (Fits value) :=
  inferInstanceAs (Decidable (_ ∧ _))

/-- The word that stores an integer, if it fits. -/
def ofInt? (value : Int) : Option Word :=
  if Fits value then some (Int64.ofInt value) else none

/-- The integer that a word stores always fits. -/
theorem fits_toInt (word : Word) : Fits word.toInt :=
  ⟨by simpa using Int64.le_toInt word, by have := Int64.toInt_lt word; omega⟩

/-- Reading a word and storing it again gives the same word. -/
@[simp] theorem ofInt?_toInt (word : Word) : ofInt? word.toInt = some word := by
  simp [ofInt?, fits_toInt]

/-- A stored integer is read back unchanged. -/
theorem toInt_ofInt_of_fits {value : Int} (fits : Fits value) :
    (Int64.ofInt value).toInt = value :=
  Int64.toInt_ofInt_of_le fits.1 (by have := fits.2; omega)

/-- An integer is stored in exactly the word that reads as it. -/
theorem ofInt?_eq_some_iff {value : Int} {word : Word} :
    ofInt? value = some word ↔ word.toInt = value := by
  constructor
  · intro stored
    by_cases fits : Fits value
    · simp only [ofInt?, fits, if_true, Option.some.injEq] at stored
      rw [← stored, toInt_ofInt_of_fits fits]
    · simp [ofInt?, fits] at stored
  · rintro rfl
    exact ofInt?_toInt word

/-- An integer is refused exactly when it does not fit. -/
theorem ofInt?_eq_none_iff {value : Int} : ofInt? value = none ↔ ¬ Fits value := by
  simp [ofInt?]

/-- The sum, if it fits. -/
def add? (left right : Word) : Option Word :=
  ofInt? (left.toInt + right.toInt)

/-- The difference, if it fits. -/
def sub? (left right : Word) : Option Word :=
  ofInt? (left.toInt - right.toInt)

/-- The product, if it fits. -/
def mul? (left right : Word) : Option Word :=
  ofInt? (left.toInt * right.toInt)

/-- The quotient rounded toward zero, if it fits; the divisor must not be zero. -/
def quotient? (left right : Word) : Option Word :=
  ofInt? (left.toInt.tdiv right.toInt)

/-- The value with its sign changed, if it fits. -/
def neg? (word : Word) : Option Word :=
  ofInt? (-word.toInt)

/-- The word for a truth value: one or zero. -/
def ofBool (condition : Bool) : Word :=
  if condition then 1 else 0

/-- The word with the bits of a count. -/
def ofCount (count : UInt64) : Word := count.toInt64

/-- A count that fits is read back unchanged, and a larger one is less by two to the power of 64. -/
theorem toInt_ofCount (count : UInt64) : (ofCount count).toInt =
    if Fits count.toNat then (count.toNat : Int) else count.toNat - 0x10000000000000000 := by
  have stored : (ofCount count).toInt = count.toBitVec.toInt := rfl
  have bound := count.toNat_lt
  rw [stored, BitVec.toInt_eq_toNat_cond, UInt64.toNat_toBitVec]
  by_cases fits : Fits count.toNat
  · have small := fits.2
    rw [if_pos fits, if_pos (by omega)]
  · have large : 0x7fffffffffffffff < (count.toNat : Int) := by
      unfold Fits at fits
      omega
    rw [if_neg fits, if_neg (by omega)]
    rfl

/-- The decimal digits of a word, after a minus sign if it is negative. -/
def decimal (word : Word) : String :=
  toString word.toInt

end Word

end ScriptLang

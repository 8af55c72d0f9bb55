import ScriptLang.Word

/-!
# Numerals

A numeral is a number as it is written: digits in base ten, or in base sixteen, eight or two after
the marks `0x`, `0X`, `0o` and `0b`. Single underscores may stand between digits. `Numeral.value?`
gives the word that a numeral denotes and refuses every text that is no numeral or is too large.
-/

namespace ScriptLang.Numeral

/-- The base in which the digits of a numeral are read. -/
inductive Base where
  | binary
  | octal
  | decimal
  | hexadecimal
deriving DecidableEq, Repr

/-- The number of different digits. -/
def Base.radix : Base → Nat
  | .binary => 2
  | .octal => 8
  | .decimal => 10
  | .hexadecimal => 16

/-- The value of a letter or decimal digit as a digit of a base up to sixteen. -/
def hexDigit? (c : Char) : Option Nat :=
  if '0' ≤ c ∧ c ≤ '9' then some (c.toNat - '0'.toNat)
  else if 'a' ≤ c ∧ c ≤ 'f' then some (c.toNat - 'a'.toNat + 10)
  else if 'A' ≤ c ∧ c ≤ 'F' then some (c.toNat - 'A'.toNat + 10)
  else none

/-- The value of a digit of the base. -/
def Base.digit? (base : Base) (c : Char) : Option Nat :=
  (hexDigit? c).filter (· < base.radix)

/-- Splits the mark of the base from the digits. -/
def splitBase : List Char → Base × List Char
  | '0' :: 'x' :: digits => (.hexadecimal, digits)
  | '0' :: 'X' :: digits => (.hexadecimal, digits)
  | '0' :: 'o' :: digits => (.octal, digits)
  | '0' :: 'b' :: digits => (.binary, digits)
  | digits => (.decimal, digits)

/-- Reads one or more digits between which single underscores may stand. -/
def digits? (base : Base) : List Char → Option (List Nat)
  | [] => none
  | [c] => (base.digit? c).map ([·])
  | c :: '_' :: rest => do
      let digit ← base.digit? c
      let digits ← digits? base rest
      return digit :: digits
  | c :: next :: rest => do
      let digit ← base.digit? c
      let digits ← digits? base (next :: rest)
      return digit :: digits

/-- The positional value of digits, the most significant first. -/
def positional (base : Base) (digits : List Nat) : Nat :=
  digits.foldl (fun value digit => value * base.radix + digit) 0

/-- The word that a numeral denotes; `none` if the text is no numeral or does not fit. -/
def value? (text : String) : Option Word :=
  let (base, digits) := splitBase text.toList
  (digits? base digits).bind fun digits => Word.ofInt? (positional base digits)

end ScriptLang.Numeral

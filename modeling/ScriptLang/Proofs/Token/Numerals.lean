import ScriptLang.Proofs.Token.Tiling
import ScriptLang.Proofs.Tree.Proper

/-!
# How numerals are cut

A numeral is the mark of its base with digits behind it, between which single underscores may stand.
Each of its characters can stand in a number, but for the capital letter of the mark `0X`: a numeral
is cut as one number unless it starts with that mark. Then a zero is cut off, and the letter starts
an identifier that takes all the digits.
-/

namespace ScriptLang

namespace Numeral

/-- The marks in front of the digits of a base. -/
def Base.marks : Base → List (List Char)
  | .binary => [['0', 'b']]
  | .octal => [['0', 'o']]
  | .decimal => [[]]
  | .hexadecimal => [['0', 'x'], ['0', 'X']]

/-- Digits of the base as they are written, with single underscores between them. -/
inductive Spells (base : Base) : List Char → List Nat → Prop where
  | single {c : Char} {digit : Nat} : base.digit? c = some digit → Spells base [c] [digit]
  | next {c : Char} {run : List Char} {digit : Nat} {digits : List Nat} :
      base.digit? c = some digit → Spells base run digits → Spells base (c :: run) (digit :: digits)
  | spaced {c : Char} {run : List Char} {digit : Nat} {digits : List Nat} :
      base.digit? c = some digit → Spells base run digits →
        Spells base (c :: '_' :: run) (digit :: digits)

variable {base : Base} {c : Char} {run text : List Char} {digit : Nat} {digits : List Nat}

/-- What is split off is a mark of the base. -/
theorem exists_mark_of_splitBase (text : List Char) :
    ∃ mark ∈ (splitBase text).1.marks, text = mark ++ (splitBase text).2 := by
  unfold splitBase
  split <;> simp [Base.marks]

/-- Digits that are read from a run are spelled by it. -/
theorem spells_of_digits? (spelled : digits? base run = some digits) : Spells base run digits := by
  fun_induction digits? base run generalizing digits with
  | case1 => cases spelled
  | case2 c =>
    obtain ⟨digit, read, rfl⟩ := Option.map_eq_some_iff.1 spelled
    exact .single read
  | case3 c rest ih =>
    obtain ⟨digit, read, others⟩ := Option.bind_eq_some_iff.1 spelled
    obtain ⟨digits, rest, ⟨⟩⟩ := Option.bind_eq_some_iff.1 others
    exact .spaced read (ih rest)
  | case4 c next rest _ ih =>
    obtain ⟨digit, read, others⟩ := Option.bind_eq_some_iff.1 spelled
    obtain ⟨digits, rest, ⟨⟩⟩ := Option.bind_eq_some_iff.1 others
    exact .next read (ih rest)

/-- A numeral is a mark and digits, and it denotes their positional value. -/
theorem exists_spells {literal : String} {value : Word} (denotes : value? literal = some value) :
    ∃ base, ∃ mark ∈ base.marks, ∃ run digits, literal.toList = mark ++ run ∧
      Spells base run digits ∧ value.toInt = positional base digits := by
  obtain ⟨digits, spelled, fits⟩ := Option.bind_eq_some_iff.1 denotes
  obtain ⟨mark, listed, same⟩ := exists_mark_of_splitBase literal.toList
  exact ⟨_, mark, listed, _, digits, same, spells_of_digits? spelled,
    Word.ofInt?_eq_some_iff.1 fits⟩

/-- A digit of a base is a hexadecimal digit below the radix. -/
theorem digit?_eq_some_iff : base.digit? c = some digit ↔
    hexDigit? c = some digit ∧ digit < base.radix := by
  rw [Base.digit?, Option.filter_eq_some_iff, decide_eq_true_eq]

/-- The characters from zero to nine are digits. -/
theorem isDigit_of_le (decimal : '0' ≤ c ∧ c ≤ '9') : c.isDigit = true := by
  simpa [Char.isDigit, Char.le_def] using decimal

/-- Digits of every base can stand in a number. -/
theorem isNumberPart_of_digit? (read : base.digit? c = some digit) :
    Lexeme.isNumberPart c = true := by
  obtain ⟨hex, -⟩ := digit?_eq_some_iff.1 read
  unfold hexDigit? at hex
  split_ifs at hex with decimal small capital
  · simp [Lexeme.isNumberPart, isDigit_of_le decimal]
  · simp [Lexeme.isNumberPart, small]
  · simp [Lexeme.isNumberPart, capital]

/-- Digits of every base can stand in an identifier. -/
theorem isIdentifierPart_of_digit? (read : base.digit? c = some digit) :
    Lexeme.isIdentifierPart c = true := by
  have table : Lexeme.delimiters.all (hexDigit? · = none) = true := by decide
  by_contra other
  have listed : c ∈ Lexeme.delimiters := by simpa [Lexeme.isIdentifierPart] using other
  have unread := of_decide_eq_true (List.all_eq_true.1 table c listed)
  cases (digit?_eq_some_iff.1 read).1.symm.trans unread

/-- The digits of base ten are no letters. -/
theorem isDigit_of_digit? (read : Base.decimal.digit? c = some digit) : c.isDigit = true := by
  obtain ⟨hex, small⟩ := digit?_eq_some_iff.1 read
  rw [Base.radix] at small
  unfold hexDigit? at hex
  split_ifs at hex with decimal
  · exact isDigit_of_le decimal
  all_goals
    cases hex
    omega

/-- The characters of a numeral behind its mark are digits and underscores. -/
theorem Spells.forall_mem (spells : Spells base run digits) (property : Char → Prop)
    (underscore : property '_') (holds : ∀ c digit, base.digit? c = some digit → property c) :
    ∀ c ∈ run, property c := by
  induction spells with
  | single read => simpa using holds _ _ read
  | next read _ ih => exact List.forall_mem_cons.2 ⟨holds _ _ read, ih⟩
  | spaced read _ ih =>
    exact List.forall_mem_cons.2 ⟨holds _ _ read, List.forall_mem_cons.2 ⟨underscore, ih⟩⟩

/-- Behind its mark a numeral starts with a digit. -/
theorem Spells.exists_cons (spells : Spells base run digits) :
    ∃ c behind digit, run = c :: behind ∧ base.digit? c = some digit := by
  cases spells with
  | single read => exact ⟨_, _, _, rfl, read⟩
  | next read => exact ⟨_, _, _, rfl, read⟩
  | spaced read => exact ⟨_, _, _, rfl, read⟩

/-- The characters of a decimal numeral are decimal digits and underscores. -/
theorem Spells.isDigit_or_underscore (spells : Spells .decimal run digits) :
    ∀ c ∈ run, c.isDigit = true ∨ c = '_' :=
  spells.forall_mem _ (.inr rfl) fun _ _ read => .inl (isDigit_of_digit? read)

/-- An underscore is no digit in any base. -/
theorem digit?_underscore (base : Base) : base.digit? '_' = none := by
  cases base <;> rfl

/-- What is read as a digit is no underscore. -/
theorem ne_underscore_of_digit? (read : base.digit? c = some digit) : c ≠ '_' := by
  rintro rfl
  rw [digit?_underscore] at read
  cases read

/-- Spelled digits are read. -/
theorem digits?_of_spells (spells : Spells base run digits) : digits? base run = some digits := by
  induction spells with
  | single read => simp [digits?, read]
  | @next c run digit digits read spells ih =>
    obtain ⟨first, behind, _, rfl, read'⟩ := spells.exists_cons
    rw [digits?, read, ih]
    · rfl
    · exact ne_underscore_of_digit? read'
  | spaced read _ ih =>
    rw [digits?, read, ih]
    rfl

/-- The last digit counts one by one. -/
theorem positional_concat (base : Base) (digits : List Nat) (digit : Nat) :
    positional base (digits ++ [digit]) = positional base digits * base.radix + digit := by
  rw [positional, List.foldl_append]
  rfl

end Numeral

open Numeral Lexeme

variable {literal : String} {value : Word}

/-- The mark whose letter no number can go on with. -/
def Numeral.capitalMark : List Char :=
  ['0', 'X']

/-- A numeral that does not start with the mark `0X` is cut as one number. -/
theorem isNumeral_of_not_capital (denotes : value? literal = some value)
    (small : ¬capitalMark <+: literal.toList) : IsNumeral literal value := by
  refine ⟨?_, denotes⟩
  obtain ⟨base, mark, listed, run, digits, written, spells, -⟩ := exists_spells denotes
  have shown : literal = String.ofList (mark ++ run) := by rw [← written, String.ofList_toList]
  have parts := spells.forall_mem (isNumberPart · = true) rfl fun _ _ => isNumberPart_of_digit?
  rw [written] at small ⊢
  rw [shown]
  have behind (letter : Char) (part : isNumberPart letter = true) :
      IsLexeme .number (String.ofList ('0' :: letter :: run)) ('0' :: letter :: run) [] :=
    .number rfl ⟨List.forall_mem_cons.2 ⟨part, parts⟩, nofun⟩
  cases base with
  | binary =>
    obtain rfl := List.mem_singleton.1 listed
    exact behind 'b' rfl
  | octal =>
    obtain rfl := List.mem_singleton.1 listed
    exact behind 'o' rfl
  | decimal =>
    obtain rfl := List.mem_singleton.1 listed
    obtain ⟨first, after, digit, rfl, read⟩ := spells.exists_cons
    obtain ⟨-, others⟩ := List.forall_mem_cons.1 parts
    exact .number (isDigit_of_digit? read) ⟨others, nofun⟩
  | hexadecimal =>
    simp only [Base.marks, List.mem_cons, List.not_mem_nil, or_false] at listed
    rcases listed with rfl | rfl
    · exact behind 'x' rfl
    · exact absurd (List.prefix_append capitalMark run) small

/-- Behind the zero of the mark `0X` the letter and all digits are one identifier. -/
theorem isLexeme_of_capital (denotes : value? literal = some value)
    (capital : capitalMark <+: literal.toList) : ∃ word, literal = "0" ++ word ∧
      IsLexeme .number "0" ['0'] word.toList ∧ IsLexeme .identifier word word.toList [] := by
  obtain ⟨run, written⟩ := capital
  obtain ⟨digits, spelled, -⟩ := Option.bind_eq_some_iff.1 denotes
  rw [← written] at spelled
  have parts := (spells_of_digits? spelled).forall_mem (isIdentifierPart · = true) rfl
    fun _ _ => isIdentifierPart_of_digit?
  have apart : isNumberPart 'X' = false := rfl
  have word : IsWord 'X' run [] := by
    have marks : ∀ sign ∈ Mark.longestFirst, sign.spelling.toList.head? ≠ some 'X' := by decide
    refine ⟨⟨rfl, rfl, by decide, rfl⟩, fun sign stands => ?_, parts, nofun⟩
    obtain ⟨c, behind, spelled, -⟩ := sign.exists_plain
    refine marks sign (Mark.mem_longestFirst sign) ?_
    rw [spelled] at stands ⊢
    exact congrArg some (List.cons_prefix_cons.1 stands).1
  have reserved : ∀ keyword : Keyword, keyword.spelling ≠ String.ofList ('X' :: run) := by
    intro keyword same
    have front := congrArg (·.toList.head?) same
    rw [String.toList_ofList] at front
    cases keyword <;> cases front
  refine ⟨String.ofList ('X' :: run), ?_, .number rfl ⟨nofun, ?_⟩, ?_⟩
  · rw [← String.ofList_toList (s := literal), ← written]
    exact String.ofList_cons
  · rw [String.toList_ofList]
    rintro _ ⟨⟩
    exact apart
  · rw [String.toList_ofList]
    exact .identifier word reserved

end ScriptLang

import Mathlib.Data.List.DropRight
import ScriptLang.Proofs.Emit.Numbers
import ScriptLang.Proofs.Parser.Output
import ScriptLang.Proofs.Run.Globals

/-!
# Executions that are written alike are the same

An execution is written down line by line, one entry on each. A line is a word and, behind the first
space, what is said of it: names have no spaces, and what is said starts differently for a variable,
for results and for an error code. No entry has a line feed in it. The white space at the end of the
text is dropped, but what was dropped is known from the last character that is left: there are always
digits at the end, or the word in front of no results. So the text tells the entries, and they tell
the execution.
-/

namespace ScriptLang

open Lexeme (IsLongestRun)

namespace Word

/-- A number is written with digits. -/
theorem isDigit_of_mem_repr {count : Nat} : ∀ c ∈ count.repr.toList, c.isDigit = true := by
  rw [Nat.repr_eq_ofList_toDigits, String.toList_ofList]
  exact Numeral.isDigit_of_mem_toDigits count

/-- Numbers are told by their digits. -/
theorem repr_injective : Function.Injective Nat.repr := by
  intro first second same
  have value (count : Nat) : Nat.ofDigitChars 10 count.repr.toList 0 = count := by
    rw [Nat.repr_eq_ofList_toDigits, String.toList_ofList]
    exact Nat.ofDigitChars_toDigits (by decide) (Nat.le_refl _)
  rw [← value first, same, value]

/-- A number does not start with a minus sign. -/
theorem repr_ne_minus_append (count : Nat) (text : String) : count.repr ≠ "-" ++ text := by
  intro same
  have minus : '-' ∈ count.repr.toList := by simp [same]
  exact absurd (isDigit_of_mem_repr _ minus) (by decide)

/-- A word is written with digits, behind a minus sign if it is negative. -/
theorem decimal_cases (word : Word) : ∃ count : Nat,
    word.toInt = count ∧ word.decimal = count.repr ∨
      word.toInt = -count ∧ word.decimal = "-" ++ count.repr := by
  have shown : word.decimal = word.toInt.repr := rfl
  rw [shown]
  cases word.toInt with
  | ofNat count => exact ⟨count, .inl ⟨rfl, rfl⟩⟩
  | negSucc count => exact ⟨count + 1, .inr ⟨rfl, rfl⟩⟩

/-- Only digits and minus signs stand in a word. -/
theorem of_mem_decimal {word : Word} {c : Char} (member : c ∈ word.decimal.toList) :
    c = '-' ∨ c.isDigit = true := by
  obtain ⟨count, ⟨-, same⟩ | ⟨-, same⟩⟩ := word.decimal_cases
  · rw [same] at member
    exact .inr (isDigit_of_mem_repr c member)
  · rw [same, String.toList_append] at member
    exact (List.mem_append.1 member).imp (by simp) (isDigit_of_mem_repr c)

/-- A text whose last character is a digit. -/
def EndsInDigit (text : List Char) : Prop :=
  ∃ front c, text = front ++ [c] ∧ c.isDigit = true

/-- What stands in front of a text does not change its end. -/
theorem EndsInDigit.append {text : List Char} (front : List Char) (ends : EndsInDigit text) :
    EndsInDigit (front ++ text) := by
  obtain ⟨front', c, rfl, isDigit⟩ := ends
  exact ⟨front ++ front', c, (List.append_assoc ..).symm, isDigit⟩

/-- A number that is written ends in a digit. -/
theorem endsInDigit_repr (count : Nat) : EndsInDigit count.repr.toList := by
  have digits := @isDigit_of_mem_repr count
  have more : count.repr.toList ≠ [] := by
    rw [Nat.repr_eq_ofList_toDigits, String.toList_ofList]
    exact Nat.toDigits_ne_nil
  obtain ⟨front, c, same⟩ := (List.eq_nil_or_concat' _).resolve_left more
  exact ⟨front, c, same, digits c (by simp [same])⟩

/-- A word that is written ends in a digit. -/
theorem endsInDigit_decimal (word : Word) : EndsInDigit word.decimal.toList := by
  obtain ⟨count, ⟨-, same⟩ | ⟨-, same⟩⟩ := word.decimal_cases
  · rw [same]
    exact endsInDigit_repr count
  · rw [same, String.toList_append]
    exact (endsInDigit_repr count).append _

/-- Words are told by the way in which they are written. -/
theorem decimal_injective : Function.Injective decimal := by
  intro first second same
  refine Int64.toInt_inj.1 ?_
  obtain ⟨count, ⟨value, shown⟩ | ⟨value, shown⟩⟩ := first.decimal_cases <;>
    obtain ⟨count', ⟨value', shown'⟩ | ⟨value', shown'⟩⟩ := second.decimal_cases <;>
    rw [shown, shown'] at same
  · rw [value, value', repr_injective same]
  · exact absurd same (repr_ne_minus_append _ _)
  · exact absurd same.symm (repr_ne_minus_append _ _)
  · rw [value, value', repr_injective ((String.append_right_inj _).1 same)]

/-- Words in a row, with commas between them. -/
def row (values : List Word) : List Char :=
  [',', ' '].intercalate (values.map (·.decimal.toList))

/-- A row of two words or more is the first one, a comma, a blank and the row of the others. -/
theorem row_cons_cons (value second : Word) (rest : List Word) :
    row (value :: second :: rest) = value.decimal.toList ++ ',' :: ' ' :: row (second :: rest) := by
  simp [row, List.intercalate_cons_cons]

/-- In front of every word of a row but the first there are a comma and a space. -/
theorem comma_row (value : Word) (rest : List Word) :
    ',' :: ' ' :: row (value :: rest) = (value :: rest).flatMap (',' :: ' ' :: ·.decimal.toList) := by
  induction rest generalizing value with
  | nil => simp [row]
  | cons second rest ih =>
    rw [row_cons_cons, ih, List.flatMap_cons]
    rfl

/-- Only words, commas and spaces stand in a row. -/
theorem of_mem_row {values : List Word} {c : Char} (member : c ∈ row values) :
    c = ',' ∨ c = ' ' ∨ c = '-' ∨ c.isDigit = true := by
  cases values with
  | nil => simp [row] at member
  | cons value rest =>
    have member' : c ∈ (value :: rest).flatMap (',' :: ' ' :: ·.decimal.toList) :=
      comma_row value rest ▸ .tail _ (.tail _ member)
    obtain ⟨other, -, _ | ⟨_, _ | ⟨_, written⟩⟩⟩ := List.mem_flatMap.1 member'
    · exact .inl rfl
    · exact .inr (.inl rfl)
    · exact .inr (.inr (of_mem_decimal written))

/-- A row that is not empty ends in a digit. -/
theorem endsInDigit_row (value : Word) (rest : List Word) : EndsInDigit (row (value :: rest)) := by
  induction rest generalizing value with
  | nil => simpa [row] using endsInDigit_decimal value
  | cons second rest ih =>
    rw [row_cons_cons]
    exact ((ih second).append [',', ' ']).append value.decimal.toList

/-- A word goes on up to the next comma. -/
theorem longest_decimal (value : Word) (rest : List Word) :
    IsLongestRun (· ≠ ',') value.decimal.toList (rest.flatMap (',' :: ' ' :: ·.decimal.toList)) := by
  refine .up_to (fun member => absurd (of_mem_decimal member) (by decide)) ?_
  cases rest <;> simp

/-- Words are told by the row in which they stand. -/
theorem row_injective : Function.Injective row := by
  have behind (first second : List Word) (same : first.flatMap (',' :: ' ' :: ·.decimal.toList) =
      second.flatMap (',' :: ' ' :: ·.decimal.toList)) : first = second := by
    induction first generalizing second with
    | nil => cases second with
      | nil => rfl
      | cons => cases same
    | cons value rest ih => cases second with
      | nil => cases same
      | cons value' rest' =>
        obtain ⟨same, others⟩ := (longest_decimal value rest).unique (longest_decimal value' rest')
          (List.cons.inj (List.cons.inj same).2).2
        rw [decimal_injective (String.toList_injective same), ih rest' others]
  have apart (value : Word) (rest : List Word) : row (value :: rest) ≠ row [] := by
    obtain ⟨front, c, written, -⟩ := endsInDigit_row value rest
    simp [written, show row [] = [] from rfl]
  intro first second same
  cases first with
  | nil => cases second with
    | nil => rfl
    | cons value rest => exact absurd same.symm (apart value rest)
  | cons value rest => cases second with
    | nil => exact absurd same (apart value rest)
    | cons value' rest' => exact behind _ _ (by rw [← comma_row, ← comma_row, same])

end Word

section Names

variable {word : String} {name : Name}

/-- Within an identifier there is no space and no line feed. -/
theorem IsIdentifier.unspaced (identifier : IsIdentifier word) :
    ' ' ∉ word.toList ∧ '\n' ∉ word.toList := by
  unfold IsIdentifier at identifier
  generalize word.toList = written at identifier
  cases identifier with
  | @identifier first run _ isWord =>
    constructor
    · rintro (_ | ⟨_, member⟩)
      · exact absurd isWord.blank (by decide)
      · exact absurd (isWord.longest.within _ member) (by decide)
    · rintro (_ | ⟨_, member⟩)
      · exact absurd isWord.lineEnd (by decide)
      · exact absurd (isWord.longest.within _ member) (by decide)

/-- A proper name has neither a blank nor a line feed in it. -/
theorem Name.Proper.unspaced (proper : name.Proper) : ' ' ∉ name.toList ∧ '\n' ∉ name.toList := by
  induction proper with
  | word identifier => exact identifier.unspaced
  | dotted _ identifier ih =>
    obtain ⟨space, lineFeed⟩ := identifier.unspaced
    exact ⟨by simp [ih.1, space], by simp [ih.2, lineFeed]⟩

end Names

namespace Execution

/-- What one line of a written execution tells. -/
inductive Entry where
  | global (name : Name) (value : Word)
  | returned (values : List Word)
  | errorCode (code : Word)

/-- The entries of an execution, in the order of their lines. -/
def entries (execution : Execution) : List Entry :=
  execution.globals.map (fun (name, value) => .global name value) ++
    execution.returned.toList.map .returned ++ execution.errorCode.toList.map .errorCode

namespace Entry

/-- The line of an entry. -/
def line : Entry → String
  | .global name value => name ++ " = " ++ Word.decimal value
  | .returned values => "return " ++ ", ".intercalate (values.map Word.decimal)
  | .errorCode code => "error code " ++ Word.decimal code

/-- The word in front of the first space of the line. -/
def subject : Entry → String
  | .global name _ => name
  | .returned _ => "return"
  | .errorCode _ => "error"

/-- What stands behind the first space of the line. -/
def said : Entry → List Char
  | .global _ value => '=' :: ' ' :: value.decimal.toList
  | .returned values => Word.row values
  | .errorCode code => 'c' :: 'o' :: 'd' :: 'e' :: ' ' :: code.decimal.toList

/-- The name of a variable was read from a text. -/
def Proper : Entry → Prop
  | .global name _ => name.Proper
  | .returned _ | .errorCode _ => True

/-- A line is its subject, a blank and what is said of it. -/
theorem toList_line (entry : Entry) : entry.line.toList = entry.subject.toList ++ ' ' :: entry.said := by
  cases entry with
  | global name value => simp [line, subject, said]
  | returned values =>
    simp [line, subject, said, Word.row, String.toList_intercalate, Function.comp_def]
  | errorCode code => simp [line, subject, said]

variable {entry first second : Entry}

/-- A subject goes on up to the first space of the line. -/
theorem Proper.longest_subject (proper : entry.Proper) :
    IsLongestRun (· ≠ ' ') entry.subject.toList (' ' :: entry.said) := by
  refine .up_to (fun member => ?_) (by simp)
  cases entry with
  | global name value => exact proper.unspaced.1 member
  | returned values => simp [subject] at member
  | errorCode code => simp [subject] at member

/-- Proper entries are told by their lines. -/
theorem Proper.eq_of_toList_line_eq (proper : first.Proper) (proper' : second.Proper)
    (same : first.line.toList = second.line.toList) : first = second := by
  rw [toList_line, toList_line] at same
  obtain ⟨subjects, behind⟩ := proper.longest_subject.unique proper'.longest_subject same
  have said := (List.cons.inj behind).2
  -- The first character of what is said tells the entries of a variable from the others.
  have unassigned (values : List Word) (written : List Char) : '=' :: written ≠ Word.row values :=
    fun equal => absurd (Word.of_mem_row (equal ▸ List.mem_cons_self)) (by decide)
  cases first with
  | global name value => cases second with
    | global name' value' =>
      obtain rfl : name = name' := String.toList_injective subjects
      have values := (List.cons.inj (List.cons.inj said).2).2
      rw [Word.decimal_injective (String.toList_injective values)]
    | returned values => exact absurd said (unassigned values _)
    | errorCode code => cases said
  | returned values => cases second with
    | global name value => exact absurd said.symm (unassigned values _)
    | returned values' => rw [Word.row_injective said]
    | errorCode code => simp [subject] at subjects
  | errorCode code => cases second with
    | global name value => cases said
    | returned values => simp [subject] at subjects
    | errorCode code' =>
      have codes : code.decimal.toList = code'.decimal.toList := by simpa [Entry.said] using said
      rw [Word.decimal_injective (String.toList_injective codes)]

/-- A line has no line feed in it, and one ends it. -/
theorem Proper.longest_line (proper : entry.Proper) (rest : List Char) :
    IsLongestRun (· ≠ '\n') entry.line.toList ('\n' :: rest) := by
  have plain (word : Word) : '\n' ∉ word.decimal.toList := fun within =>
    absurd (Word.of_mem_decimal within) (by decide)
  have plain' (values : List Word) : '\n' ∉ Word.row values := fun within =>
    absurd (Word.of_mem_row within) (by decide)
  refine .up_to (fun member => ?_) (by simp)
  rw [toList_line, List.mem_append, List.mem_cons] at member
  cases entry with
  | global name value => simp [subject, said, proper.unspaced.2, plain] at member
  | returned values => simp [subject, said, plain'] at member
  | errorCode code => simp [subject, said, plain] at member

/-- A line ends in a digit, or it is that of no results. -/
theorem endsInDigit_line_or (entry : Entry) :
    Word.EndsInDigit entry.line.toList ∨ ∃ front, entry.line.toList = front ++ ['n', ' '] := by
  have behind {written : List Char} (front : String) (ends : Word.EndsInDigit written) :
      Word.EndsInDigit (front.toList ++ ' ' :: written) := (ends.append [' ']).append front.toList
  rw [toList_line]
  cases entry with
  | global name value => exact .inl (behind name ((Word.endsInDigit_decimal value).append ['=', ' ']))
  | returned values => cases values with
    | nil => exact .inr ⟨"retur".toList, by simp [subject, said, Word.row]⟩
    | cons value rest => exact .inl (behind "return" (Word.endsInDigit_row value rest))
  | errorCode code =>
    exact .inl (behind "error" ((Word.endsInDigit_decimal code).append ['c', 'o', 'd', 'e', ' ']))

/-- The variable of an entry. -/
def global? : Entry → Option (Name × Word)
  | .global name value => some (name, value)
  | .returned _ | .errorCode _ => none

/-- The results of an entry. -/
def returned? : Entry → Option (List Word)
  | .returned values => some values
  | .global .. | .errorCode _ => none

/-- The error code of an entry. -/
def errorCode? : Entry → Option Word
  | .errorCode code => some code
  | .global .. | .returned _ => none

/-- The lines of entries, one under the other. -/
def texts (entries : List Entry) : List Char :=
  entries.flatMap (·.line.toList ++ ['\n'])

/-- Proper entries are told by their lines, one under the other. -/
theorem eq_of_texts_eq {entries entries' : List Entry} (proper : ∀ entry ∈ entries, entry.Proper)
    (proper' : ∀ entry ∈ entries', entry.Proper) (same : texts entries = texts entries') :
    entries = entries' := by
  induction entries generalizing entries' with
  | nil => cases entries' with
    | nil => rfl
    | cons entry' rest' => simp [texts] at same
  | cons entry rest ih => cases entries' with
    | nil => simp [texts] at same
    | cons entry' rest' =>
      rw [List.forall_mem_cons] at proper proper'
      have lines : entry.line.toList ++ '\n' :: texts rest =
          entry'.line.toList ++ '\n' :: texts rest' := by
        simpa [texts] using same
      obtain ⟨line, others⟩ := (proper.1.longest_line _).unique (proper'.1.longest_line _) lines
      rw [proper.1.eq_of_toList_line_eq proper'.1 line, ih proper.2 proper'.2 (List.cons.inj others).2]

end Entry

section Render

variable {execution execution' : Execution}

/-- An execution is told by its entries. -/
theorem eq_of_entries_eq (same : execution.entries = execution'.entries) :
    execution = execution' := by
  have globals (execution : Execution) :
      execution.entries.filterMap Entry.global? = execution.globals := by
    simp [entries, List.filterMap_append, List.filterMap_map, Function.comp_def, Entry.global?]
  have returned (execution : Execution) :
      (execution.entries.filterMap Entry.returned?).head? = execution.returned := by
    simp [entries, List.filterMap_append, List.filterMap_map, Function.comp_def, Entry.returned?]
  have errorCode (execution : Execution) :
      (execution.entries.filterMap Entry.errorCode?).head? = execution.errorCode := by
    simp [entries, List.filterMap_append, List.filterMap_map, Function.comp_def, Entry.errorCode?]
  have equal : execution.globals = execution'.globals ∧ execution.returned = execution'.returned ∧
      execution.errorCode = execution'.errorCode := by
    simp only [← globals, ← returned, ← errorCode, same, and_self]
  obtain ⟨_, _, _⟩ := execution
  obtain ⟨_, _, _⟩ := execution'
  exact (mk.injEq ..).mpr equal

/-- Digits are no white space. -/
theorem isSpace_of_isDigit {c : Char} (isDigit : c.isDigit = true) : Text.isSpace c = false := by
  have range : 48 ≤ c.toNat ∧ c.toNat ≤ 57 := by
    simpa [Char.isDigit, Char.le_def, UInt32.le_iff_toNat_le] using isDigit
  have space : c ≠ ' ' := Numeral.ne_of_isDigit isDigit (by decide)
  have above : ∀ run ∈ Text.separatorRuns, 57 < run.1 := by decide
  have outside : Text.inRuns Text.separatorRuns c.toNat = false := by
    refine List.any_eq_false.2 fun run member => ?_
    have beyond := above run member
    simp only [Bool.and_eq_true, decide_eq_true_eq]
    omega
  grind [Text.isSpace]

/-- Puts back what was dropped at the end of a written execution. -/
def untrim (text : List Char) : List Char :=
  match text.getLast? with
  | none => []
  | some 'n' => text ++ [' ', '\n']
  | some _ => text ++ ['\n']

/-- What was dropped at the end is known from the last character that is left. -/
theorem untrim_rdropWhile_texts (entries : List Entry) :
    untrim ((Entry.texts entries).rdropWhile Text.isSpace) = Entry.texts entries := by
  rcases List.eq_nil_or_concat' entries with rfl | ⟨before, last, rfl⟩
  · rfl
  · rcases last.endsInDigit_line_or with ⟨front, c, line, isDigit⟩ | ⟨front, line⟩
    · have whole : Entry.texts (before ++ [last]) =
          Entry.texts before ++ front ++ [c] ++ ['\n'] := by
        simp [Entry.texts, line]
      have letter : c ≠ 'n' := Numeral.ne_of_isDigit isDigit (by decide)
      rw [whole, List.rdropWhile_concat_pos _ _ _ (by decide),
        List.rdropWhile_concat_neg _ _ _ (by simp [isSpace_of_isDigit isDigit]), untrim,
        List.getLast?_concat]
      simp
    · have whole : Entry.texts (before ++ [last]) =
          Entry.texts before ++ front ++ ['n'] ++ [' '] ++ ['\n'] := by
        simp [Entry.texts, line]
      rw [whole, List.rdropWhile_concat_pos _ _ _ (by decide),
        List.rdropWhile_concat_pos _ _ _ (by decide),
        List.rdropWhile_concat_neg _ _ _ (by decide), untrim, List.getLast?_concat]
      simp

/-- The lines of an execution are those of its entries. -/
theorem lines_eq (execution : Execution) : execution.lines = execution.entries.map Entry.line := by
  simp [lines, entries, Entry.line, Function.comp_def]

/-- An execution is written as the texts of its entries without the white space at the end. -/
theorem toList_render (execution : Execution) :
    execution.render.toList = (Entry.texts execution.entries).rdropWhile Text.isSpace := by
  have joined : (String.join (execution.lines.map (· ++ "\n"))).toList =
      Entry.texts execution.entries := by
    rw [lines_eq, String.toList_join, List.map_map, List.flatMap_map]
    simp [Entry.texts]
  rw [render, Text.trimEnd, joined, String.toList_ofList, List.rdropWhile]

/-- Executions with proper entries that are written alike are the same. -/
theorem eq_of_render_eq (proper : ∀ entry ∈ execution.entries, entry.Proper)
    (proper' : ∀ entry ∈ execution'.entries, entry.Proper)
    (same : execution.render = execution'.render) : execution = execution' := by
  have trimmed := congrArg String.toList same
  rw [toList_render, toList_render] at trimmed
  have texts := congrArg untrim trimmed
  rw [untrim_rdropWhile_texts, untrim_rdropWhile_texts] at texts
  exact eq_of_entries_eq (Entry.eq_of_texts_eq proper proper' texts)

end Render

end Execution

namespace Program

variable {text text' : String} {program program' : Program} {limit limit' : Nat}
  {execution execution' : Execution}

/-- What a program leaves behind in its root scope it declares itself. -/
theorem exists_declares_of_mem_globals (ran : program.execute limit = .ok execution) {name : Name}
    (reported : name ∈ execution.globals.map Prod.fst) :
    ∃ tree ∈ program.body, name ∈ tree.newVariables := by
  obtain ⟨flow, final, run, globals, -⟩ := execute_eq_ok ran
  obtain ⟨before, behind, middle, parts, run', stops⟩ := Run.exists_of_execAll run
  obtain ⟨sound, -, added⟩ := Run.hasVariable_of_execAll RunState.sound_new run'
  obtain ⟨sound', kept⟩ := stops.hasVariable_iff sound
  rw [globals, ScopeTable.mem_rootVariables_iff fun _ => sound'.unique, kept] at reported
  obtain ⟨tree, member, declared⟩ | ⟨word, bound⟩ := (added name).1 reported
  · exact ⟨tree, parts ▸ List.mem_append_left behind member, declared⟩
  · cases bound

/-- The entries of a program that was read from a text are proper. -/
theorem proper_of_mem_entries (read : ofText text = .ok program)
    (ran : program.execute limit = .ok execution) : ∀ entry ∈ execution.entries, entry.Proper := by
  intro entry member
  cases entry with
  | returned values => trivial
  | errorCode code => trivial
  | global name value =>
    have reported : name ∈ execution.globals.map Prod.fst := by
      simpa [Execution.entries] using ⟨value, by simpa [Execution.entries] using member⟩
    obtain ⟨tree, within, declared⟩ := exists_declares_of_mem_globals ran reported
    obtain ⟨targets, op, values, rfl, target⟩ := Stmt.mem_newVariables_iff.1 declared
    exact (Stmt.proper_assign.1 (allProper_of_ofText read _ within).2).1.2.2.2 name target

/-- Programs that were read from texts and whose executions are written alike, whatever the limits of
open frames, leave the same variables with the same values behind, return the same results, if they
return any, and end with the same error code. -/
theorem eq_of_execute_render_eq (read : ofText text = .ok program) (read' : ofText text' = .ok program')
    (ran : program.execute limit = .ok execution) (ran' : program'.execute limit' = .ok execution')
    (same : execution.render = execution'.render) : execution = execution' :=
  Execution.eq_of_render_eq (proper_of_mem_entries read ran) (proper_of_mem_entries read' ran') same

/-- A negative value that is written and one that is computed, and a `return` without results, once in a
block and under another limit. -/
theorem eq_of_execute_render_eq_without_results :
    let text := "func f() \x7b\x7d\nvar n = -7\nreturn f()"
    let text' := "var n = 2-9\nfunc g() \x7b\x7d\n\x7breturn g()\x7d"
    ∃ program program' execution execution', ofText text = .ok program ∧ ofText text' = .ok program' ∧
      program.execute 1 = .ok execution ∧ program'.execute 2 = .ok execution' ∧
        execution.render = "n = -7\nreturn" ∧ execution.render = execution'.render ∧
          execution = execution' := by
  intro text text'
  have eq_ok_of_toOption {ε α : Type} {outcome : Except ε α} {value : α}
      (given : outcome.toOption = some value) : outcome = .ok value := by
    cases outcome with
    | error error => cases given
    | ok result => exact congrArg _ (Option.some.inj given)
  have run : (ofText text).toOption.bind (·.execute 1 |>.toOption) =
      some ⟨[("n", -7)], some [], none⟩ := by decide +kernel
  have run' : (ofText text').toOption.bind (·.execute 2 |>.toOption) =
      some ⟨[("n", -7)], some [], none⟩ := by decide +kernel
  obtain ⟨program, read, ran⟩ := Option.bind_eq_some_iff.1 run
  obtain ⟨program', read', ran'⟩ := Option.bind_eq_some_iff.1 run'
  have read := eq_ok_of_toOption read
  have read' := eq_ok_of_toOption read'
  have ran := eq_ok_of_toOption ran
  have ran' := eq_ok_of_toOption ran'
  exact ⟨program, program', _, _, read, read', ran, ran', by decide +kernel, rfl,
    eq_of_execute_render_eq read read' ran ran' rfl⟩

end Program

end ScriptLang

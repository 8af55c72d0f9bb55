import ScriptLang.Proofs.Emit.Calm

/-!
# Lines between braces

Printed lines are stacked: behind each line a number of braces is open, and the next line fits where
so many are. A line that fits starts no string and no comment that goes on behind it, and it is
indented by one level for each open brace, or by one fewer if it closes one. Lines that are stacked
stay so when all of them are moved one level in and stand within a brace more (`Stacked.indent`).
-/

namespace ScriptLang

open Mode (code)

/-- Braces in front of which `depth` braces are open, and behind which `depth'` are. -/
inductive Climbs : Nat → List (Nat × Mark) → Nat → Prop where
  | nil {depth : Nat} : Climbs depth [] depth
  | opens {depth depth' place : Nat} {braces : List (Nat × Mark)} :
      Climbs (depth + 1) braces depth' → Climbs depth ((place, .openBrace) :: braces) depth'
  | closes {depth depth' place : Nat} {braces : List (Nat × Mark)} :
      Climbs depth braces depth' → Climbs (depth + 1) ((place, .closeBrace) :: braces) depth'

namespace Climbs

variable {depth middle depth' : Nat} {first second braces : List (Nat × Mark)}

/-- Braces one behind the other climb as far as both do. -/
theorem append (here : Climbs depth first middle) (there : Climbs middle second depth') :
    Climbs depth (first ++ second) depth' := by
  induction here with
  | nil => exact there
  | opens _ ih => exact .opens (ih there)
  | closes _ ih => exact .closes (ih there)

/-- Between two parts of the braces there is a number of open ones. -/
theorem split (climbs : Climbs depth (first ++ second) depth') :
    ∃ middle, Climbs depth first middle ∧ Climbs middle second depth' := by
  induction first generalizing depth with
  | nil => exact ⟨depth, .nil, climbs⟩
  | cons brace first ih =>
    cases climbs with
    | opens climbs =>
      obtain ⟨middle, here, there⟩ := ih climbs
      exact ⟨middle, .opens here, there⟩
    | closes climbs =>
      obtain ⟨middle, here, there⟩ := ih climbs
      exact ⟨middle, .closes here, there⟩

/-- The same braces within one more. -/
theorem lift (climbs : Climbs depth braces depth') : Climbs (depth + 1) braces (depth' + 1) := by
  induction climbs with
  | nil => exact .nil
  | opens _ ih => exact .opens ih
  | closes _ ih => exact .closes ih

/-- What is open was open or has been opened, and has not been closed. -/
theorem count_eq (climbs : Climbs depth braces depth') :
    braces.countP (·.2 = .closeBrace) + depth' = depth + braces.countP (·.2 = .openBrace) := by
  induction climbs with
  | nil => simp
  | opens _ ih =>
    simp only [List.countP_cons]
    simp
    omega
  | closes _ ih =>
    simp only [List.countP_cons]
    simp
    omega

end Climbs

/-- A line that fits where `depth` braces are open, with `depth'` of them open behind it. A line feed
in it has the given reason. -/
structure Line.Fits (breaks : Prop) (depth : Nat) (line : Line) (depth' : Nat) : Prop where
  front : ∃ c rest, line.text.toList = c :: rest ∧ c ≠ ' ' ∧
    line.level + (if c = '\x7d' then 1 else 0) = depth
  run : code.run (line.text.toList ++ ['\n']) = code
  climbs (offset : Nat) : Climbs depth (code.braces offset (line.text.toList ++ ['\n'])) depth'
  lineFeed : '\n' ∈ line.text.toList → breaks

/-- Lines that fit one behind the other. -/
inductive Stacked (breaks : Prop) : Nat → List Line → Nat → Prop where
  | nil {depth : Nat} : Stacked breaks depth [] depth
  | cons {depth middle depth' : Nat} {line : Line} {rest : List Line} :
      line.Fits breaks depth middle → Stacked breaks middle rest depth' →
        Stacked breaks depth (line :: rest) depth'

section Stacks

variable {breaks : Prop} {depth middle depth' : Nat} {line : Line} {lines first second : List Line}
  {text tail : String}

namespace Line.Fits

/-- A line one level further in fits within one brace more. -/
theorem indent (fits : line.Fits breaks depth depth') :
    Fits breaks (depth + 1) ⟨line.level + 1, line.text⟩ (depth' + 1) := by
  obtain ⟨c, rest, same, blank, level⟩ := fits.front
  refine ⟨⟨c, rest, same, blank, ?_⟩, fits.run, fun offset => (fits.climbs offset).lift, fits.lineFeed⟩
  rw [← level, Nat.add_right_comm]

/-- A calm text with something behind it that is read up to the end of the line. -/
theorem outer_append (opens : Opens (text ++ tail)) (calm : Calm breaks text)
    (run : code.run (tail.toList ++ ['\n']) = code)
    (climbs : ∀ offset, Climbs 0 (code.braces offset (tail.toList ++ ['\n'])) depth')
    (line : '\n' ∉ tail.toList) : Fits breaks 0 (outer (text ++ tail)) depth' := by
  obtain ⟨c, rest, same, blank, brace⟩ := opens
  refine ⟨⟨c, rest, same, blank, by simp [outer, brace]⟩, ?_, fun offset => ?_, fun fed => ?_⟩
  · rw [outer, String.toList_append, List.append_assoc, Mode.run_append, calm.run, run]
  · rw [outer, String.toList_append, List.append_assoc, Mode.braces_append, calm.braces, calm.run]
    exact climbs _
  · rw [outer, String.toList_append] at fed
    exact calm.lineFeed ((List.mem_append.1 fed).resolve_right line)

/-- A line without braces fits wherever it stands. -/
theorem plain (opens : Opens text) (calm : Calm breaks text) : Fits breaks 0 (outer text) 0 := by
  have fits := outer_append (opens.append "") calm rfl (fun _ => .nil) (by simp)
  rwa [String.append_empty] at fits

/-- A line that opens a brace. -/
theorem opening (opens : Opens (text ++ "\x7b")) (calm : Calm breaks text) :
    Fits breaks 0 (outer (text ++ "\x7b")) 1 :=
  outer_append opens calm rfl (fun _ => .opens .nil) (by decide)

/-- A closing brace stands where one brace is open and closes it. -/
theorem closing : Fits breaks 1 (outer "\x7d") 0 :=
  ⟨⟨'\x7d', [], rfl, by decide, rfl⟩, rfl, fun _ => .closes .nil, fun fed => absurd fed (by decide)⟩

/-- A line that closes a brace and opens another one. -/
theorem between : Fits breaks 1 (outer "\x7d else \x7b") 1 :=
  ⟨⟨'\x7d', _, rfl, by decide, rfl⟩, rfl, fun _ => .closes (.opens .nil),
    fun fed => absurd fed (by decide)⟩

end Line.Fits

namespace Stacked

/-- A line that fits is a stack of one line. -/
theorem singleton (fits : line.Fits breaks depth depth') : Stacked breaks depth [line] depth' :=
  .cons fits .nil

/-- Stacks of lines one behind the other are a stack. -/
theorem append (here : Stacked breaks depth first middle) (there : Stacked breaks middle second depth') :
    Stacked breaks depth (first ++ second) depth' := by
  induction here with
  | nil => exact there
  | cons fits _ ih => exact .cons fits (ih there)

/-- Lines that are indented by one level fit where one more brace is open. -/
theorem indent (stacked : Stacked breaks depth lines depth') :
    Stacked breaks (depth + 1) (Line.indent lines) (depth' + 1) := by
  induction stacked with
  | nil => exact .nil
  | cons fits _ ih => exact .cons fits.indent ih

/-- Lines that open and close nothing fit in any order. -/
theorem of_forall (fits : ∀ line ∈ lines, line.Fits breaks depth depth) :
    Stacked breaks depth lines depth := by
  induction lines with
  | nil => exact .nil
  | cons line rest ih =>
    obtain ⟨here, there⟩ := List.forall_mem_cons.1 fits
    exact .cons here (ih there)

/-- Lines within braces. -/
theorem enclosed (fits : Line.Fits breaks 0 (Line.outer text) 1) (stacked : Stacked breaks 0 lines 0) :
    Stacked breaks 0 (Line.enclosed text lines) 0 :=
  .cons fits (stacked.indent.append (singleton .closing))

end Stacked

end Stacks

/-- A line of a text, and what stands in front of it. -/
structure IsLine (text before line : List Char) : Prop where
  whole : ∃ behind, text = before ++ line ++ behind ∧ ∀ c ∈ behind.head?, c = '\n'
  starts : ∀ c ∈ before.getLast?, c = '\n'
  single : '\n' ∉ line

/-- A line of a text whose first line is known is that one, or a line of what stands behind it. -/
theorem IsLine.cases {row rest before line : List Char} (alone : '\n' ∉ row)
    (isLine : IsLine (row ++ '\n' :: rest) before line) :
    (before = [] ∧ line = row) ∨
      ∃ before', before = row ++ '\n' :: before' ∧ IsLine rest before' line := by
  obtain ⟨⟨behind, whole, ends⟩, starts, single⟩ := isLine
  rcases List.eq_nil_or_concat before with rfl | ⟨front, c, rfl⟩
  · -- Both are what stands in front of the first line feed.
    have upTo {text : List Char} (behind : List Char) (alone : '\n' ∉ text)
        (ends : ∀ c ∈ behind.head?, c = '\n') : (text ++ behind).takeWhile (· ≠ '\n') = text := by
      have within : ∀ c ∈ text, decide (c ≠ '\n') = true :=
        fun c member => decide_eq_true (ne_of_mem_of_not_mem member alone)
      rw [List.takeWhile_append_of_pos within]
      cases behind with
      | nil => simp
      | cons c behind => simp [ends c rfl]
    have same := upTo ('\n' :: rest) alone (by simp)
    rw [whole, List.nil_append, upTo behind single ends] at same
    exact .inl ⟨rfl, same⟩
  · obtain rfl : c = '\n' := starts c (by simp)
    have whole' : row ++ '\n' :: rest = front ++ '\n' :: (line ++ behind) := by simpa using whole
    right
    rcases List.append_eq_append_iff.1 whole' with ⟨middle, rfl, same⟩ | ⟨middle, rfl, same⟩
    · cases middle with
      | nil => exact ⟨[], by simp, ⟨behind, by simpa using same, ends⟩, by simp, single⟩
      | cons c middle =>
        obtain ⟨rfl, rfl⟩ := List.cons.inj same
        exact ⟨middle ++ ['\n'], by simp, ⟨behind, by simp, ends⟩, by simp, single⟩
    · cases middle with
      | nil => exact ⟨[], by simp, ⟨behind, by simpa using same.symm, ends⟩, by simp, single⟩
      | cons c middle =>
        obtain ⟨rfl, -⟩ := List.cons.inj same
        exact absurd (by simp) alone

section Rendering

variable {breaks : Prop} {depth depth' : Nat} {line : Line} {lines : List Line} {row before : List Char}

/-- A row that stands where `depth` braces are open: it is indented by four blanks for each, or for
one fewer if it starts with a closing brace. -/
def IsIndented (depth : Nat) (row : List Char) : Prop :=
  ∃ level content, row = List.replicate (4 * level) ' ' ++ content ∧ content.head? ≠ some ' ' ∧
    level + (if content.head? = some '\x7d' then 1 else 0) = depth

/-- A line is written as four blanks for each level, its text and a line feed. -/
theorem Line.toList_render (line : Line) :
    line.render.toList = List.replicate (4 * line.level) ' ' ++ line.text.toList ++ ['\n'] := by
  simp [render]

namespace Line.Fits

/-- A rendered line is read as it is without its indentation. -/
theorem read (fits : line.Fits breaks depth depth') :
    code.run line.render.toList = code ∧
      ∀ offset, Climbs depth (code.braces offset line.render.toList) depth' := by
  have blank : ∀ c ∈ List.replicate (4 * line.level) ' ', Mode.isQuiet c = true := by
    intro c member
    rw [List.eq_of_mem_replicate member]
    rfl
  rw [toList_render, List.append_assoc]
  refine ⟨?_, fun offset => ?_⟩
  · rw [Mode.run_append, (Mode.quiet blank 0).1, fits.run]
  · rw [Mode.braces_append, (Mode.quiet blank offset).1, (Mode.quiet blank offset).2]
    exact fits.climbs _

/-- A line that fits is indented as the braces demand that are open in front of it. -/
theorem isIndented (fits : line.Fits breaks depth depth') :
    IsIndented depth (List.replicate (4 * line.level) ' ' ++ line.text.toList) := by
  obtain ⟨c, rest, same, blank, level⟩ := fits.front
  exact ⟨line.level, line.text.toList, rfl, by simpa [same] using blank, by simpa [same] using level⟩

/-- A line is rendered as one row. -/
theorem single (fits : line.Fits breaks depth depth') (whole : ¬breaks) :
    '\n' ∉ List.replicate (4 * line.level) ' ' ++ line.text.toList := by
  intro fed
  rcases List.mem_append.1 fed with fed | fed
  · exact absurd (List.eq_of_mem_replicate fed) (by decide)
  · exact whole (fits.lineFeed fed)

end Line.Fits

namespace Stacked

/-- Rendered lines are read from code to code. -/
theorem read (stacked : Stacked breaks depth lines depth') :
    code.run (Line.renderAll lines).toList = code ∧
      ∀ offset, Climbs depth (code.braces offset (Line.renderAll lines).toList) depth' := by
  induction stacked with
  | nil => exact ⟨rfl, fun _ => .nil⟩
  | @cons depth middle depth' line rest fits _ ih =>
    have whole : Line.renderAll (line :: rest) = line.render ++ Line.renderAll rest := by
      simp [Line.renderAll]
    rw [whole, String.toList_append]
    refine ⟨?_, fun offset => ?_⟩
    · rw [Mode.run_append, fits.read.1, ih.1]
    · rw [Mode.braces_append, fits.read.1]
      exact (fits.read.2 offset).append (ih.2 _)

/-- Each row of rendered lines is indented for the braces that are open in front of it. -/
theorem isIndented (stacked : Stacked breaks depth lines 0) (whole : ¬breaks)
    (isLine : IsLine (Line.renderAll lines).toList before row) :
    ∃ depth', (∀ offset, Climbs depth (code.braces offset before) depth') ∧ IsIndented depth' row := by
  generalize ends : 0 = last at stacked
  induction stacked generalizing before with
  | nil =>
    obtain ⟨⟨behind, nothing, -⟩, -, -⟩ := isLine
    obtain ⟨rfl, rfl, -⟩ : before = [] ∧ row = [] ∧ behind = [] := by
      simpa [Line.renderAll] using nothing
    exact ⟨_, fun _ => .nil, 0, [], rfl, by simp, by simpa using ends⟩
  | @cons depth middle depth' line rest fits stacked ih =>
    have whole' : (Line.renderAll (line :: rest)).toList =
        (List.replicate (4 * line.level) ' ' ++ line.text.toList) ++
          '\n' :: (Line.renderAll rest).toList := by
      simp [Line.renderAll, Line.render]
    rw [whole'] at isLine
    rcases isLine.cases (fits.single whole) with ⟨rfl, rfl⟩ | ⟨before', rfl, isLine'⟩
    · exact ⟨depth, fun _ => .nil, fits.isIndented⟩
    · obtain ⟨open', climbs, indented⟩ := ih isLine' ends
      refine ⟨open', fun offset => ?_, indented⟩
      rw [List.append_cons, ← Line.toList_render, Mode.braces_append, fits.read.1]
      exact (fits.read.2 offset).append (climbs _)

end Stacked

end Rendering

end ScriptLang

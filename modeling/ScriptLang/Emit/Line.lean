/-!
# Lines of generated text

Generated text is a list of lines, each with the number of levels that it is indented by. A level
is four spaces wide.
-/

namespace ScriptLang

/-- A line and its level. -/
structure Line where
  level : Nat
  text : String
deriving DecidableEq, Repr

namespace Line

/-- A line on the outermost level. -/
def outer (text : String) : Line := ⟨0, text⟩

/-- Moves lines one level in. -/
def indent (lines : List Line) : List Line :=
  lines.map fun line => ⟨line.level + 1, line.text⟩

/-- Lines between an opening line and a closing brace. -/
def enclosed (opening : String) (lines : List Line) : List Line :=
  outer opening :: indent lines ++ [outer "\x7d"]

/-- A line with its indentation and its line feed. -/
def render (line : Line) : String :=
  String.ofList (List.replicate (4 * line.level) ' ') ++ line.text ++ "\n"

/-- The text of all lines. -/
def renderAll (lines : List Line) : String :=
  String.join (lines.map render)

/-- The text of lines in front of others stands in front of the text of the others. -/
theorem renderAll_append (first second : List Line) :
    renderAll (first ++ second) = renderAll first ++ renderAll second := by
  simp [renderAll]

end Line

end ScriptLang

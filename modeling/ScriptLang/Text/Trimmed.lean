import ScriptLang.Text.Unprintable

/-!
# Trimmed text

A text without the white space at its end. White space is the plain space, the separators, and the
controls that move to another column or line.
-/

namespace ScriptLang.Text

/-- Whether a character shows nothing but space. -/
def isSpace (c : Char) : Bool :=
  c == ' ' || (0x9 ≤ c.toNat && c.toNat ≤ 0xD) || c.toNat == 0x85 || inRuns separatorRuns c.toNat

/-- Every character that the standard library takes for white space is one. -/
theorem isSpace_of_isWhitespace {c : Char} (blank : c.isWhitespace = true) : isSpace c = true := by
  simp only [Char.isWhitespace, Bool.or_eq_true, decide_eq_true_eq] at blank
  rcases blank with ((rfl | rfl) | rfl) | rfl <;> decide

/-- Drops the white space at the end of a text. -/
def trimEnd (text : String) : String :=
  String.ofList (text.toList.reverse.dropWhile isSpace).reverse

end ScriptLang.Text

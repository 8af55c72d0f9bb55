import ScriptLang.Text.Combining

/-!
# Quoted text

A text between double quotes on one line: quotes and backslashes get a backslash, four control
characters have a letter, every other character that would not be shown as itself is written by
its code point in lower-case hexadecimal digits.
-/

namespace ScriptLang.Text

/-- A code point in hexadecimal digits. -/
def codePoint (c : Char) : List Char :=
  ['\\', 'u', '\x7b'] ++ Nat.toDigits 16 c.toNat ++ ['\x7d']

/-- How a character is written within quotes. -/
def escape (c : Char) : List Char :=
  if c = '"' ∨ c = '\\' then ['\\', c]
  else if c = '\x00' then ['\\', '0']
  else if c = '\t' then ['\\', 't']
  else if c = '\r' then ['\\', 'r']
  else if c = '\n' then ['\\', 'n']
  else if isUnprintable c || isCombining c then codePoint c
  else [c]

/-- A text in quotes. -/
def quoted (text : String) : String :=
  "\"" ++ String.ofList (text.toList.flatMap escape) ++ "\""

end ScriptLang.Text

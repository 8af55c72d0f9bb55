import ScriptLang.Token.Basic

/-!
# Lexemes

How far the parts of a text reach, counted in characters: the gap before a token, a folded line
break, a string, a number, an identifier. `lexeme?` tells the kind and the length of the token at
the front of a text that starts with no gap; each kind but a mark takes the longest run that its
characters allow, and only a string that is never closed is refused.
-/

namespace ScriptLang.Lexeme

/-- Whether a character separates tokens without ending a line. -/
def isBlank (c : Char) : Bool :=
  c == ' ' || c == '\t'

/-- Whether a character ends a line. -/
def isLineEnd (c : Char) : Bool :=
  c == '\r' || c == '\n'

/-- Whether a character may follow the first digit of a number. -/
def isNumberPart (c : Char) : Bool :=
  c.isDigit || ('a' ≤ c && c ≤ 'f') || ('A' ≤ c && c ≤ 'F') ||
    c == '.' || c == '_' || c == 'o' || c == 'x'

/-- The characters that end an identifier. -/
def delimiters : List Char :=
  " \\\t\r\n\"';:`~!@#$%^&*()+-=|\x7b\x7d[]<>,./?".toList

/-- Whether a character may follow the first character of an identifier. -/
def isIdentifierPart (c : Char) : Bool :=
  !delimiters.contains c

/-- The length of a comment at the front of a text, up to the end of its line. -/
def commentLength : List Char → Nat
  | '/' :: '/' :: rest => 2 + (rest.takeWhile (!isLineEnd ·)).length
  | _ => 0

/-- The length of the gap before a token: blanks, then a comment. -/
def gapLength (text : List Char) : Nat :=
  (text.takeWhile isBlank).length + commentLength (text.dropWhile isBlank)

/-- The length of a folded line break: line ends, blanks and comments as far as they reach.
`inComment` tells that the text starts within a comment. -/
def breakLength (inComment : Bool) : List Char → Nat
  | [] => 0
  | c :: rest =>
      if isLineEnd c then 1 + breakLength false rest
      else if inComment then 1 + breakLength true rest
      else if isBlank c then 1 + breakLength false rest
      else if c = '/' ∧ rest.head? = some '/' then 1 + breakLength true rest
      else 0

/-- The length of a string behind its opening quote, the closing quote included. A backslash takes
the next character with it. -/
def stringLength? : List Char → Option Nat
  | [] => none
  | ['\\'] => none
  | '\\' :: _ :: rest => (stringLength? rest).map (· + 2)
  | c :: rest => if c = '"' then some 1 else (stringLength? rest).map (· + 1)

/-- The kind and the length of the token at the front of a text that starts with no gap; `none` if
it is a string that is not closed. -/
def lexeme? : List Char → Option (Token.Kind × Nat)
  | [] => some (.eof, 0)
  | text@(c :: rest) =>
      if isLineEnd c then some (.lineBreak, breakLength false text)
      else if c = '"' then (stringLength? rest).map fun length => (.string, length + 1)
      else if c.isDigit then some (.number, 1 + (rest.takeWhile isNumberPart).length)
      else match Mark.at? text with
        | some sign => some (.mark sign, sign.spelling.length)
        | none =>
            let word := c :: rest.takeWhile isIdentifierPart
            let kind := match Keyword.ofSpelling? (String.ofList word) with
              | some keyword => .keyword keyword
              | none => .identifier
            some (kind, word.length)

/-- The text that a token of a kind carries when it is written as the given characters: a string
without its quotes, and the fixed names of a line break and of the end. -/
def tokenText (written : List Char) : Token.Kind → String
  | .eof => Token.eofText
  | .lineBreak => Token.lineBreakText
  | .string => String.ofList (written.drop 1).dropLast
  | _ => String.ofList written

end ScriptLang.Lexeme

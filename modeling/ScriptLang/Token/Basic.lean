/-!
# Tokens

The words, marks and literals that a script is made of, with the place where each one stands.
Keywords and marks have one spelling each; `Keyword.ofSpelling?` and `Mark.at?` recognise them, and
of two marks that both stand at the front of a text `Mark.at?` takes the longer.
-/

namespace ScriptLang

/-- The reserved words. -/
inductive Keyword where
  | var
  | cond
  | thenArm
  | elseArm
  | and
  | or
  | not
  | func
  | ret
  | cast
  | use
deriving DecidableEq, Repr

namespace Keyword

/-- How a reserved word is written. -/
def spelling : Keyword → String
  | var => "var"
  | cond => "if"
  | thenArm => "then"
  | elseArm => "else"
  | and => "and"
  | or => "or"
  | not => "not"
  | func => "func"
  | ret => "return"
  | cast => "as"
  | use => "import"

/-- Lists the reserved words. -/
def all : List Keyword :=
  [var, cond, thenArm, elseArm, and, or, not, func, ret, cast, use]

/-- Every reserved word is listed. -/
theorem mem_all (word : Keyword) : word ∈ all := by
  cases word <;> decide

/-- The reserved word that is written as the given text. -/
def ofSpelling? (text : String) : Option Keyword :=
  all.find? (·.spelling = text)

/-- A reserved word is recognised by its spelling. -/
theorem ofSpelling?_spelling (word : Keyword) : ofSpelling? word.spelling = some word := by
  cases word <;> decide

/-- Only the spelling of a reserved word is recognised. -/
theorem spelling_of_ofSpelling? {text : String} {word : Keyword}
    (found : ofSpelling? text = some word) : word.spelling = text := by
  simpa using List.find?_some found

end Keyword

/-- Operators and punctuation. -/
inductive Mark where
  | plus
  | minus
  | star
  | slash
  | assign
  | plusAssign
  | minusAssign
  | starAssign
  | slashAssign
  | equal
  | notEqual
  | less
  | lessEqual
  | greater
  | greaterEqual
  | ampAmp
  | pipePipe
  | bang
  | amp
  | pipe
  | caret
  | tilde
  | openParen
  | closeParen
  | openBrace
  | closeBrace
  | comma
  | dot
  | colon
deriving DecidableEq, Repr

namespace Mark

/-- How a mark is written. -/
def spelling : Mark → String
  | plus => "+"
  | minus => "-"
  | star => "*"
  | slash => "/"
  | assign => "="
  | plusAssign => "+="
  | minusAssign => "-="
  | starAssign => "*="
  | slashAssign => "/="
  | equal => "=="
  | notEqual => "!="
  | less => "<"
  | lessEqual => "<="
  | greater => ">"
  | greaterEqual => ">="
  | ampAmp => "&&"
  | pipePipe => "||"
  | bang => "!"
  | amp => "&"
  | pipe => "|"
  | caret => "^"
  | tilde => "~"
  | openParen => "("
  | closeParen => ")"
  | openBrace => "\x7b"
  | closeBrace => "\x7d"
  | comma => ","
  | dot => "."
  | colon => ":"

/-- Lists the marks, those of two characters first. -/
def longestFirst : List Mark :=
  [plusAssign, minusAssign, starAssign, slashAssign, equal, notEqual, lessEqual, greaterEqual,
    ampAmp, pipePipe, plus, minus, star, slash, assign, less, greater, bang, amp, pipe, caret,
    tilde, openParen, closeParen, openBrace, closeBrace, comma, dot, colon]

/-- Every mark is listed. -/
theorem mem_longestFirst (mark : Mark) : mark ∈ longestFirst := by
  cases mark <;> decide

/-- The longest mark at the front of a text. -/
def at? (text : List Char) : Option Mark :=
  longestFirst.find? (·.spelling.toList.isPrefixOf text)

/-- Whether the mark assigns, plainly or with an arithmetic operation. -/
def assigns : Mark → Bool
  | assign | plusAssign | minusAssign | starAssign | slashAssign => true
  | _ => false

end Mark

namespace Token

/-- What a token is. -/
inductive Kind where
  | eof
  | lineBreak
  | number
  | string
  | identifier
  | keyword (word : Keyword)
  | mark (sign : Mark)
deriving DecidableEq, Repr

namespace Kind

/-- How messages name a kind of token. -/
def description : Kind → String
  | eof => "end of input"
  | lineBreak => "line break"
  | number => "number"
  | string => "string"
  | identifier => "identifier"
  | .keyword word => "'" ++ word.spelling ++ "'"
  | .mark sign => "'" ++ sign.spelling ++ "'"

/-- Whether the token is an assignment operator. -/
def assigns : Kind → Bool
  | .mark sign => sign.assigns
  | _ => false

end Kind

/-- The text that the token at the end of the input carries. -/
def eofText : String := "EOF"

/-- The text that a line break carries. -/
def lineBreakText : String := "ENTER"

end Token

/-- A place in a text: bytes before it, lines counted from one, characters since the last line
feed. -/
structure Position where
  offset : Nat
  line : Nat
  column : Nat
deriving DecidableEq, Repr

namespace Position

/-- The front of a text. -/
def start : Position := ⟨0, 1, 0⟩

/-- The place behind a character. -/
def next (position : Position) (c : Char) : Position :=
  if c = '\n' then ⟨position.offset + c.utf8Size, position.line + 1, 0⟩
  else ⟨position.offset + c.utf8Size, position.line, position.column + 1⟩

/-- The place behind a run of characters. -/
def advance (position : Position) (text : List Char) : Position :=
  text.foldl next position

/-- Without characters to go over, a position stays. -/
@[simp] theorem advance_nil (position : Position) : position.advance [] = position := rfl

/-- A position goes over characters one by one. -/
@[simp] theorem advance_cons (position : Position) (c : Char) (text : List Char) :
    position.advance (c :: text) = (position.next c).advance text := rfl

/-- Going over two texts is going over one and then over the other. -/
theorem advance_append (position : Position) (first second : List Char) :
    position.advance (first ++ second) = (position.advance first).advance second :=
  List.foldl_append

end Position

/-- The extent of a token: the place where it starts and the byte offset where it stops. -/
structure Span where
  start : Position
  stop : Nat
deriving DecidableEq, Repr

/-- A token: its kind, its text and where it stands. -/
structure Token where
  kind : Token.Kind
  text : String
  span : Span
deriving DecidableEq, Repr

/-- The ways in which cutting a text into tokens can fail. -/
inductive LexError where
  /-- A string is not closed; the position is that of its opening quote. -/
  | unterminatedString (line column : Nat)
deriving DecidableEq, Repr

namespace LexError

/-- The text that reports the error. -/
def message : LexError → String
  | unterminatedString line column =>
      "Unterminated string literal at line " ++ toString line ++ ", column " ++ toString column

end LexError

end ScriptLang

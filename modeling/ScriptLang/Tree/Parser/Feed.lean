import ScriptLang.Token.Source
import ScriptLang.Tree.Basic

/-!
# The feed of a parser

A parser looks at the current token, and at the one behind it if it must. A feed holds the two and
the source of the rest; `advance`, `peek` and `eat` are the only ways to move it, and `eat` is the
only place where a token is refused. A computation over a feed ends with a result, with a fault of
the input, or because its fuel is used up.
-/

namespace ScriptLang

/-- The faults that a parser reports. -/
inductive ParseError where
  | unexpectedToken (expected found : Token.Kind) (text : String) (line column : Nat)
  | invalidNumber (literal : String) (line column : Nat)
  | lex (error : LexError)
deriving DecidableEq, Repr

/-- The text that reports the fault. -/
def ParseError.message : ParseError → String
  | unexpectedToken expected found text line column =>
      "Unexpected token at line " ++ toString line ++ ", column " ++ toString column ++
        ": expected " ++ expected.description ++ ", got " ++ found.description ++ " '" ++ text ++
        "'"
  | invalidNumber literal line column =>
      "Invalid number literal '" ++ literal ++ "' at line " ++ toString line ++ ", column " ++
        toString column
  | lex error => error.message

/-- The current token, the one behind it if it was looked at, and the source of the rest. -/
structure Feed (σ : Type) where
  current : Token
  peeked : Option Token
  source : σ

/-- Why a computation over a feed stops without a result. -/
inductive Stop where
  | fault (error : ParseError)
  | outOfFuel
deriving DecidableEq, Repr

/-- A computation over a feed. -/
abbrev Parse (σ : Type) (α : Type) : Type := EStateM Stop (Feed σ) α

namespace Parse

variable {σ : Type}

/-- Stops with a fault of the input. -/
def fail {α : Type} (error : ParseError) : Parse σ α := throw (.fault error)

/-- Stops because the fuel is used up. -/
def exhausted {α : Type} : Parse σ α := throw .outOfFuel

/-- The kind of the current token. -/
def kind : Parse σ Token.Kind := fun feed => .ok feed.current.kind feed

/-- Whether the current token is of a kind. -/
def sees (expected : Token.Kind) : Parse σ Bool :=
  fun feed => .ok (feed.current.kind = expected) feed

variable [TokenSource σ]

/-- Gives the current token and moves to the one behind it. -/
def advance : Parse σ Token := fun feed =>
  match feed.peeked with
  | some token => .ok feed.current ⟨token, none, feed.source⟩
  | none =>
      match TokenSource.next feed.source with
      | (.ok token, source) => .ok feed.current ⟨token, none, source⟩
      | (.error error, source) => .error (.fault (.lex error)) ⟨feed.current, none, source⟩

/-- The kind of the token behind the current one. -/
def peek : Parse σ Token.Kind := fun feed =>
  match feed.peeked with
  | some token => .ok token.kind feed
  | none =>
      match TokenSource.next feed.source with
      | (.ok token, source) => .ok token.kind ⟨feed.current, some token, source⟩
      | (.error error, source) => .error (.fault (.lex error)) ⟨feed.current, none, source⟩

/-- Gives the current token and moves on if the token is of the kind; refuses it otherwise. -/
def eat (expected : Token.Kind) : Parse σ Token := fun feed =>
  let token := feed.current
  if token.kind = expected then advance feed
  else .error (.fault (.unexpectedToken expected token.kind token.text token.span.start.line
    token.span.start.column)) feed

/-- Moves on if the current token has a meaning, and gives the meaning. -/
def take? {α : Type} (meaning? : Token.Kind → Option α) : Parse σ (Option α) := fun feed =>
  match meaning? feed.current.kind with
  | some meaning =>
      match advance feed with
      | .ok _ behind => .ok (some meaning) behind
      | .error stop behind => .error stop behind
  | none => .ok none feed

/-- Moves on if the current token is of the kind, and tells whether it did. -/
def accept (expected : Token.Kind) : Parse σ Bool := fun feed =>
  if feed.current.kind = expected then
    match advance feed with
    | .ok _ behind => .ok true behind
    | .error stop behind => .error stop behind
  else .ok false feed

/-- One or more items with commas between them. -/
def commaSeparated {α : Type} (item : Parse σ α) : Nat → Parse σ (List α)
  | 0 => exhausted
  | fuel + 1 => do
      let first ← item
      if ← accept (.mark .comma) then
        let rest ← commaSeparated item fuel
        return first :: rest
      else
        return [first]

/-- Joins operands from left to right while an operator stands between them. -/
def leftAssociated {α : Type} (operator? : Token.Kind → Option (α → α → α)) (operand : Parse σ α) :
    Nat → α → Parse σ α
  | 0, _ => exhausted
  | fuel + 1, left => do
      match ← take? operator? with
      | some combine =>
          let right ← operand
          leftAssociated operator? operand fuel (combine left right)
      | none => return left

end Parse

end ScriptLang

import ScriptLang.Numeral
import ScriptLang.Tree.Parser.Feed

/-!
# Parsing expressions

Operators between operands stand on seven levels, each associated to the left; operators in front
of an operand bind tighter. The words `or`, `and` and `not` bind looser than all of these and occur
only in conditions and in parentheses. Only `operand` calls itself, each time behind a token that
it has used, so fuel above the number of tokens is never used up.
-/

namespace ScriptLang.Parse

/-- The operators of one level, each with the tree that it builds. -/
abbrev Level : Type := Token.Kind → Option (Expr → Expr → Expr)

/-- The level of the operators in a table. -/
def level (table : List (Mark × (Expr → Expr → Expr))) : Level
  | .mark sign => table.lookup sign
  | _ => none

/-- The levels of operators between operands, the loosest first. -/
def levels : List Level :=
  [level [(.pipePipe, .logic .or)],
    level [(.ampAmp, .logic .and)],
    level [(.less, .logic .less), (.lessEqual, .logic .lessEqual), (.greater, .logic .greater),
      (.greaterEqual, .logic .greaterEqual), (.equal, .logic .equal),
      (.notEqual, .logic .notEqual)],
    level [(.amp, .binary .bitAnd), (.pipe, .binary .bitOr), (.caret, .binary .bitXor)],
    level [(.plus, .binary .add), (.minus, .binary .sub)],
    level [(.star, .binary .mul), (.slash, .binary .div)],
    fun kind => if kind = .keyword .cast then some .cast else none]

/-- The operators that stand in front of an operand. -/
def unaryOp? : Token.Kind → Option UnaryOp
  | .mark .star => some .deref
  | .mark .minus => some .negate
  | .mark .plus => some .plus
  | .mark .amp => some .addressOf
  | .mark .bang => some .not
  | .mark .tilde => some .bitNot
  | _ => none

variable {σ : Type} [TokenSource σ]

/-- The words of a dotted name behind the first. -/
def nameRest : Nat → Name → Parse σ Name
  | 0, _ => exhausted
  | fuel + 1, name => do
      if ← accept (.mark .dot) then
        let word ← eat .identifier
        nameRest fuel (name ++ "." ++ word.text)
      else
        return name

/-- A name of one or more words with dots between them. -/
def name (fuel : Nat) : Parse σ Name := do
  let word ← eat .identifier
  nameRest fuel word.text

/-- A number, with the word that it denotes. -/
def number : Parse σ (String × Word) := do
  let token ← eat .number
  match Numeral.value? token.text with
  | some value => return (token.text, value)
  | none => fail (.invalidNumber token.text token.span.start.line token.span.start.column)

/-- Operands joined by the operators of the levels. A seed is a name that stands in front of the
feed; it is the first operand of all. -/
def joined (operand : Option Name → Parse σ Expr) (fuel : Nat) :
    List Level → Option Name → Parse σ Expr
  | [], seed => operand seed
  | operator? :: tighter, seed => do
      let left ← joined operand fuel tighter seed
      leftAssociated operator? (joined operand fuel tighter none) fuel left

/-- A condition without `and` and `or`: an expression behind any number of `not`. -/
def negation (expression : Parse σ Expr) : Nat → Parse σ Expr
  | 0 => exhausted
  | fuel + 1 => do
      if ← accept (.keyword .not) then
        let inner ← negation expression fuel
        return .logicPrefix .not inner
      else
        expression

/-- A condition: negations joined by `and`, and these by `or`. -/
def condition (expression : Parse σ Expr) (fuel : Nat) : Parse σ Expr := do
  let first ← conjunction
  leftAssociated (fun kind => if kind = .keyword .or then some (.logic .or) else none)
    conjunction fuel first
where
  conjunction : Parse σ Expr := do
    let first ← negation expression fuel
    leftAssociated (fun kind => if kind = .keyword .and then some (.logic .and) else none)
      (negation expression fuel) fuel first

/-- What a name at the front of an operand is: a call if an argument list follows, else a
variable. -/
def callOrVariable (expression : Parse σ Expr) (fuel : Nat) (name : Name) : Parse σ Expr := do
  if ← accept (.mark .openParen) then
    let args ← arguments
    let _ ← eat (.mark .closeParen)
    return .call name args
  else
    return .variable name
where
  arguments : Parse σ (List Expr) := do
    if ← sees (.mark .closeParen) then
      return []
    else
      commaSeparated expression fuel

/-- An operand without operators: a number, a string, a condition in parentheses, a call or a
variable. -/
def factor (expression : Parse σ Expr) (fuel : Nat) : Parse σ Expr := do
  match ← kind with
  | .number =>
      let (literal, value) ← number
      return .number literal value
  | .string =>
      let token ← eat .string
      return .string token.text
  | .mark .openParen =>
      let _ ← eat (.mark .openParen)
      let inner ← condition expression fuel
      let _ ← eat (.mark .closeParen)
      return inner
  | _ =>
      let name ← name fuel
      callOrVariable expression fuel name

/-- An operand with the operators in front of it. -/
def operand : Nat → Option Name → Parse σ Expr
  | 0, _ => exhausted
  | fuel + 1, some seed => callOrVariable (joined (operand fuel) fuel levels none) fuel seed
  | fuel + 1, none => do
      match ← take? unaryOp? with
      | some op =>
          let inner ← operand fuel none
          return .unary op inner
      | none => factor (joined (operand fuel) fuel levels none) fuel

/-- An expression that may start with a name in front of the feed. -/
def seededExpression (fuel : Nat) (seed : Option Name) : Parse σ Expr :=
  joined (operand fuel) fuel levels seed

/-- An expression. -/
def expression (fuel : Nat) : Parse σ Expr :=
  seededExpression fuel none

end ScriptLang.Parse

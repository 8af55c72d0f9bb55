import ScriptLang.Run.Fault

/-!
# Operators on words

What the operators of the language compute. An operation whose exact result does not fit into a
word overflows; truth values are one and zero, and every word but zero is true.
-/

namespace ScriptLang

/-- The word, or the overflow of an operation. -/
def orOverflow (symbol : String) (result : Option Word) : Except Fault Word :=
  match result with
  | some word => .ok word
  | none => .error (.overflow symbol)

/-- Applies an operator in front of its operand. -/
def UnaryOp.apply (op : UnaryOp) (operand : Word) : Except Fault Word :=
  match op with
  | negate => orOverflow op.symbol (Word.neg? operand)
  | plus => .ok operand
  | not => .ok (Word.ofBool (operand == 0))
  | bitNot => .ok (~~~operand)
  | deref | addressOf => .error (.unsupportedOperator op.symbol)

/-- Applies an operator on two words; a quotient is rounded toward zero. -/
def BinaryOp.apply (op : BinaryOp) (left right : Word) : Except Fault Word :=
  match op with
  | add => orOverflow op.symbol (Word.add? left right)
  | sub => orOverflow op.symbol (Word.sub? left right)
  | mul => orOverflow op.symbol (Word.mul? left right)
  | div =>
      if right = 0 then .error .divisionByZero
      else orOverflow op.symbol (Word.quotient? left right)
  | bitAnd => .ok (left &&& right)
  | bitOr => .ok (left ||| right)
  | bitXor => .ok (left ^^^ right)

/-- Whether a word is true. -/
def Word.isTrue (word : Word) : Bool := word != 0

/-- The result of an operator that its left operand decides alone. -/
def LogicOp.shortcut? (op : LogicOp) (left : Word) : Option Word :=
  match op with
  | and => if left.isTrue then none else some 0
  | or => if left.isTrue then some 1 else none
  | _ => none

/-- The truth value of an operator on two words, where the left one does not decide alone. -/
def LogicOp.holds (op : LogicOp) (left right : Word) : Bool :=
  match op with
  | and | or => right.isTrue
  | not => !right.isTrue
  | equal => left == right
  | notEqual => left != right
  | less => left < right
  | lessEqual => left ≤ right
  | greater => right < left
  | greaterEqual => right ≤ left

end ScriptLang

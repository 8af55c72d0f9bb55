import Mathlib.Data.Int.Bitwise
import ScriptLang.Proofs.Run.CallFree

/-!
# Words against unbounded integers

`Expr.exactly` computes an expression without calls in the integers: quotients are rounded toward
zero, the operators on bits read an integer as its infinite two's complement, and truth values are one
and zero. It keeps the list of its steps, and it goes on behind a result that no word holds; only a
step that has no result at all ends it. A run computes in words and stops at the first step whose
result does not fit or that has none (`Run.describes_eval`), so no result ever wraps around.
-/

namespace ScriptLang

/-- The integer for a truth value. -/
def truth (condition : Bool) : ℤ :=
  if condition then 1 else 0

namespace Word

section Bits

/-- An integer is told by the bits of its infinite two's complement. -/
theorem eq_of_testBit_eq {first second : ℤ}
    (same : ∀ place, first.testBit place = second.testBit place) : first = second := by
  -- Far enough to the left a natural number has zeros only, and a negative integer has ones only.
  have far (count count' : Nat) :
      ∃ place, count.testBit place = false ∧ count'.testBit place = false := by
    refine ⟨count + count', Nat.testBit_lt_two_pow ?_, Nat.testBit_lt_two_pow ?_⟩
    · exact (Nat.le_add_right ..).trans_lt Nat.lt_two_pow_self
    · exact (Nat.le_add_left ..).trans_lt Nat.lt_two_pow_self
  cases first with
  | ofNat count => cases second with
    | ofNat count' => exact congrArg Int.ofNat (Nat.eq_of_testBit_eq same)
    | negSucc count' =>
      obtain ⟨place, zero, zero'⟩ := far count count'
      have here := same place
      simp [Int.testBit, zero, zero'] at here
  | negSucc count => cases second with
    | ofNat count' =>
      obtain ⟨place, zero, zero'⟩ := far count count'
      have here := same place
      simp [Int.testBit, zero, zero'] at here
    | negSucc count' =>
      exact congrArg Int.negSucc (Nat.eq_of_testBit_eq fun place => Bool.not_inj (same place))

/-- The bits of a word as an integer are those of the word, and its sign from there on. -/
theorem testBit_toInt (word : Word) (place : Nat) :
    word.toInt.testBit place = word.toBitVec.getLsbD (min place 63) := by
  have wide := word.toBitVec.isLt
  have sign : word.toBitVec.msb = word.toBitVec.getLsbD 63 := BitVec.msb_eq_getLsbD_last _
  have least (within : place < 64) : min place 63 = place :=
    Nat.min_eq_left (Nat.le_of_lt_succ within)
  have most (beyond : 64 ≤ place) : min place 63 = 63 := Nat.min_eq_right (by omega)
  rw [← Int64.toInt_toBitVec, BitVec.toInt_eq_msb_cond]
  split
  · rename_i negative
    have signed : (word.toBitVec.toNat : ℤ) - (2 ^ 64 : Nat) =
        Int.negSucc (~~~word.toBitVec).toNat := by
      rw [BitVec.toNat_not]
      omega
    rw [signed]
    change (!(~~~word.toBitVec).toNat.testBit place) = _
    rw [BitVec.testBit_toNat, BitVec.getLsbD_not]
    rcases Nat.lt_or_ge place 64 with within | beyond
    · simp only [least within, within, decide_true, Bool.true_and, Bool.not_not]
    · simp [most beyond, ← sign, negative, Nat.not_lt.2 beyond]
  · rename_i positive
    change word.toBitVec.toNat.testBit place = _
    rw [BitVec.testBit_toNat]
    rcases Nat.lt_or_ge place 64 with within | beyond
    · rw [least within]
    · rw [most beyond, ← sign, Bool.eq_false_iff.2 positive, BitVec.getLsbD_of_ge _ _ beyond]

/-- The complement of a word is the complement of its integer. -/
theorem toInt_not (word : Word) : (~~~word).toInt = word.toInt.lnot :=
  eq_of_testBit_eq fun place => by
    have within : min place 63 < 64 := by omega
    rw [testBit_toInt, Int.testBit_lnot, testBit_toInt, Int64.toBitVec_not, BitVec.getLsbD_not,
      decide_eq_true within, Bool.true_and]

/-- The common bits of two words are those of their integers. -/
theorem toInt_and (left right : Word) : (left &&& right).toInt = left.toInt.land right.toInt :=
  eq_of_testBit_eq fun place => by simp [testBit_toInt, Int.testBit_land]

/-- The bits of either of two words are those of either of their integers. -/
theorem toInt_or (left right : Word) : (left ||| right).toInt = left.toInt.lor right.toInt :=
  eq_of_testBit_eq fun place => by simp [testBit_toInt, Int.testBit_lor]

/-- The bits in which two words differ are those in which their integers do. -/
theorem toInt_xor (left right : Word) : (left ^^^ right).toInt = left.toInt.xor right.toInt :=
  eq_of_testBit_eq fun place => by simp [testBit_toInt, Int.testBit_lxor]

end Bits

/-- The word for a truth value is its integer. -/
theorem toInt_ofBool (condition : Bool) : (ofBool condition).toInt = truth condition := by
  cases condition <;> rfl

/-- A word is zero exactly if its integer is. -/
theorem toInt_eq_zero_iff {word : Word} : word.toInt = 0 ↔ word = 0 := by
  rw [← Int64.toInt_zero, Int64.toInt_inj]

end Word

/-- One step of a computation in the integers: an operator gives a result, or there is none. -/
inductive Step where
  | computes (symbol : String) (value : ℤ)
  | dividesByZero
  | unbound (error : NameError)
  | string (text : String)
  | unsupported (symbol : String)
  | headless (op : LogicOp)

namespace Step

/-- A step has a result, and a word holds it. -/
def Fits : Step → Prop
  | computes _ value => Word.Fits value
  | _ => False

instance : DecidablePred Fits
  | computes _ value => inferInstanceAs (Decidable (Word.Fits value))
  | dividesByZero | unbound _ | string _ | unsupported _ | headless _ => isFalse id

/-- The fault that stops a run at a step that does not fit. -/
def fault : Step → Fault
  | computes symbol _ => .overflow symbol
  | dividesByZero => .divisionByZero
  | unbound error => .name error
  | string text => .stringAsNumber text
  | unsupported symbol => .unsupportedOperator symbol
  | headless op => .missingOperand op

end Step

/-- A computation in the integers: its steps, one after the other, and what it comes to, unless a step
has no result. -/
structure Exact where
  steps : List Step
  value? : Option ℤ

namespace Exact

/-- An integer that is known without a step. -/
def known (value : ℤ) : Exact := ⟨[], some value⟩

/-- One step that gives a result. -/
def computed (symbol : String) (value : ℤ) : Exact := ⟨[.computes symbol value], some value⟩

/-- One step that has no result. -/
def stuck (step : Step) : Exact := ⟨[step], none⟩

/-- One computation after another, which is told what the first one comes to. -/
def andThen (first : Exact) (next : ℤ → Exact) : Exact :=
  match first.value? with
  | none => first
  | some value => ⟨first.steps ++ (next value).steps, (next value).value?⟩

/-- The first step that does not fit. -/
def firstFailing? (exact : Exact) : Option Step :=
  exact.steps.find? (¬·.Fits)

end Exact

/-- An operator in front of an integer. -/
def UnaryOp.exactly (op : UnaryOp) (operand : ℤ) : Exact :=
  match op with
  | negate => .computed op.symbol (-operand)
  | plus => .computed op.symbol operand
  | not => .computed op.symbol (truth (operand = 0))
  | bitNot => .computed op.symbol operand.lnot
  | deref | addressOf => .stuck (.unsupported op.symbol)

/-- An operator on two integers. -/
def BinaryOp.exactly (op : BinaryOp) (left right : ℤ) : Exact :=
  match op with
  | add => .computed op.symbol (left + right)
  | sub => .computed op.symbol (left - right)
  | mul => .computed op.symbol (left * right)
  | div => if right = 0 then .stuck .dividesByZero else .computed op.symbol (left.tdiv right)
  | bitAnd => .computed op.symbol (left.land right)
  | bitOr => .computed op.symbol (left.lor right)
  | bitXor => .computed op.symbol (left.xor right)

/-- The truth value of `and` and `or` where the left integer decides alone. -/
def LogicOp.decides? (op : LogicOp) (left : ℤ) : Option ℤ :=
  match op with
  | and => if left = 0 then some 0 else none
  | or => if left = 0 then none else some 1
  | _ => none

/-- What an operator asks of two integers, where the left one does not decide alone. -/
def LogicOp.relates (op : LogicOp) (left right : ℤ) : Bool :=
  match op with
  | and | or => right ≠ 0
  | not => right = 0
  | equal => left = right
  | notEqual => left ≠ right
  | less => left < right
  | lessEqual => left ≤ right
  | greater => right < left
  | greaterEqual => right ≤ left

/-- An expression without calls, computed in the integers. -/
def Expr.exactly (lookup : Name → Except NameError Word) : Expr → Exact
  | number _ value => .known value.toInt
  | string text => .stuck (.string text)
  | .variable name =>
    match lookup name with
    | .ok word => .known word.toInt
    | .error error => .stuck (.unbound error)
  | unary op operand => (operand.exactly lookup).andThen op.exactly
  | binary op left right =>
    (left.exactly lookup).andThen fun first => (right.exactly lookup).andThen (op.exactly first)
  | cast value _ => value.exactly lookup
  | logic .not _ right =>
    (right.exactly lookup).andThen fun value => .computed LogicOp.not.symbol (truth (value = 0))
  | logic op left right =>
    (left.exactly lookup).andThen fun first =>
      match op.decides? first with
      | some value => .computed op.symbol value
      | none => (right.exactly lookup).andThen fun second =>
          .computed op.symbol (truth (op.relates first second))
  | logicPrefix .not right =>
    (right.exactly lookup).andThen fun value => .computed LogicOp.not.symbol (truth (value = 0))
  | logicPrefix op _ => .stuck (.headless op)
  | call .. => ⟨[], none⟩

namespace Exact

variable {exact first : Exact} {next : ℤ → Exact}

/-- A result in words follows a computation in the integers: it is the same integer if all steps fit,
and otherwise the fault of the first step that does not. -/
inductive Matches (exact : Exact) : Except Fault Word → Prop
  | ok {word : Word} : exact.firstFailing? = none → exact.value? = some word.toInt →
      Matches exact (.ok word)
  | error {step : Step} : exact.firstFailing? = some step → Matches exact (.error step.fault)

/-- A word follows the integer that it stores. -/
theorem matches_known (word : Word) : (known word.toInt).Matches (.ok word) :=
  .ok rfl rfl

/-- A fault follows a step that has no result. -/
theorem matches_stuck {step : Step} (stops : ¬step.Fits) : (stuck step).Matches (.error step.fault) :=
  .error (by simp [firstFailing?, stuck, stops])

/-- A result that overflows if it does not fit follows the step that computes it. -/
theorem matches_orOverflow (symbol : String) (value : ℤ) :
    (computed symbol value).Matches (orOverflow symbol (Word.ofInt? value)) := by
  cases stored : Word.ofInt? value with
  | none =>
    have stops : ¬(Step.computes symbol value).Fits := Word.ofInt?_eq_none_iff.1 stored
    exact @Matches.error _ (.computes symbol value) (by simp [firstFailing?, computed, stops])
  | some word =>
    obtain rfl := Word.ofInt?_eq_some_iff.1 stored
    have fits : (Step.computes symbol word.toInt).Fits := Word.fits_toInt word
    exact .ok (by simp [firstFailing?, computed, fits]) rfl

/-- What a word holds fits. -/
theorem matches_computed {symbol : String} {value : ℤ} {word : Word} (same : word.toInt = value) :
    (computed symbol value).Matches (.ok word) := by
  have checked := matches_orOverflow symbol value
  rwa [Word.ofInt?_eq_some_iff.2 same] at checked

/-- The first step that fails in two computations is that of the first, or else that of the
second. -/
theorem firstFailing?_andThen {value : ℤ} (given : first.value? = some value) :
    (first.andThen next).firstFailing? = first.firstFailing?.or (next value).firstFailing? := by
  rw [andThen, given]
  exact List.find?_append

/-- A step that fails in the first computation is the first that fails in both. -/
theorem firstFailing?_andThen_of_some {step : Step} (stops : first.firstFailing? = some step) :
    (first.andThen next).firstFailing? = some step := by
  cases given : first.value? with
  | none => rwa [andThen, given]
  | some value => rw [firstFailing?_andThen given, stops, Option.some_or]

end Exact

/-- A unary operator on words follows the operator on integers. -/
theorem UnaryOp.matches_apply (op : UnaryOp) (operand : Word) :
    (op.exactly operand.toInt).Matches (op.apply operand) := by
  cases op with
  | negate => exact Exact.matches_orOverflow ..
  | plus => exact Exact.matches_computed rfl
  | not =>
    refine Exact.matches_computed ?_
    rw [Word.toInt_ofBool, beq_eq_decide, decide_eq_decide.2 Word.toInt_eq_zero_iff]
  | bitNot => exact Exact.matches_computed (Word.toInt_not operand)
  | deref => exact Exact.matches_stuck id
  | addressOf => exact Exact.matches_stuck id

/-- A binary operator on words follows the operator on integers. -/
theorem BinaryOp.matches_apply (op : BinaryOp) (left right : Word) :
    (op.exactly left.toInt right.toInt).Matches (op.apply left right) := by
  cases op with
  | add => exact Exact.matches_orOverflow ..
  | sub => exact Exact.matches_orOverflow ..
  | mul => exact Exact.matches_orOverflow ..
  | div =>
    unfold exactly apply
    simp only [Word.toInt_eq_zero_iff]
    split
    · exact Exact.matches_stuck id
    · exact Exact.matches_orOverflow ..
  | bitAnd => exact Exact.matches_computed (Word.toInt_and left right)
  | bitOr => exact Exact.matches_computed (Word.toInt_or left right)
  | bitXor => exact Exact.matches_computed (Word.toInt_xor left right)

namespace LogicOp

/-- The left operand decides a logic operator in words as it does in the integers. -/
theorem decides?_toInt (op : LogicOp) (left : Word) :
    op.decides? left.toInt = (op.shortcut? left).map Int64.toInt := by
  unfold decides? shortcut?
  cases op with
  | and | or =>
    simp only [Word.isTrue, Word.toInt_eq_zero_iff, bne_iff_ne, ne_eq, ite_not]
    split <;> rfl
  | _ => rfl

/-- A relation holds between words as it does between their integers. -/
theorem relates_toInt (op : LogicOp) (left right : Word) :
    op.relates left.toInt right.toInt = op.holds left right := by
  cases op <;> simp [relates, holds, Word.isTrue, bne, beq_eq_decide, Word.toInt_eq_zero_iff,
    Int64.toInt_inj, Int64.lt_iff_toInt_lt, Int64.le_iff_toInt_le]

end LogicOp

namespace Exact

variable {exact first : Exact} {next : ℤ → Exact} {state : RunState} {run : Run Word}

/-- The operator `not` in a condition. -/
theorem matches_negation (word : Word) :
    (computed LogicOp.not.symbol (truth (word.toInt = 0))).Matches
      (.ok (Word.ofBool (!word.isTrue))) := by
  refine matches_computed ?_
  rw [Word.toInt_ofBool, decide_eq_decide.2 Word.toInt_eq_zero_iff, Word.isTrue, bne, Bool.not_not,
    beq_eq_decide]

/-- A run from a state follows a computation in the integers and changes nothing. -/
def Describes (exact : Exact) (run : Run Word) (state : RunState) : Prop :=
  ∃ result, run state = Run.ofExcept result state ∧ exact.Matches result

/-- Taking a result that follows a computation is a run that follows it. -/
theorem Matches.describes {result : Except Fault Word} (followed : exact.Matches result) :
    exact.Describes (Run.ofExcept result) state :=
  ⟨result, rfl, followed⟩

/-- If the first part of a run follows a computation in the integers, then what comes behind has to
follow only from what a word holds. -/
theorem Describes.bind {second : Word → Run Word} (here : first.Describes run state)
    (there : ∀ word, (next word.toInt).Describes (second word) state) :
    (first.andThen next).Describes (run >>= second) state := by
  obtain ⟨result, same, followed⟩ := here
  unfold Describes
  simp only [Bind.bind, EStateM.bind, same]
  cases followed with
  | ok fits given =>
    rename_i word
    obtain ⟨result', same', followed'⟩ := there word
    refine ⟨result', same', ?_⟩
    have failing := @firstFailing?_andThen _ next _ given
    rw [fits, Option.none_or] at failing
    cases followed' with
    | ok fits' given' => exact .ok (failing.trans fits') (by rw [andThen, given, given'])
    | error stops => exact .error (failing.trans stops)
  | error stops =>
    -- The integers may go on here and come to something; the run has ended.
    exact ⟨_, rfl, .error (firstFailing?_andThen_of_some stops)⟩

/-- A run that follows a computation in the integers gives what that comes to if all of its steps fit,
and nothing otherwise. -/
theorem Describes.eq_ok_iff (described : exact.Describes run state)
    {word : Word} {final : RunState} : run state = .ok word final ↔
      final = state ∧ exact.value? = some word.toInt ∧ ∀ step ∈ exact.steps, step.Fits := by
  have all : exact.firstFailing? = none ↔ ∀ step ∈ exact.steps, step.Fits := by simp [firstFailing?]
  obtain ⟨result, same, followed⟩ := described
  rw [same, ← all]
  cases followed with
  | ok fits given =>
    rename_i found
    rw [given, Option.some_inj, Int64.toInt_inj]
    constructor
    · intro outcome
      obtain ⟨rfl, rfl⟩ := EStateM.Result.ok.inj outcome
      exact ⟨rfl, rfl, fits⟩
    · rintro ⟨rfl, rfl, -⟩
      rfl
  | error stops =>
    constructor
    · intro outcome
      cases outcome
    · rintro ⟨-, -, fits⟩
      rw [fits] at stops
      cases stops

/-- It stops with the fault of the first step that does not fit. -/
theorem Describes.eq_error_iff (described : exact.Describes run state)
    {fault : Fault} {final : RunState} : run state = .error fault final ↔
      final = state ∧ ∃ step, exact.firstFailing? = some step ∧ step.fault = fault := by
  obtain ⟨result, same, followed⟩ := described
  rw [same]
  cases followed with
  | ok fits given =>
    constructor
    · intro outcome
      cases outcome
    · rintro ⟨-, step, stops, -⟩
      rw [fits] at stops
      cases stops
  | error stops =>
    constructor
    · intro outcome
      obtain ⟨rfl, rfl⟩ := EStateM.Result.error.inj outcome
      exact ⟨rfl, _, stops, rfl⟩
    · rintro ⟨rfl, step, stops', rfl⟩
      obtain rfl := Option.some.inj (stops.symm.trans stops')
      rfl

/-- The first step that fails does not fit. -/
theorem not_fits_of_firstFailing? {step : Step} (stops : exact.firstFailing? = some step) :
    ¬step.Fits := by
  simpa using List.find?_some stops

end Exact

/-- An expression without calls is computed as in the integers, up to the first step that does not
fit. -/
theorem Run.describes_eval (call : Caller) (state : RunState) : ∀ tree : Expr, tree.callFree = true →
    (tree.exactly state.table.value).Describes (eval call tree) state
  | .number _ value, _ => (Exact.matches_known value).describes
  | .string text, _ => (@Exact.matches_stuck (.string text) id).describes
  | .variable name, _ => by
      unfold Expr.exactly eval read Exact.Describes
      dsimp only
      cases state.table.value name with
      | ok word => exact ⟨_, rfl, Exact.matches_known word⟩
      | error error => exact ⟨_, rfl, @Exact.matches_stuck (.unbound error) id⟩
  | .unary op operand, free =>
      (describes_eval call state operand free).bind fun word => (op.matches_apply word).describes
  | .binary op left right, free => by
      obtain ⟨free, free'⟩ := Bool.and_eq_true_iff.1 free
      exact (describes_eval call state left free).bind fun first =>
        (describes_eval call state right free').bind fun second =>
          (op.matches_apply first second).describes
  | .cast value _, free => describes_eval call state value (Bool.and_eq_true_iff.1 free).1
  | .logic op left right, free => by
      obtain ⟨free, free'⟩ := Bool.and_eq_true_iff.1 free
      by_cases negates : op = .not
      · subst negates
        exact (describes_eval call state right free').bind fun word =>
          (Exact.matches_negation word).describes
      · rw [eval, Expr.exactly]
        · -- Whether the right operand is needed is decided by the left one, in both alike.
          refine (describes_eval call state left free).bind fun first => ?_
          rw [LogicOp.decides?_toInt]
          cases op.shortcut? first with
          | some word => exact (Exact.matches_computed rfl).describes
          | none =>
            refine (describes_eval call state right free').bind fun second => ?_
            rw [LogicOp.relates_toInt]
            exact (Exact.matches_computed (Word.toInt_ofBool _)).describes
        · exact negates
        · exact negates
  | .logicPrefix op right, free => by
      by_cases negates : op = .not
      · subst negates
        exact (describes_eval call state right free).bind fun word =>
          (Exact.matches_negation word).describes
      · rw [eval, Expr.exactly]
        · exact (@Exact.matches_stuck (.headless op) id).describes
        · exact negates
        · exact negates
  | .call .., free => nomatch free

/-- Arithmetic never wraps around. An expression without calls gives a word if and only if it comes to
that integer and every step on the way fits; it overflows in an operator if and only if the first step
that does not fit is that operator with a result that no word holds; it divides by zero if and only if
the first step that does not fit does; and every other fault is that of the first step without a
result. The state stays as it is. -/
theorem Run.eval_iff_exactly (call : Caller) (tree : Expr) (free : tree.callFree = true)
    (state final : RunState) :
    let exact := tree.exactly state.table.value
    (∀ word, eval call tree state = .ok word final ↔
      final = state ∧ exact.value? = some word.toInt ∧ ∀ step ∈ exact.steps, step.Fits) ∧
    (∀ symbol, eval call tree state = .error (.overflow symbol) final ↔
      final = state ∧ ∃ value, ¬Word.Fits value ∧
        exact.firstFailing? = some (.computes symbol value)) ∧
    (eval call tree state = .error .divisionByZero final ↔
      final = state ∧ exact.firstFailing? = some .dividesByZero) ∧
    ∀ fault, eval call tree state = .error fault final ↔
      final = state ∧ ∃ step, exact.firstFailing? = some step ∧ step.fault = fault := by
  intro exact
  have described := describes_eval call state tree free
  refine ⟨fun word => described.eq_ok_iff, fun symbol => ?_, ?_, fun fault => described.eq_error_iff⟩
  · rw [described.eq_error_iff]
    refine and_congr_right fun _ => ⟨?_, ?_⟩
    · rintro ⟨step, stops, same⟩
      cases step with
      | computes symbol' value =>
        obtain rfl := Fault.overflow.inj same
        exact ⟨value, Exact.not_fits_of_firstFailing? stops, stops⟩
      | _ => cases same
    · rintro ⟨value, -, stops⟩
      exact ⟨_, stops, rfl⟩
  · rw [described.eq_error_iff]
    refine and_congr_right fun _ => ⟨?_, fun stops => ⟨_, stops, rfl⟩⟩
    rintro ⟨step, stops, same⟩
    cases step with
    | dividesByZero => exact stops
    | _ => cases same

/-- In the integers the difference of the squares is zero and the division has no result, but no word
holds the first square. -/
theorem Run.eval_iff_exactly_overflow_before_division :
    let caller : Caller := call 0 (enter RunState.recycle 0 0)
    let greatest : Expr := .number "9223372036854775807" 9223372036854775807
    let square : Expr := .binary .mul greatest greatest
    let tree : Expr := .binary .div (.number "1" 1) (.binary .sub square square)
    tree.callFree = true ∧ (tree.exactly RunState.new.table.value).value? = none ∧
      eval caller tree RunState.new = .error (.overflow "*") RunState.new := by
  intro caller greatest square tree
  have overflows := (eval_iff_exactly caller tree rfl RunState.new RunState.new).2.1 "*"
  exact ⟨rfl, rfl, overflows.2 ⟨rfl, 85070591730234615847396907784232501249, by decide, rfl⟩⟩

end ScriptLang

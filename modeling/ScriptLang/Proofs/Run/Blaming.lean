import ScriptLang.Proofs.Emit.Searching
import ScriptLang.Proofs.Run.CallFree
import ScriptLang.Proofs.Run.Relation
import ScriptLang.Proofs.Tree.Proper

/-!
# Which unknown name is blamed

A strict expression consists of numbers, names without dots and operators that need the values of all
their operands. A run asks for its names from left to right. Printing it looks for the same names, but
for those on the right of a comparison first. So if the run stops at a name that means nothing, then so
does the printing, and each blames the first such name in its own order (`Run.blames_of_eval`): it is the
same name unless a comparison has the one on its left and the other on its right.
-/

namespace ScriptLang

namespace Expr

/-- Whether the expression consists of numbers, names without dots, and operators that no operand
decides alone: there is no string, no cast and no call in it, and each operator has its operands. -/
def strict : Expr → Bool
  | number .. => true
  | .variable name => !name.isDotted
  | unary _ operand => operand.strict
  | binary _ left right => left.strict && right.strict
  | logic op left right => op != .and && op != .or && (left.strict && right.strict)
  | logicPrefix op right => op == .not && right.strict
  | string _ | cast .. | call .. => false

/-- Printing looks for the names that a run asks for. -/
theorem sought_perm_reads : ∀ tree : Expr, tree.strict = true → tree.sought.Perm tree.reads
  | number .., _ | .variable _, _ => .refl _
  | unary _ operand, strict => sought_perm_reads operand strict
  | binary _ left right, strict => by
      obtain ⟨first, second⟩ := Bool.and_eq_true_iff.1 strict
      exact (sought_perm_reads left first).append (sought_perm_reads right second)
  | logic op left right, strict => by
      obtain ⟨first, second⟩ := Bool.and_eq_true_iff.1 (Bool.and_eq_true_iff.1 strict).2
      refine List.perm_append_comm.trans (List.Perm.append ?_ (sought_perm_reads right second))
      split
      · exact .refl _
      · exact sought_perm_reads left first
  | logicPrefix op right, strict => by
      obtain ⟨negates, rest⟩ := Bool.and_eq_true_iff.1 strict
      rw [reads, if_pos (eq_of_beq negates)]
      exact sought_perm_reads right rest
  | string _, strict | cast .., strict | call .., strict => nomatch strict

end Expr

namespace Run

open Emit (Known firstUnknown? firstUnknown?_append)

variable {α β : Type} {names names' : List Name}

/-- The computation changes nothing and gives no result unless the names are known; if it meets an
undefined reference, this is the first unknown name. -/
def Asks (names : List Name) (run : Run α) : Prop :=
  ∀ state, match run state with
    | .ok _ final => final = state ∧ firstUnknown? state.table names = none
    | .error fault _ => ∀ name, fault = .name (.undefinedReference name) →
        firstUnknown? state.table names = some name

/-- What gives a value at once asks for no name. -/
theorem asks_pure (value : α) : Asks [] (pure value : Run α) :=
  fun _ => ⟨rfl, rfl⟩

/-- A result that is given or refused for its arithmetic asks for no name. -/
theorem asks_ofExcept {result : Except Fault α}
    (arithmetic : ∀ fault, result = .error fault → fault.isArithmetic = true) :
    Asks [] (ofExcept result) := by
  intro state
  cases result with
  | ok value => exact ⟨rfl, rfl⟩
  | error fault =>
    rintro name rfl
    cases arithmetic _ rfl

/-- Two steps ask for the names of the first and then for those of the second. -/
theorem Asks.bind {first : Run α} {second : α → Run β} (here : Asks names first)
    (there : ∀ value, Asks names' (second value)) : Asks (names ++ names') (first >>= second) := by
  intro state
  have result := here state
  simp only [Bind.bind, EStateM.bind, firstUnknown?_append]
  cases outcome : first state with
  | error fault final =>
    simp only [outcome] at result
    intro name same
    rw [result name same, Option.some_or]
  | ok value final =>
    simp only [outcome] at result
    obtain ⟨rfl, known⟩ := result
    rw [known, Option.none_or]
    exact there value final

/-- What is computed from a result asks for no name. -/
theorem Asks.bind_nil {first : Run α} {second : α → Run β} (here : Asks names first)
    (there : ∀ value, Asks [] (second value)) : Asks names (first >>= second) := by
  have both := here.bind there
  rwa [List.append_nil] at both

/-- Reading a variable asks for its name. -/
theorem asks_read {name : Name} (undotted : name.isDotted = false) : Asks [name] (read name) := by
  intro state
  have unknown (means : state.table.get? name = none) :
      firstUnknown? state.table [name] = some name := by
    simp [firstUnknown?, Known, undotted, means]
  have known {symbol : Symbol Nat} (means : state.table.get? name = some symbol) :
      firstUnknown? state.table [name] = none := by
    simp [firstUnknown?, Known, means]
  unfold read ScopeTable.value
  cases means : state.table.get? name with
  | none =>
    intro other same
    cases same
    exact unknown means
  | some symbol =>
    obtain word | entry := symbol
    · exact ⟨rfl, known means⟩
    · intro other same
      cases same

/-- A strict expression asks for its names from left to right. -/
theorem asks_eval (call : Caller) : ∀ tree : Expr, tree.strict = true →
    Asks tree.reads (eval call tree)
  | .number _ value, _ => asks_pure value
  | .variable name, undotted => asks_read (by simpa [Expr.strict] using undotted)
  | .unary _ operand, strict =>
      (asks_eval call operand strict).bind_nil fun _ =>
        asks_ofExcept fun _ => UnaryOp.isArithmetic_of_apply
  | .binary _ left right, strict => by
      obtain ⟨first, second⟩ := Bool.and_eq_true_iff.1 strict
      exact (asks_eval call left first).bind fun _ => (asks_eval call right second).bind_nil fun _ =>
        asks_ofExcept fun _ => BinaryOp.isArithmetic_of_apply
  | .logic op left right, strict => by
      obtain ⟨total, operands⟩ := Bool.and_eq_true_iff.1 strict
      obtain ⟨first, second⟩ := Bool.and_eq_true_iff.1 operands
      by_cases negates : op = .not
      · subst negates
        exact (asks_eval call right second).bind_nil fun _ => asks_pure _
      · rw [eval, Expr.reads, if_neg negates]
        · refine (asks_eval call left first).bind fun word => ?_
          have undecided : op.shortcut? word = none := by
            cases op <;> first | rfl | cases total
          rw [undecided]
          exact (asks_eval call right second).bind_nil fun _ => asks_pure _
        · exact negates
  | .logicPrefix op right, strict => by
      obtain ⟨negates, rest⟩ := Bool.and_eq_true_iff.1 strict
      obtain rfl := eq_of_beq negates
      exact (asks_eval call right rest).bind_nil fun _ => asks_pure _
  | .string _, strict | .cast .., strict | .call .., strict => nomatch strict

end Run

namespace Emit

variable {table : ScopeTable Nat} {first first' second second' : List Name} {read printed : Name}

/-- Two lists are gone through in the same order, whatever the order within each: the names that come
first are in the same one. -/
theorem firstUnknown?_aligned (perm : first'.Perm first)
    (asked : firstUnknown? table (first ++ second) = some read)
    (sought : firstUnknown? table (first' ++ second') = some printed) :
    firstUnknown? table first = some read ∧ firstUnknown? table first' = some printed ∨
      firstUnknown? table second = some read ∧ firstUnknown? table second' = some printed := by
  rw [firstUnknown?_append] at asked sought
  have same : firstUnknown? table first' = none ↔ firstUnknown? table first = none :=
    firstUnknown?_eq_none_iff perm
  cases here : firstUnknown? table first with
  | none =>
    rw [here, Option.none_or] at asked
    rw [same.2 here, Option.none_or] at sought
    exact .inr ⟨asked, sought⟩
  | some name =>
    obtain ⟨name', here'⟩ := Option.ne_none_iff_exists'.1 fun none => by
      cases here.symm.trans (same.1 none)
    rw [here, Option.some_or] at asked
    rw [here', Option.some_or] at sought
    exact .inl ⟨asked, here'.trans sought⟩

/-- Two lists are gone through in opposite orders: the names that come first are in the same one, or
each is in the list that comes first. -/
theorem firstUnknown?_crossed (perm : first'.Perm first)
    (asked : firstUnknown? table (first ++ second) = some read)
    (sought : firstUnknown? table (second' ++ first') = some printed) :
    firstUnknown? table first = some read ∧ firstUnknown? table first' = some printed ∨
      firstUnknown? table second = some read ∧ firstUnknown? table second' = some printed ∨
        firstUnknown? table first = some read ∧ firstUnknown? table second' = some printed := by
  rw [firstUnknown?_append] at asked sought
  cases here : firstUnknown? table first with
  | none =>
    rw [here, Option.none_or] at asked
    rw [(firstUnknown?_eq_none_iff perm).2 here, Option.or_none] at sought
    exact .inr (.inl ⟨asked, sought⟩)
  | some name =>
    rw [here, Option.some_or] at asked
    cases there : firstUnknown? table second' with
    | none =>
      rw [there, Option.none_or] at sought
      exact .inl ⟨asked, sought⟩
    | some name' =>
      rw [there, Option.some_or] at sought
      exact .inr (.inr ⟨asked, sought⟩)

end Emit

namespace Expr

open Emit (firstUnknown? firstUnknown?_aligned firstUnknown?_crossed)

variable {table : ScopeTable Nat} {read printed : Name}

/-- A comparison in the expression has the one name on its left and the other on its right. -/
def Compares (tree : Expr) (first second : Name) : Prop :=
  ∃ op left right, .logic op left right ∈ tree.nodes ∧ op ≠ .not ∧ first ∈ left.reads ∧
    second ∈ right.reads

/-- A comparison in a part of an expression is one in the expression. -/
theorem Compares.within {part whole : Expr} {first second : Name} (compares : part.Compares first second)
    (within : part.nodes ⊆ whole.nodes) : whole.Compares first second := by
  obtain ⟨op, left, right, node, others⟩ := compares
  exact ⟨op, left, right, within node, others⟩

/-- The names that come first in the two orders are one name, or a comparison has the one on its left
and the other on its right. -/
theorem eq_or_compares : ∀ tree : Expr, tree.strict = true →
    firstUnknown? table tree.reads = some read → firstUnknown? table tree.sought = some printed →
      printed = read ∨ tree.Compares read printed
  | number .., _, asked, _ => nomatch asked
  | .variable _, _, asked, sought => .inl (Option.some.inj (sought.symm.trans asked))
  | unary _ operand, strict, asked, sought =>
      (eq_or_compares operand strict asked sought).imp_right
        (·.within (List.subset_cons_self _ _))
  | binary op left right, strict, asked, sought => by
      obtain ⟨first, second⟩ := Bool.and_eq_true_iff.1 strict
      have leftmost : left.nodes ⊆ (binary op left right).nodes :=
        List.subset_cons_of_subset _ (List.subset_append_left _ _)
      have rightmost : right.nodes ⊆ (binary op left right).nodes :=
        List.subset_cons_of_subset _ (List.subset_append_right _ _)
      rcases firstUnknown?_aligned (sought_perm_reads left first) asked sought with
        ⟨asked, sought⟩ | ⟨asked, sought⟩
      · exact (eq_or_compares left first asked sought).imp_right (·.within leftmost)
      · exact (eq_or_compares right second asked sought).imp_right (·.within rightmost)
  | logic op left right, strict, asked, sought => by
      obtain ⟨first, second⟩ := Bool.and_eq_true_iff.1 (Bool.and_eq_true_iff.1 strict).2
      have leftmost : left.nodes ⊆ (logic op left right).nodes :=
        List.subset_cons_of_subset _ (List.subset_append_left _ _)
      have rightmost : right.nodes ⊆ (logic op left right).nodes :=
        List.subset_cons_of_subset _ (List.subset_append_right _ _)
      by_cases negates : op = .not
      · rw [reads, if_pos negates, List.nil_append] at asked
        rw [Expr.sought, if_pos negates, List.append_nil] at sought
        exact (eq_or_compares right second asked sought).imp_right (·.within rightmost)
      · rw [reads, if_neg negates] at asked
        rw [Expr.sought, if_neg negates] at sought
        -- One order goes through the left operand first, and the other through the right one.
        rcases firstUnknown?_crossed (sought_perm_reads left first) asked sought with
          ⟨asked, sought⟩ | ⟨asked, sought⟩ | ⟨asked, sought⟩
        · exact (eq_or_compares left first asked sought).imp_right (·.within leftmost)
        · exact (eq_or_compares right second asked sought).imp_right (·.within rightmost)
        · have onRight := (sought_perm_reads right second).subset (List.mem_of_find?_eq_some sought)
          exact .inr ⟨op, left, right, List.mem_cons_self, negates, List.mem_of_find?_eq_some asked,
            onRight⟩
  | logicPrefix op right, strict, asked, sought => by
      obtain ⟨negates, rest⟩ := Bool.and_eq_true_iff.1 strict
      rw [reads, if_pos (eq_of_beq negates)] at asked
      exact (eq_or_compares right rest asked sought).imp_right
        (·.within (List.subset_cons_self _ _))
  | string _, strict, _, _ | cast .., strict, _, _ | call .., strict, _, _ => nomatch strict

end Expr

namespace Run

open Emit (firstUnknown?)

/-- If a strict expression stops at a name that means nothing, then printing it against the same table
fails on a name too. The first unknown name in the order of the run is blamed here, and there the first
in the order of the printing. They are the same unless a comparison has the one on its left and the
other on its right. -/
theorem blames_of_eval {call : Caller} {tree : Expr} (strict : tree.strict = true)
    {state final : RunState} {read : Name}
    (stops : eval call tree state = .error (.name (.undefinedReference read)) final)
    (dialect : Dialect) :
    ∃ printed,
      Emit.expr dialect state.table tree = .error (.name (.undefinedReference printed)) ∧
        firstUnknown? state.table tree.reads = some read ∧
          firstUnknown? state.table tree.sought = some printed ∧
            (printed = read ∨ tree.Compares read printed) := by
  have asked := asks_eval call tree strict state
  rw [stops] at asked
  have asked := asked read rfl
  have perm := Expr.sought_perm_reads tree strict
  have searches : Emit.Searches state.table tree.sought (Emit.expr dialect state.table tree) :=
    Emit.searches_expr tree
  unfold Emit.Searches at searches
  cases sought : firstUnknown? state.table tree.sought with
  | none => cases asked.symm.trans ((Emit.firstUnknown?_eq_none_iff perm).1 sought)
  | some printed =>
    rw [sought] at searches
    exact ⟨printed, searches, asked, rfl, tree.eq_or_compares strict asked sought⟩

/-- A comparison of two unknown names behind one that is known. -/
def comparing : Expr :=
  .logic .less (.binary .add (.variable "known") (.variable "first")) (.variable "second")

/-- A table in which one variable is declared. -/
def oneVariable : RunState :=
  { RunState.new with table := ⟨[⟨none, [("known", .variable 1)]⟩], 0⟩ }

/-- A run stops at the first of the two names, and printing stops at the second. -/
theorem blames_of_eval_comparing :
    comparing.strict = true ∧
      eval (call 1 (enter RunState.recycle 1 1)) comparing oneVariable =
          .error (.name (.undefinedReference "first")) oneVariable ∧
        ∃ printed,
          Emit.expr .c oneVariable.table comparing =
              .error (.name (.undefinedReference printed)) ∧
            firstUnknown? oneVariable.table comparing.reads = some "first" ∧
              firstUnknown? oneVariable.table comparing.sought = some printed ∧
                (printed = "first" ∨ comparing.Compares "first" printed) := by
  have stops : eval (call 1 (enter RunState.recycle 1 1)) comparing oneVariable =
      .error (.name (.undefinedReference "first")) oneVariable := rfl
  exact ⟨rfl, stops, blames_of_eval rfl stops .c⟩

/-- A run and a printing do not always blame the same name. -/
theorem not_blames_alike : ¬∀ (call : Caller) (tree : Expr) (state final : RunState) (name : Name)
    (dialect : Dialect), tree.strict = true →
      eval call tree state = .error (.name (.undefinedReference name)) final →
        Emit.expr dialect state.table tree = .error (.name (.undefinedReference name)) := by
  intro alike
  have blamed := alike (call 1 (enter RunState.recycle 1 1)) comparing oneVariable oneVariable "first"
    .c rfl rfl
  have printed : Emit.expr .c oneVariable.table comparing =
      .error (.name (.undefinedReference "second")) := rfl
  rw [printed] at blamed
  injection blamed with same
  injection same with same
  injection same with same
  exact absurd same (by decide)

end Run

end ScriptLang

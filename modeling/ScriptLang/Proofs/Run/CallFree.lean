import Mathlib.Data.List.Forall2
import ScriptLang.Run.Execution

/-!
# Expressions without calls

An expression without calls changes nothing, and its outcome depends on the values of the names that
it reads and on nothing else of the state. `Expr.reads` leaves out what is not evaluated: the type of
a cast, and the left operand of `not`.
-/

namespace ScriptLang

namespace Expr

/-- Whether an expression contains no call. -/
def callFree : Expr → Bool
  | number .. | string _ | .variable _ => true
  | unary _ operand => operand.callFree
  | binary _ left right | cast left right | logic _ left right => left.callFree && right.callFree
  | logicPrefix _ right => right.callFree
  | call .. => false

/-- The names whose values an expression without calls can ask for. -/
def reads : Expr → List Name
  | number .. | string _ => []
  | .variable name => [name]
  | unary _ operand => operand.reads
  | binary _ left right => left.reads ++ right.reads
  | cast value _ => value.reads
  | logic op left right => (if op = .not then [] else left.reads) ++ right.reads
  | logicPrefix op right => if op = .not then right.reads else []
  | call callee _ => [callee]

end Expr

namespace Run

variable {α β : Type} {names names' : List Name}

/-- One computation after another gives a result if both do. -/
theorem bind_eq_ok {first : Run α} {second : α → Run β} {state final : RunState} {result : β} :
    (first >>= second) state = .ok result final ↔
      ∃ value middle, first state = .ok value middle ∧ second value middle = .ok result final := by
  simp only [Bind.bind, EStateM.bind]
  cases first state with
  | ok value middle => simp
  | error fault middle => simp

/-- A result that is taken is the given one, and the state stays. -/
theorem ofExcept_eq_ok {result : Except Fault α} {value : α} {state final : RunState}
    (taken : ofExcept result state = .ok value final) : final = state ∧ result = .ok value := by
  cases result with
  | ok found =>
    obtain ⟨rfl, rfl⟩ := EStateM.Result.ok.inj taken
    exact ⟨rfl, rfl⟩
  | error fault => cases taken

/-- A change of the table changes nothing else. -/
theorem updateTable_eq_ok {state final : RunState}
    {change : ScopeTable Nat → Except NameError (ScopeTable Nat)}
    (updated : updateTable change state = .ok () final) :
    ∃ table, change state.table = .ok table ∧ final = { state with table } := by
  unfold updateTable at updated
  split at updated
  · rename_i table changed
    exact ⟨table, changed, (EStateM.Result.ok.inj updated).2.symm⟩
  · cases updated

/-- A computation changes nothing, and it gives the same from states in which the names have the same
values. -/
def ReadsOnly (names : List Name) (run : Run α) : Prop :=
  ∀ ⦃state state' : RunState⦄,
    (∀ name ∈ names, state'.table.value name = state.table.value name) →
      ∃ result, run state = ofExcept result state ∧ run state' = ofExcept result state'

/-- What changes nothing leaves the state as it is, and it gives the same in every state in which its
names have the same values. -/
theorem ReadsOnly.of_agree {run : Run α} (reads : ReadsOnly names run) {state state' : RunState}
    {value : α} {final : RunState} (outcome : run state = .ok value final)
    (agree : ∀ name ∈ names, state'.table.value name = state.table.value name) :
    final = state ∧ run state' = .ok value state' := by
  obtain ⟨result, same, same'⟩ := reads agree
  rw [outcome] at same
  cases result with
  | error fault => cases same
  | ok value =>
    cases same
    exact ⟨rfl, same'⟩

/-- Taking a result reads nothing. -/
theorem readsOnly_ofExcept (result : Except Fault α) : ReadsOnly names (ofExcept result) :=
  fun _ _ _ => ⟨result, rfl, rfl⟩

/-- Giving a value reads nothing. -/
theorem readsOnly_pure (value : α) : ReadsOnly names (pure value : Run α) :=
  readsOnly_ofExcept (.ok value)

/-- Stopping at a fault reads nothing. -/
theorem readsOnly_throw (fault : Fault) : ReadsOnly names (throw fault : Run α) :=
  readsOnly_ofExcept (.error fault)

/-- What reads only some names reads only names among more of them. -/
theorem ReadsOnly.mono {run : Run α} (reads : ReadsOnly names run) (more : names ⊆ names') :
    ReadsOnly names' run :=
  fun _ _ agree => reads fun name member => agree name (more member)

/-- Two steps read only the names that each of them does. -/
theorem readsOnly_bind {first : Run α} {second : α → Run β} (here : ReadsOnly names first)
    (there : ∀ value, ReadsOnly names (second value)) : ReadsOnly names (first >>= second) := by
  intro state state' agree
  obtain ⟨result, same, same'⟩ := here agree
  simp only [Bind.bind, EStateM.bind, same, same']
  cases result with
  | error fault => exact ⟨.error fault, rfl, rfl⟩
  | ok value => exact there value agree

/-- Reading a variable reads only its name. -/
theorem readsOnly_read {name : Name} (member : name ∈ names) : ReadsOnly names (read name) := by
  intro state state' agree
  have same := agree name member
  unfold read
  rw [same]
  cases state.table.value name with
  | ok word => exact ⟨.ok word, rfl, rfl⟩
  | error error => exact ⟨.error (.name error), rfl, rfl⟩

/-- An expression without calls reads its names and does nothing else. -/
theorem readsOnly_eval (call : Caller) : ∀ tree : Expr, tree.callFree = true →
    ReadsOnly tree.reads (eval call tree)
  | .number _ value, _ => readsOnly_pure value
  | .string _, _ => readsOnly_throw _
  | .variable _, _ => readsOnly_read (List.mem_singleton_self _)
  | .unary _ operand, free =>
      readsOnly_bind (readsOnly_eval call operand free) fun _ => readsOnly_ofExcept _
  | .binary _ left right, free => by
      obtain ⟨free, free'⟩ := Bool.and_eq_true_iff.1 free
      have first := (readsOnly_eval call left free).mono (List.subset_append_left left.reads right.reads)
      have second := (readsOnly_eval call right free').mono (List.subset_append_right left.reads right.reads)
      exact readsOnly_bind first fun _ => readsOnly_bind second fun _ => readsOnly_ofExcept _
  | .cast value _, free => readsOnly_eval call value (Bool.and_eq_true_iff.1 free).1
  | .logic op left right, free => by
      obtain ⟨free, free'⟩ := Bool.and_eq_true_iff.1 free
      by_cases negates : op = .not
      · subst negates
        exact readsOnly_bind (readsOnly_eval call right free') fun _ => readsOnly_pure _
      · rw [eval]
        · simp only [Expr.reads, negates, if_false]
          have first := (readsOnly_eval call left free).mono
            (List.subset_append_left left.reads right.reads)
          have second := (readsOnly_eval call right free').mono
            (List.subset_append_right left.reads right.reads)
          refine readsOnly_bind first fun word => ?_
          split
          · exact readsOnly_pure _
          · exact readsOnly_bind second fun _ => readsOnly_pure _
        · exact negates
  | .logicPrefix op right, free => by
      by_cases negates : op = .not
      · subst negates
        exact readsOnly_bind (readsOnly_eval call right free) fun _ => readsOnly_pure _
      · rw [eval]
        · exact readsOnly_throw _
        · exact negates
  | .call .., free => nomatch free

section CallFree

variable (call : Caller) {state : RunState}

/-- Expressions without calls that give words leave the state as it is, and each gives its word. -/
theorem evalAll_of_callFree {trees : List Expr} (free : ∀ tree ∈ trees, tree.callFree = true)
    {words : List Word} {final : RunState} (outcome : evalAll call trees state = .ok words final) :
    final = state ∧ List.Forall₂ (fun tree word => eval call tree state = .ok word state) trees words := by
  induction trees generalizing words final with
  | nil =>
    cases outcome
    exact ⟨rfl, .nil⟩
  | cons tree rest ih =>
    rw [evalAll] at outcome
    obtain ⟨word, middle, first, behind⟩ := bind_eq_ok.1 outcome
    obtain ⟨words', middle', others, given⟩ := bind_eq_ok.1 behind
    obtain ⟨rfl, rfl⟩ := EStateM.Result.ok.inj given
    have reads := readsOnly_eval call tree (free tree List.mem_cons_self)
    obtain ⟨rfl, -⟩ := reads.of_agree first fun _ _ => rfl
    obtain ⟨rfl, each⟩ := ih (fun other member => free other (List.mem_cons_of_mem _ member)) others
    exact ⟨rfl, .cons first each⟩

/-- Without a call that stands alone there is one word for each value. -/
theorem valuesFor_of_callFree {values : List Expr} (free : ∀ value ∈ values, value.callFree = true)
    (targets : Nat) : valuesFor call targets values = evalAll call values := by
  unfold valuesFor
  split
  · have impossible := free _ (List.mem_singleton_self _)
    cases impossible
  · rfl

end CallFree

end Run

end ScriptLang

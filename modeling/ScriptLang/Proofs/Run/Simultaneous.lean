import ScriptLang.Proofs.Run.CallFree
import ScriptLang.Proofs.Run.Frames
import ScriptLang.Proofs.Scope.Writes

/-!
# Assignments change all targets at once

An assignment computes its words first and then gives them to the targets one after the other. If no
target is named twice it cannot be told that it does: each target is given its word by what it means
and holds in the state behind the values. A later step finds its target where that state binds it,
with the value that it has there, although earlier steps have written through the same scopes.

`Provides` says where the words come from, `Changes` what a word does to the binding of one target,
and `Simultaneous` that a state is another one with these changes and no others. Nothing is asked of
the state but that its current scope is open.
-/

namespace ScriptLang

namespace ScopeTable

variable {φ : Type} {table table' : ScopeTable φ} {name other : Name}

/-- Two tables agree on a name: the same scopes lie around each other, the same one is the current one,
and each binds the name to the same. -/
structure Agrees (table table' : ScopeTable φ) (name : Name) : Prop where
  current : table'.current = table.current
  parents : table'.scopes.map Scope.parent = table.scopes.map Scope.parent
  binding?_eq (index : Nat) : table'.binding? index name = table.binding? index name

/-- Tables that agree on a name do so in either order. -/
theorem Agrees.symm (agrees : table.Agrees table' name) : table'.Agrees table name :=
  ⟨agrees.current.symm, agrees.parents.symm, fun index => (agrees.binding?_eq index).symm⟩

/-- Tables that differ in what one name is bound to agree on the others. -/
theorem Differs.agrees {index : Nat} {symbol : Symbol φ}
    (differs : table.Differs table' index name symbol) (apart : other ≠ name) :
    table.Agrees table' other where
  current := differs.current
  parents := differs.parents
  binding?_eq index' := by rw [differs.binding?_eq, if_neg fun here => apart here.2]

/-- In tables that agree on a name it means the same. -/
theorem Agrees.resolves (agrees : table.Agrees table' name) {start : Nat} {found : Nat × Symbol φ}
    (resolves : Resolves table.scopes name start found) :
    Resolves table'.scopes name start found := by
  have counterpart {index : Nat} {scope : Scope φ} (present : table.scopes[index]? = some scope) :
      ∃ scope', table'.scopes[index]? = some scope' ∧ scope'.parent = scope.parent ∧
        scope'.lookup? name = scope.lookup? name := by
    have around := congrArg (·[index]?) agrees.parents
    have bound := agrees.binding?_eq index
    simp only [List.getElem?_map, present, Option.map_some, Option.map_eq_some_iff] at around
    obtain ⟨scope', present', same⟩ := around
    exact ⟨scope', present', same, by simpa [binding?, present, present'] using bound⟩
  induction resolves with
  | here present bound =>
    obtain ⟨scope', present', -, same⟩ := counterpart present
    exact .here present' (same.trans bound)
  | outward present unbound within _ ih =>
    obtain ⟨scope', present', around, same⟩ := counterpart present
    exact .outward present' (same.trans unbound) (around.trans within) ih

/-- A table that differs in one binding has as many scopes. -/
theorem Differs.depth_eq {index : Nat} {symbol : Symbol φ}
    (differs : table.Differs table' index name symbol) : table'.depth = table.depth := by
  simpa [depth] using congrArg List.length differs.parents

/-- A declaration binds a name that the current scope did not bind. -/
theorem differs_of_declare {word : Word} (live : table.current < table.depth)
    (declared : table.declare name word = .ok table') :
    table.binding? table.current name = none ∧
      table.Differs table' table.current name (.variable word) := by
  obtain ⟨unbound, rfl⟩ := insert_eq_ok_iff.1 declared
  exact ⟨unbound, differs_insert live⟩

/-- An assignment changes the variable that the name means. -/
theorem differs_of_set {word : Word} (assigned : table.set name word = .ok table') :
    ∃ index old, table.locate? name = some (index, .variable old) ∧
      table.Differs table' index name (.variable word) := by
  unfold set at assigned
  split at assigned
  · rename_i found located
    obtain ⟨index, old, rfl, rfl⟩ := write_eq_ok assigned
    exact ⟨index, old, located, differs_replace located⟩
  · cases assigned

end ScopeTable

/-- The word that a variable with an old word is given: the word of the assignment, or the exact
result of the operation on the two in the integers, which a word must have room for. A quotient is
rounded toward zero. -/
def AssignOp.Gives (old word new : Word) : AssignOp → Prop
  | set => new = word
  | add => new.toInt = old.toInt + word.toInt
  | sub => new.toInt = old.toInt - word.toInt
  | mul => new.toInt = old.toInt * word.toInt
  | div => word ≠ 0 ∧ new.toInt = old.toInt.tdiv word.toInt

namespace AssignOp

/-- An assignment operator without arithmetic sets its target. -/
theorem eq_set_of_arithmetic? {op : AssignOp} (plain : op.arithmetic? = none) : op = set := by
  cases op with
  | set => rfl
  | add | sub | mul | div => cases plain

/-- A result without an overflow is the one that fits. -/
theorem eq_some_of_orOverflow {symbol : String} {result : Option Word} {word : Word}
    (computed : orOverflow symbol result = .ok word) : result = some word := by
  cases result with
  | none => cases computed
  | some found => exact congrArg some (Except.ok.inj computed)

/-- An operation that gives a word gives the exact result. -/
theorem gives_of_apply {op : AssignOp} {arithmetic : BinaryOp} {old word new : Word}
    (compound : op.arithmetic? = some arithmetic)
    (computed : arithmetic.apply old word = .ok new) : op.Gives old word new := by
  cases op with
  | set => cases compound
  | add | sub | mul =>
    obtain rfl := Option.some.inj compound
    exact Word.ofInt?_eq_some_iff.1 (eq_some_of_orOverflow computed)
  | div =>
    obtain rfl := Option.some.inj compound
    rw [BinaryOp.apply] at computed
    split_ifs at computed with zero
    · exact ⟨zero, Word.ofInt?_eq_some_iff.1 (eq_some_of_orOverflow computed)⟩

end AssignOp

/-- Giving a target a word binds it to a new word in the scope with an index. A declaration binds the
target in the current scope, which does not bind it yet; any other assignment changes the variable
that the target means. -/
inductive ScopeTable.Changes (table : ScopeTable Nat) (target : Name) (word : Word) :
    Bool → AssignOp → Nat → Word → Prop
  | declared : table.binding? table.current target = none →
      table.Changes target word true .set table.current word
  | assigned {op : AssignOp} {index : Nat} {old new : Word} :
      Resolves table.scopes target table.current (index, .variable old) → op.Gives old word new →
        table.Changes target word false op index new

/-- In tables that agree on a target it is changed in the same way. -/
theorem ScopeTable.Agrees.changes {table table' : ScopeTable Nat} {target : Name}
    (agrees : table.Agrees table' target) {declares : Bool} {op : AssignOp} {word new : Word}
    {index : Nat} (changes : table.Changes target word declares op index new) :
    table'.Changes target word declares op index new := by
  cases changes with
  | declared unbound =>
    rw [← agrees.binding?_eq, ← agrees.current] at unbound
    rw [← agrees.current]
    exact .declared unbound
  | assigned resolves gives =>
    rw [← agrees.current] at resolves
    exact .assigned (agrees.resolves resolves) gives

/-- The final state is the other one but for what each target is given: no other binding differs, and
neither do the scopes, the frames, the registry and the error code. -/
structure RunState.Simultaneous (declares : Bool) (op : AssignOp) (pairs : List (Name × Word))
    (state final : RunState) : Prop where
  current : final.table.current = state.table.current
  parents : final.table.scopes.map Scope.parent = state.table.scopes.map Scope.parent
  routines : final.routines = state.routines
  frames : final.depth = state.depth
  errorCode : final.errorCode = state.errorCode
  changed {target : Name} {word : Word} : (target, word) ∈ pairs → ∃ index new,
    state.table.Changes target word declares op index new ∧
      final.table.binding? index target = some (.variable new)
  others {index : Nat} {name : Name} :
    (∀ word new, (name, word) ∈ pairs → ¬ state.table.Changes name word declares op index new) →
      final.table.binding? index name = state.table.binding? index name

namespace Run

section Values

variable (call : Caller)

/-- Expressions give words from left to right: each starts in the state in which the one in front of
it ends. -/
inductive Evaluates : List Expr → RunState → List Word → RunState → Prop
  | nil {state : RunState} : Evaluates [] state [] state
  | cons {expr : Expr} {rest : List Expr} {word : Word} {words : List Word}
      {state middle final : RunState} : eval call expr state = .ok word middle →
        Evaluates rest middle words final → Evaluates (expr :: rest) state (word :: words) final

/-- An expression that is a call and stands alone. -/
def IsLoneCall (values : List Expr) : Prop :=
  ∃ callee args, values = [.call callee args]

/-- The values of an assignment provide a number of targets with words and lead to a state. As many
words as there are targets are for one target each. Otherwise the only word, or the first result of a
call that stands alone, is for every target. -/
inductive Provides (state : RunState) (targets : Nat) :
    List Expr → List Word → RunState → Prop
  | spread {callee : Name} {args : List Expr} {words : List Word} {middle : RunState} :
      call callee args.length (evalAll call args) state = .ok words middle →
        words.length = targets → Provides state targets [.call callee args] words middle
  | first {callee : Name} {args : List Expr} {word : Word} {others : List Word} {middle : RunState} :
      call callee args.length (evalAll call args) state = .ok (word :: others) middle →
        (word :: others).length ≠ targets →
          Provides state targets [.call callee args] (List.replicate targets word) middle
  | paired {values : List Expr} {words : List Word} {middle : RunState} : ¬ IsLoneCall values →
      Evaluates call values state words middle → words.length = targets →
        Provides state targets values words middle
  | single {values : List Expr} {word : Word} {middle : RunState} : ¬ IsLoneCall values →
      Evaluates call values state [word] middle → 1 ≠ targets →
        Provides state targets values (List.replicate targets word) middle

variable {call}

/-- Values that a run computes are the values of the expressions. -/
theorem evaluates_of_evalAll {exprs : List Expr} {words : List Word} {state final : RunState}
    (computed : evalAll call exprs state = .ok words final) :
    Evaluates call exprs state words final := by
  induction exprs generalizing words state with
  | nil =>
    obtain ⟨rfl, rfl⟩ := EStateM.Result.ok.inj computed
    exact .nil
  | cons expr rest ih =>
    obtain ⟨word, middle, here, behind⟩ := bind_eq_ok.1 computed
    obtain ⟨words', final', there, given⟩ := bind_eq_ok.1 behind
    obtain ⟨rfl, rfl⟩ := EStateM.Result.ok.inj given
    exact .cons here (ih there)

/-- As many words are provided as there are targets. -/
theorem Provides.length_eq {state middle : RunState} {targets : Nat} {values : List Expr}
    {given : List Word} (provides : Provides call state targets values given middle) :
    given.length = targets := by
  cases provides with
  | spread _ counts | paired _ _ counts => exact counts
  | first | single => exact List.length_replicate

/-- A single word is paired with every target, and other words with one target each. -/
theorem pair_singleton (targets : List Name) (word : Word) :
    pair targets [word] = targets.zip (List.replicate targets.length word) := by
  rw [pair, ← List.map_const', List.map_prod_left_eq_zip]

/-- As many words as targets are paired one by one. -/
theorem pair_of_length_eq {targets : List Name} {words : List Word}
    (counts : words.length = targets.length) : pair targets words = targets.zip words := by
  obtain _ | ⟨word, _ | ⟨second, rest⟩⟩ := words
  · rfl
  · rw [pair_singleton, ← counts]
    rfl
  · rfl

/-- The words of an assignment are provided by its values, if there is one or one for each target. -/
theorem provides_of_valuesFor {targets : List Name} {values : List Expr} {words : List Word}
    {state middle : RunState} (computed : valuesFor call targets.length values state = .ok words middle)
    (counts : words.length = 1 ∨ words.length = targets.length) :
    ∃ given, Provides call state targets.length values given middle ∧
      pair targets words = targets.zip given := by
  by_cases lone : IsLoneCall values
  · obtain ⟨callee, args, rfl⟩ := lone
    obtain ⟨results, middle', called, chosen⟩ := bind_eq_ok.1 computed
    split at chosen
    · rename_i same
      obtain ⟨rfl, rfl⟩ := EStateM.Result.ok.inj chosen
      exact ⟨_, .spread called same, pair_of_length_eq same⟩
    · rename_i apart
      cases results with
      | nil => cases chosen
      | cons word others =>
        obtain ⟨rfl, rfl⟩ := EStateM.Result.ok.inj chosen
        exact ⟨_, .first called apart, pair_singleton targets word⟩
  · have evaluated : Evaluates call values state words middle := by
      unfold valuesFor at computed
      split at computed
      · exact absurd ⟨_, _, rfl⟩ lone
      · exact evaluates_of_evalAll computed
    by_cases same : words.length = targets.length
    · exact ⟨words, .paired lone evaluated same, pair_of_length_eq same⟩
    · obtain ⟨word, rfl⟩ := List.length_eq_one_iff.1 (counts.resolve_right same)
      exact ⟨_, .single lone evaluated same, pair_singleton targets word⟩

end Values

section Store

variable {declares : Bool} {op : AssignOp} {target : Name} {word : Word} {state final : RunState}

/-- Reading a name gives the value of the variable that it means. -/
theorem read_eq_ok (taken : read target state = .ok word final) :
    final = state ∧ ∃ index, state.table.locate? target = some (index, .variable word) := by
  unfold read ScopeTable.value at taken
  split at taken
  · rename_i value found
    obtain ⟨rfl, rfl⟩ := EStateM.Result.ok.inj taken
    split at found
    · rename_i meant
      obtain rfl := Except.ok.inj found
      obtain ⟨⟨index, symbol⟩, located, rfl⟩ := Option.map_eq_some_iff.1 meant
      exact ⟨rfl, index, located⟩
    · cases found
    · cases found
  · cases taken

/-- Storing a word in a target changes one binding of the table and nothing else. -/
theorem changes_of_store (live : state.table.current < state.table.depth)
    (allowed : ¬(declares ∧ op ≠ .set))
    (stored : store declares op target word state = .ok () final) :
    ∃ table index new, final = { state with table } ∧
      state.table.Changes target word declares op index new ∧
        state.table.Differs table index target (.variable new) := by
  cases declares with
  | true =>
    obtain rfl : op = .set := by simpa using allowed
    have stored' : declare target word state = .ok () final := stored
    obtain ⟨table, declared, rfl⟩ := updateTable_eq_ok stored'
    obtain ⟨unbound, differs⟩ := ScopeTable.differs_of_declare live declared
    exact ⟨table, _, word, rfl, .declared unbound, differs⟩
  | false =>
    simp only [store, Bool.false_eq_true, if_false] at stored
    cases compound : op.arithmetic? with
    | none =>
      obtain rfl := AssignOp.eq_set_of_arithmetic? compound
      obtain ⟨table, assigned, rfl⟩ := updateTable_eq_ok stored
      obtain ⟨index, old, located, differs⟩ := ScopeTable.differs_of_set assigned
      have resolves := ScopeTable.resolves_of_locateFrom? located
      exact ⟨table, index, word, rfl, .assigned resolves rfl, differs⟩
    | some arithmetic =>
      simp only [compound] at stored
      obtain ⟨old, state', taken, behind⟩ := bind_eq_ok.1 stored
      obtain ⟨new, state'', combined, written⟩ := bind_eq_ok.1 behind
      obtain ⟨rfl, index, located⟩ := read_eq_ok taken
      obtain ⟨rfl, computed⟩ := ofExcept_eq_ok combined
      obtain ⟨table, assigned, rfl⟩ := updateTable_eq_ok written
      obtain ⟨index', old', located', differs⟩ := ScopeTable.differs_of_set assigned
      -- The name is read and assigned to in one state, so it means the same variable both times.
      obtain ⟨rfl, rfl⟩ : index' = index ∧ old' = old := by
        simpa using located'.symm.trans located
      have resolves := ScopeTable.resolves_of_locateFrom? located
      exact ⟨table, _, new, rfl, .assigned resolves (AssignOp.gives_of_apply compound computed), differs⟩

end Store

section StoreAll

variable {declares : Bool} {op : AssignOp}

/-- Storing words in targets that are all different does to each target what it does from the start. -/
theorem simultaneous_of_storeAll {pairs : List (Name × Word)} {state final : RunState}
    (distinct : (pairs.map Prod.fst).Nodup) (live : state.table.current < state.table.depth)
    (allowed : ¬(declares ∧ op ≠ .set))
    (stored : storeAll declares op pairs state = .ok () final) :
    state.Simultaneous declares op pairs final := by
  induction pairs generalizing state with
  | nil =>
    obtain ⟨-, rfl⟩ := EStateM.Result.ok.inj stored
    exact ⟨rfl, rfl, rfl, rfl, rfl, fun member => absurd member List.not_mem_nil, fun _ => rfl⟩
  | cons pair rest ih =>
    obtain ⟨target, word⟩ := pair
    obtain ⟨fresh, distinct⟩ := List.nodup_cons.1 distinct
    obtain ⟨⟨⟩, middle, here, there⟩ := bind_eq_ok.1 stored
    obtain ⟨table, index, new, rfl, changes, differs⟩ := changes_of_store live allowed here
    have live' : table.current < table.depth := by rwa [differs.current, differs.depth_eq]
    have behind := ih distinct live' there
    -- The later targets are other names, so to them the table is as it was.
    have apart {other : Name} {word' : Word} (later : (other, word') ∈ rest) : other ≠ target := by
      rintro rfl
      exact fresh (List.mem_map.2 ⟨_, later, rfl⟩)
    have agrees {other : Name} {word' : Word} (later : (other, word') ∈ rest) :
        state.table.Agrees table other := differs.agrees (apart later)
    refine ⟨behind.current.trans differs.current, behind.parents.trans differs.parents,
      behind.routines, behind.frames, behind.errorCode, fun {target' word'} member => ?_,
      fun {index' name} untouched => ?_⟩
    · rcases List.mem_cons.1 member with first | later
      · obtain ⟨rfl, rfl⟩ := Prod.mk.inj first
        refine ⟨index, new, changes, ?_⟩
        rw [behind.others fun word' _ later => absurd rfl (apart later), differs.binding?_eq,
          if_pos ⟨rfl, rfl⟩]
      · obtain ⟨index', new', changes', bound⟩ := behind.changed later
        exact ⟨index', new', (agrees later).symm.changes changes', bound⟩
    · have later : ∀ word' new', (name, word') ∈ rest →
          ¬ table.Changes name word' declares op index' new' := by
        intro word' new' member changes'
        exact untouched word' new' (List.mem_cons_of_mem _ member) ((agrees member).symm.changes changes')
      rw [behind.others later, differs.binding?_eq, if_neg]
      rintro ⟨rfl, rfl⟩
      exact untouched word new List.mem_cons_self changes

end StoreAll

/-- If an assignment to targets that are all different succeeds, its values provide the targets with
words, and the assignment ends in the state behind the values but for what each target is given: the
current scope binds every target of a declaration, and another assignment changes the variable that
the target means in that state, from the value that it has there. -/
theorem execAssign_simultaneous {limit : Nat} {declares : Bool} {targets : List Name} {op : AssignOp}
    {values : List Expr} {state final : RunState} (distinct : targets.Nodup)
    (live : state.table.current < state.table.depth)
    (assigned : execAssign (calls limit) declares targets op values state = .ok () final) :
    ∃ given middle, Provides (calls limit) state targets.length values given middle ∧
      given.length = targets.length ∧
        middle.Simultaneous declares op (targets.zip given) final := by
  unfold execAssign at assigned
  split_ifs at assigned with refused
  · cases assigned
  · obtain ⟨words, middle, computed, behind⟩ := bind_eq_ok.1 assigned
    split_ifs at behind with uneven
    · cases behind
    · obtain ⟨given, provides, same⟩ := provides_of_valuesFor computed (by tauto)
      have kept := respects_keepsScopes.valuesFor (keepsScopes_calls limit) targets.length values
      rw [same] at behind
      refine ⟨given, middle, provides, provides.length_eq, ?_⟩
      refine simultaneous_of_storeAll ?_ (kept.live live computed) refused behind
      rwa [List.map_fst_zip (Nat.le_of_eq provides.length_eq.symm)]

/-- Each of two variables takes the other away, one in the current scope and one in the scope around
it: the second takes away what the first was before. -/
theorem execAssign_simultaneous_across_scopes :
    let scopes (c d : Word) : ScopeTable Nat :=
      ⟨[⟨none, [("d", .variable d), ("c", .variable 0)]⟩, ⟨some 0, [("c", .variable c)]⟩], 1⟩
    let state : RunState := ⟨scopes 5 2, [], none, 0⟩
    let final : RunState := ⟨scopes 3 (-3), [], none, 0⟩
    let values : List Expr := [.variable "d", .variable "c"]
    execAssign (calls 256) false ["c", "d"] .sub values state = .ok () final ∧
      ∃ given middle, Provides (calls 256) state 2 values given middle ∧ given.length = 2 ∧
        middle.Simultaneous false .sub (["c", "d"].zip given) final := by
  intro scopes state final values
  have assigned : execAssign (calls 256) false ["c", "d"] .sub values state = .ok () final := rfl
  exact ⟨assigned, execAssign_simultaneous (by decide) (by decide) assigned⟩

end Run

end ScriptLang

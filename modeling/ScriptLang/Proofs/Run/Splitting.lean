import ScriptLang.Proofs.Emit.Splitting
import ScriptLang.Proofs.Run.CallFree
import ScriptLang.Proofs.Run.Frames

/-!
# Running an assignment one target at a time

An assignment computes every word before any target changes. The assignments to one target each, as
which it is printed, change the first targets before the later values are computed. The two do the
same if no value reads a target in front of its own, and in a plain assignment of one value, whose
later targets take the value over from the first. Otherwise they can differ: two variables are not
swapped one after the other.
-/

namespace ScriptLang

namespace Run

section Store

variable {declares : Bool} {op : AssignOp} {target other : Name} {word : Word}
  {state final : RunState}

/-- A word was written to a name, which was declared or assigned to. -/
def Written (target : Name) (word : Word) (state final : RunState) : Prop :=
  state.table.declare target word = .ok final.table ∨
    state.table.set target word = .ok final.table

/-- The table behind an update is the one that the change makes. -/
theorem change_of_updateTable {change : ScopeTable Nat → Except NameError (ScopeTable Nat)}
    (updated : updateTable change state = .ok () final) : change state.table = .ok final.table := by
  obtain ⟨table, changed, rfl⟩ := updateTable_eq_ok updated
  exact changed

/-- Storing writes a word to the target. A plain assignment and a declaration write the given one. -/
theorem written_of_store (stored : store declares op target word state = .ok () final) :
    ∃ written, Written target written state final ∧ (op = .set → written = word) := by
  unfold store at stored
  split_ifs at stored with declared
  · exact ⟨word, .inl (change_of_updateTable stored), fun _ => rfl⟩
  · cases combines : op.arithmetic? with
    | none =>
      rw [combines] at stored
      exact ⟨word, .inr (change_of_updateTable stored), fun _ => rfl⟩
    | some arithmetic =>
      rw [combines] at stored
      obtain ⟨old, middle, found, behind⟩ := bind_eq_ok.1 stored
      obtain ⟨combined, middle', computed, assigned⟩ := bind_eq_ok.1 behind
      have reads : ReadsOnly [target] (read target) := readsOnly_read List.mem_cons_self
      obtain ⟨rfl, -⟩ := reads.of_agree found fun _ _ => rfl
      have keeps : ReadsOnly [] (ofExcept (arithmetic.apply old word)) := readsOnly_ofExcept _
      obtain ⟨rfl, -⟩ := keeps.of_agree computed fun _ _ => rfl
      refine ⟨combined, .inr (change_of_updateTable assigned), ?_⟩
      rintro rfl
      cases combines

/-- A write keeps the values of the other names. -/
theorem Written.value_other (written : Written target word state final) (apart : other ≠ target) :
    final.table.value other = state.table.value other := by
  unfold ScopeTable.value
  rcases written with declared | assigned
  · rw [ScopeTable.get?_of_insert declared apart]
  · rw [ScopeTable.get?_of_set assigned apart]

/-- A name that was written to has the word as its value. -/
theorem Written.value_self (written : Written target word state final)
    (live : state.table.current < state.table.depth) : final.table.value target = .ok word := by
  unfold ScopeTable.value
  rcases written with declared | assigned
  · rw [ScopeTable.get?_of_insert_self live declared]
  · rw [ScopeTable.get?_of_set_self assigned]

end Store

section Singles

variable {leave : Leaving} {call : Caller} {declares : Bool} {op : AssignOp} {state final : RunState}

/-- An assignment to one target computes its value and stores it. -/
theorem exec_single {target : Name} {value : Expr} {word : Word} (allowed : ¬(declares ∧ op ≠ .set))
    (free : value.callFree = true) (computed : eval call value state = .ok word state)
    (stored : store declares op target word state = .ok () final) :
    exec leave call (.single declares op (target, value)) state = .ok .next final := by
  have words : valuesFor call 1 [value] state = .ok [word] state := by
    rw [valuesFor_of_callFree call (by simpa using free)]
    exact bind_eq_ok.2 ⟨word, state, computed, rfl⟩
  have assigned : execAssign call declares [target] op [value] state = .ok () final := by
    rw [execAssign, if_neg allowed]
    refine bind_eq_ok.2 ⟨[word], state, words, ?_⟩
    exact bind_eq_ok.2 ⟨(), final, stored, rfl⟩
  rw [Stmt.single, exec]
  exact bind_eq_ok.2 ⟨(), final, assigned, rfl⟩

/-- If no value reads a target in front of its own then the assignments to one target each store the
words that the values have at the start. -/
theorem execAll_singles {pairs : List (Name × Expr)} (words : List Word)
    (allowed : ¬(declares ∧ op ≠ .set)) (free : ∀ pair ∈ pairs, pair.2.callFree = true)
    (computed : List.Forall₂ (fun pair word => eval call pair.2 state = .ok word state) pairs words)
    (unaffected : pairs.Pairwise fun earlier later => earlier.1 ∉ later.2.reads)
    (stored : storeAll declares op ((pairs.map Prod.fst).zip words) state = .ok () final) :
    execAll leave call (pairs.map (Stmt.single declares op)) state = .ok .next final := by
  induction pairs generalizing words state with
  | nil =>
    obtain rfl := List.forall₂_nil_left_iff.1 computed
    obtain ⟨-, rfl⟩ := EStateM.Result.ok.inj stored
    rfl
  | cons pair rest ih =>
    obtain ⟨target, value⟩ := pair
    obtain ⟨word, words, first, others, rfl⟩ := List.forall₂_cons_left_iff.1 computed
    obtain ⟨⟨⟩, middle, here, there⟩ := bind_eq_ok.1 stored
    obtain ⟨apart, unaffected⟩ := List.pairwise_cons.1 unaffected
    obtain ⟨written, wrote, -⟩ := written_of_store here
    -- The later values do not read the target, so they are the same after it was written to.
    have others' : List.Forall₂ (fun pair word => eval call pair.2 middle = .ok word middle)
        rest words := by
      obtain ⟨lengths, each⟩ := List.forall₂_iff_zip.1 others
      refine List.forall₂_iff_zip.2 ⟨lengths, fun {pair _} paired => ?_⟩
      have member : pair ∈ rest := (List.of_mem_zip paired).1
      have reads := readsOnly_eval call pair.2 (free pair (List.mem_cons_of_mem _ member))
      refine (reads.of_agree (each paired) fun name read => ?_).2
      exact wrote.value_other (ne_of_mem_of_not_mem read (apart pair member))
    have behind := ih words (fun pair member => free pair (List.mem_cons_of_mem _ member)) others'
      unaffected there
    rw [List.map_cons, execAll]
    refine bind_eq_ok.2 ⟨.next, middle, ?_, behind⟩
    exact exec_single allowed (free _ List.mem_cons_self) first here

end Singles

end Run

namespace Stmt

/-- Whether an assignment does not change when it is taken one target at a time: it is plain and has
one value, or no value reads a target in front of its own. -/
def Unaffected (targets : List Name) (op : AssignOp) (values : List Expr) : Prop :=
  op = .set ∧ values.length = 1 ∨
    (targets.zip (sources targets op values)).Pairwise fun earlier later =>
      earlier.1 ∉ later.2.reads

variable {leave : Leaving} {call : Caller} {declares : Bool} {targets : List Name} {op : AssignOp}
  {values : List Expr} {state final : RunState}

/-- An assignment that succeeds is allowed, each of its values gives a word in the state in which it
starts, and the words are stored. -/
theorem exists_words_of_exec (free : ∀ value ∈ values, value.callFree = true)
    (ran : Run.exec leave call (.assign declares targets op values) state = .ok .next final) :
    ¬(declares ∧ op ≠ .set) ∧ ∃ words,
      List.Forall₂ (fun value word => Run.eval call value state = .ok word state) values words ∧
        Run.storeAll declares op (Run.pair targets words) state = .ok () final := by
  rw [Run.exec] at ran
  obtain ⟨⟨⟩, final, assigned, given⟩ := Run.bind_eq_ok.1 ran
  obtain ⟨-, rfl⟩ := EStateM.Result.ok.inj given
  unfold Run.execAssign at assigned
  split_ifs at assigned with refused
  · cases assigned
  · obtain ⟨words, middle, computed, behind⟩ := Run.bind_eq_ok.1 assigned
    rw [Run.valuesFor_of_callFree call free] at computed
    obtain ⟨rfl, each⟩ := Run.evalAll_of_callFree call free computed
    split_ifs at behind with uneven
    · cases behind
    · exact ⟨refused, words, each, behind⟩

/-- With a plain assignment of one value, the later targets take the value over from the first. -/
theorem execAll_split_broadcast {first second : Name} {rest : List Name} {value : Expr} {word : Word}
    (allowed : ¬(declares ∧ op ≠ .set)) (plain : op = .set) (apart : first ∉ second :: rest)
    (free : value.callFree = true) (live : state.table.current < state.table.depth)
    (computed : Run.eval call value state = .ok word state)
    (stored : Run.storeAll declares op (Run.pair (first :: second :: rest) [word]) state =
      .ok () final) :
    Run.execAll leave call (split declares (first :: second :: rest) op [value]) state =
      .ok .next final := by
  obtain ⟨⟨⟩, middle, here, there⟩ := Run.bind_eq_ok.1 stored
  obtain ⟨written, wrote, same⟩ := Run.written_of_store here
  obtain rfl := same plain
  have taken : Run.eval call (.variable first) middle = .ok written middle := by
    rw [Run.eval, Run.read, wrote.value_self live]
  let pairs : List (Name × Expr) := (second :: rest).map fun target => (target, .variable first)
  have each : List.Forall₂ (fun pair word => Run.eval call pair.2 middle = .ok word middle) pairs
      ((second :: rest).map fun _ => written) := by
    rw [List.forall₂_map_left_iff, List.forall₂_map_right_iff]
    exact List.forall₂_same.2 fun _ _ => taken
  have unaffected : pairs.Pairwise fun earlier later => earlier.1 ∉ later.2.reads := by
    refine List.pairwise_map.2 (List.pairwise_of_forall_mem_list fun target member _ _ => ?_)
    rw [Expr.reads, List.mem_singleton]
    exact ne_of_mem_of_not_mem member apart
  have stored' : Run.storeAll declares op
      ((pairs.map Prod.fst).zip ((second :: rest).map fun _ => written)) middle = .ok () final := by
    rw [List.map_map, List.zip_map']
    exact there
  have behind : Run.execAll leave call (pairs.map (single declares op)) middle = .ok .next final :=
    Run.execAll_singles _ allowed (by simp [pairs, Expr.callFree]) each unaffected stored'
  have parts : split declares (first :: second :: rest) op [value] =
      single declares op (first, value) :: pairs.map (single declares op) := by
    simp only [split, sources, plain, if_true, List.zip_cons_cons, List.map_cons, pairs,
      List.drop_succ_cons, List.drop_zero, List.map_prod_left_eq_zip]
  rw [parts, Run.execAll]
  exact Run.bind_eq_ok.2 ⟨.next, middle, Run.exec_single allowed free computed here, behind⟩

/-- Unless a plain assignment has one value for several targets, the words of an assignment are the
words of the values that its targets are given one at a time. -/
theorem exists_words_of_sources {P : Expr → Word → Prop} {words : List Word}
    (several : 1 < targets.length) (counts : values.length = 1 ∨ values.length = targets.length)
    (repeated : ¬(op = .set ∧ values.length = 1)) (given : List.Forall₂ P values words) :
    ∃ words', List.Forall₂ P (sources targets op values) words' ∧
      Run.pair targets words = targets.zip words' ∧
        (sources targets op values).length = targets.length := by
  by_cases one : values.length = 1
  · obtain ⟨value, rfl⟩ := List.length_eq_one_iff.1 one
    obtain ⟨word, _, holds, none, rfl⟩ := List.forall₂_cons_left_iff.1 given
    obtain rfl := List.forall₂_nil_left_iff.1 none
    have same : sources targets op [value] = targets.map fun _ => value := by
      have combines : op ≠ .set := fun plain => repeated ⟨plain, one⟩
      obtain ⟨first, second, rest, rfl⟩ := exists_first_second several
      simp [sources, combines]
    rw [same]
    refine ⟨targets.map fun _ => word, ?_, ?_, List.length_map _⟩
    · rw [List.forall₂_map_left_iff, List.forall₂_map_right_iff]
      exact List.forall₂_same.2 fun _ _ => holds
    · rw [Run.pair, List.map_prod_left_eq_zip]
  · have same : sources targets op values = values :=
      sources_of_not_broadcast op fun broadcasts => one broadcasts.2
    have paired : Run.pair targets words = targets.zip words := by
      unfold Run.pair
      split
      · exact absurd given.length_eq one
      · rfl
    rw [same]
    exact ⟨words, given, paired, counts.resolve_left one⟩

/-- The values that targets are given one at a time contain no call if the values of the assignment
contain none. -/
theorem callFree_of_mem_sources (free : ∀ value ∈ values, value.callFree = true) :
    ∀ value ∈ sources targets op values, value.callFree = true := by
  unfold sources
  split
  · rename_i first second rest value
    have alone : value.callFree = true := free value List.mem_cons_self
    intro source member
    rcases List.mem_cons.1 member with rfl | later
    · exact alone
    · obtain ⟨-, -, rfl⟩ := List.mem_map.1 later
      split
      · rfl
      · exact alone
  · exact free

/-- An assignment to several targets is printed as the assignments to one target each, and these do
the same one after the other: whenever the assignment succeeds they succeed too, and they end in the
same state. For this the current scope is open, as it is throughout a run, the values contain no
call, and none reads a target in front of its own, unless a plain assignment has only one value. -/
theorem exec_split {leave : Leaving} {call : Caller} {declares : Bool} {targets : List Name}
    {op : AssignOp} {values : List Expr} {state final : RunState} (several : 1 < targets.length)
    (distinct : targets.Nodup) (free : ∀ value ∈ values, value.callFree = true)
    (counts : values.length = 1 ∨ values.length = targets.length)
    (unaffected : Unaffected targets op values) (live : state.table.current < state.table.depth)
    (ran : Run.exec leave call (.assign declares targets op values) state = .ok .next final) :
    Run.execAll leave call (split declares targets op values) state = .ok .next final ∧
      ∀ (dialect : Dialect) (table table' : ScopeTable Nat) (lines : List Line),
        table.current < table.depth →
          Emit.inner dialect (.assign declares targets op values) table = .ok (lines, table') →
            Emit.all dialect (split declares targets op values) table = .ok (lines, table') := by
  obtain ⟨allowed, words, each, stored⟩ := exists_words_of_exec free ran
  constructor
  · -- A plain assignment of one value is printed with it once; else each target has its own source.
    by_cases taken : op = .set ∧ values.length = 1
    · obtain ⟨plain, one⟩ := taken
      obtain ⟨value, rfl⟩ := List.length_eq_one_iff.1 one
      obtain ⟨word, _, computed, none, rfl⟩ := List.forall₂_cons_left_iff.1 each
      obtain rfl := List.forall₂_nil_left_iff.1 none
      obtain ⟨first, second, rest, rfl⟩ := exists_first_second several
      exact execAll_split_broadcast allowed plain (List.nodup_cons.1 distinct).1
        (free value List.mem_cons_self) live computed stored
    · obtain ⟨words', each', paired, lengths⟩ := exists_words_of_sources several counts taken each
      rw [paired] at stored
      have free' : ∀ pair ∈ targets.zip (sources targets op values), pair.2.callFree = true :=
        fun pair member => callFree_of_mem_sources free pair.2 (List.of_mem_zip member).2
      have computed : List.Forall₂ (fun pair word => Run.eval call pair.2 state = .ok word state)
          (targets.zip (sources targets op values)) words' := by
        rw [← List.map_snd_zip (Nat.le_of_eq lengths)] at each'
        exact List.forall₂_map_left_iff.1 each'
      refine Run.execAll_singles words' allowed free' computed (unaffected.resolve_left taken) ?_
      rwa [List.map_fst_zip (Nat.le_of_eq lengths.symm)]
  · intro dialect table table' lines within printed
    refine Emit.all_split within counts ?_ printed
    unfold Emit.spreads
    split
    · have impossible := free _ List.mem_cons_self
      cases impossible
    · rfl

/-- The state behind `var c, d = 1, 2`. -/
def oneAndTwo : RunState :=
  ⟨⟨[⟨none, [("d", .variable 2), ("c", .variable 1)]⟩], 0⟩, [], none, 0⟩

/-- The state behind `var c, d = 1, 2` and `c, d = d, d + 1`. -/
def twoAndThree : RunState :=
  ⟨⟨[⟨none, [("d", .variable 3), ("c", .variable 2)]⟩], 0⟩, [], none, 0⟩

/-- The second value is computed from the value before the assignment, and both ways give the same
state. -/
theorem exec_split_stepping :
    Run.exec RunState.recycle (Run.calls 256)
        (.assign false ["c", "d"] .set [.variable "d", .binary .add (.variable "d") (.number "1" 1)])
        oneAndTwo = .ok .next twoAndThree ∧
      Run.execAll RunState.recycle (Run.calls 256)
        [.assign false ["c"] .set [.variable "d"],
          .assign false ["d"] .set [.binary .add (.variable "d") (.number "1" 1)]]
        oneAndTwo = .ok .next twoAndThree ∧
      Emit.all .c
        [.assign false ["c"] .set [.variable "d"],
          .assign false ["d"] .set [.binary .add (.variable "d") (.number "1" 1)]]
        oneAndTwo.table = .ok ([Line.outer "c = d;", Line.outer "d = (d + 1);"], oneAndTwo.table) := by
  have ran : Run.exec RunState.recycle (Run.calls 256)
      (.assign false ["c", "d"] .set [.variable "d", .binary .add (.variable "d") (.number "1" 1)])
      oneAndTwo = .ok .next twoAndThree := rfl
  have unaffected : Unaffected ["c", "d"] .set
      [.variable "d", .binary .add (.variable "d") (.number "1" 1)] :=
    .inr (by simp [sources, Expr.reads])
  obtain ⟨same, printed⟩ :=
    exec_split (by decide) (by decide) (by decide) (.inr rfl) unaffected (by decide) ran
  exact ⟨ran, same, printed .c oneAndTwo.table _ _ (by decide) rfl⟩

/-- Two variables are not swapped one after the other: `c, d = d, c` is printed as `c = d;` and
`d = c;`, which leave both variables with the value that `d` had. -/
theorem not_exec_split_swap :
    ¬ ∀ (declares : Bool) (targets : List Name) (op : AssignOp) (values : List Expr)
        (before : List Stmt) (state final : RunState),
      1 < targets.length → targets.Nodup → (∀ target ∈ targets, target.isDotted = false) →
        (∀ value ∈ values, value.callFree = true) →
          (values.length = 1 ∨ values.length = targets.length) →
            Run.execAll RunState.recycle (Run.calls 256) before RunState.new = .ok .next state →
              Run.exec RunState.recycle (Run.calls 256) (.assign declares targets op values) state =
                  .ok .next final →
                ∃ final', Run.execAll RunState.recycle (Run.calls 256)
                    (split declares targets op values) state = .ok .next final' ∧
                  ∀ name, final'.table.value name = final.table.value name := by
  intro preserved
  obtain ⟨final', ran, same⟩ := preserved false ["c", "d"] .set [.variable "d", .variable "c"]
    [.assign true ["c", "d"] .set [.number "1" 1, .number "2" 2]] oneAndTwo
    ⟨⟨[⟨none, [("d", .variable 1), ("c", .variable 2)]⟩], 0⟩, [], none, 0⟩
    (by decide) (by decide) (by decide) (by decide) (.inr rfl) rfl rfl
  obtain rfl : final' =
      ⟨⟨[⟨none, [("d", .variable 2), ("c", .variable 2)]⟩], 0⟩, [], none, 0⟩ :=
    (EStateM.Result.ok.inj ran).2.symm
  exact absurd (same "d") (by decide)

end Stmt

end ScriptLang

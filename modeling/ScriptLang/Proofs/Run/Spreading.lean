import ScriptLang.Proofs.Emit.Counts
import ScriptLang.Proofs.Run.Results

/-!
# Calls that fill several targets in a run and in print

When an assignment has a call as its only value, a run gives each target a result of its own if the
call happened to give as many words as there are targets. What is printed cannot wait for that: it
goes by the number of results that the function declares, and by the operator. So they can differ in
three ways, of which the programs at the end are examples: a `return` may have another number of values
than the function declares, an operator other than `=` is never printed for all targets at once, and
the callee may mean another function when the assignment runs (`Program.LateAt`), with another number
of results. They differ in no other way (`Program.Traces.agree_on_spreading`), and in a program that
returns as it declares they do not differ in the first.
-/

namespace ScriptLang

/-- The number of words that a call gives, if it succeeds. -/
def Run.callCount? (limit : Nat) (callee : Name) (args : List Expr) (state : RunState) : Option Nat :=
  match calls limit callee args.length (evalAll (calls limit) args) state with
  | .ok words _ => some words.length
  | .error .. => none

section Theorem

variable {program : Program} {dialect : Dialect} {text : String} {limit : Nat} {declares : Bool}
  {targets : List Name} {op : AssignOp} {callee : Name} {args : List Expr} {around : List Activity}
  {place : Place} {ledger : Ledger} {state : RunState} {count : Nat}

/-- When an assignment of a call to several targets starts, the callee leads to the declaration that
it was printed for or to a late one, and by the former the call fills the targets in print. -/
theorem Program.Traces.destructuresAt_iff_printed
    (undotted : ∀ name ∈ program.names, name.isDotted = false)
    (printed : program.emit dialect = .ok text)
    (traces : program.Traces limit
      (.stmt (.assign declares targets op [.call callee args]) :: around) place ledger state)
    (several : 1 < targets.length) :
    ∃ site site', program.printedSite? dialect place callee = some site ∧
      (state.chart ledger).site? callee = some site' ∧
        (site' = site ∨ program.LateAt dialect place callee site site') ∧
          (program.DestructuresAt dialect place ↔
            op = .set ∧ program.resultCount? site = some targets.length) := by
  have tracks := (traces.tracks printed).resolve_left (by simp [Activity.isDeclaring])
  obtain ⟨found, chart, charted, follows⟩ := tracks.stands
  have used : callee ∈ (Stmt.assign declares targets op [.call callee args]).uses := by
    simp [Stmt.uses, Expr.lookedAll, Expr.looked]
  have located := charted.located found used
    (undotted callee (names_subset_of_at? found (Stmt.uses_subset_names _ used)))
  obtain ⟨site, site', meant, meant', leads⟩ := follows.site? charted.sound tracks.sound located
  refine ⟨site, site', ?_, meant', leads, destructuresAt_iff charted found several meant⟩
  rw [printedSite?, charted.at_place, Option.bind_some, meant]

/-- When a call succeeds that is the only value of an assignment, the callee leads to the definition
of the function that is called, which in a program that returns as it declares gives as many words as
it declares results. -/
theorem Program.Traces.routine_of_callCount? (printed : program.emit dialect = .ok text)
    (traces : program.Traces limit
      (.stmt (.assign declares targets op [.call callee args]) :: around) place ledger state)
    (called : Run.callCount? limit callee args state = some count) :
    ∃ routine function, Run.routine callee state = .ok routine state ∧
      (state.chart ledger).site? callee = some (.statement function) ∧
        program.resultCount? (.statement function) = some routine.returns.length ∧
          ∀ counts : Name → Nat, program.returnsAsDeclared counts = true →
            count = routine.returns.length := by
  have tracks := (traces.tracks printed).resolve_left (by simp [Activity.isDeclaring])
  unfold Run.callCount? at called
  split at called
  · rename_i words final outcome
    obtain rfl := Option.some.inj called
    obtain ⟨index, entry, routine, -, -, located, registered, -, -⟩ := Run.call_eq_ok outcome
    have bound := ScopeTable.function?_of_locate? located
    obtain ⟨routine', function, registered', -, site, found, -⟩ := tracks.functions bound
    obtain rfl := Option.some.inj (registered.symm.trans registered')
    refine ⟨routine, function, ?_, ?_, ?_, fun counts declared => ?_⟩
    · simp [Run.routine, ScopeTable.get?, located, registered]
    · simp [Chart.site?, RunState.chart, located, site]
    · simp [resultCount?, found, Stmt.resultCount?]
    · have sound := (reached_iff_traces.2 ⟨_, _, traces⟩).sound_and_depth.1
      have stable := Run.respects_stable.evalAll (Run.callsRelated_stable limit limit) args
      have returns := tracks.returnsAsDeclared declared
      rw [Run.callsReturn limit limit stable sound returns outcome, (returns bound registered).1]
  · cases called

/-- Whenever a call succeeds that is the only value of an assignment to several targets, it fills the
targets in print if and only if the assignment is plain and the declaration that the callee was printed
for is a function with as many results as there are targets. When the call is made the callee leads to
this declaration or to a late one. If both declare equally many results, the assignment is plain and
the call gives as many words as the function declares that is called, then what is printed and what
runs agree. In a program that returns as it declares every call gives as many. -/
theorem Program.Traces.agree_on_spreading
    (undotted : ∀ name ∈ program.names, name.isDotted = false)
    (printed : program.emit dialect = .ok text)
    (traces : program.Traces limit
      (.stmt (.assign declares targets op [.call callee args]) :: around) place ledger state)
    (several : 1 < targets.length) (called : Run.callCount? limit callee args state = some count) :
    ∃ routine site site', Run.routine callee state = .ok routine state ∧
      program.printedSite? dialect place callee = some site ∧
        (state.chart ledger).site? callee = some site' ∧
          (site' = site ∨ program.LateAt dialect place callee site site') ∧
      program.resultCount? site' = some routine.returns.length ∧
      (program.DestructuresAt dialect place ↔
        op = .set ∧ program.resultCount? site = some targets.length) ∧
      (op = .set → program.resultCount? site = program.resultCount? site' →
        count = routine.returns.length →
          (program.DestructuresAt dialect place ↔ count = targets.length)) ∧
      ∀ counts : Name → Nat, program.returnsAsDeclared counts = true →
        count = routine.returns.length := by
  obtain ⟨routine, function, meant, leads, declares, counted⟩ :=
    traces.routine_of_callCount? printed called
  obtain ⟨site, site', before, leads', same, fills⟩ :=
    traces.destructuresAt_iff_printed undotted printed several
  obtain rfl := Option.some.inj (leads.symm.trans leads')
  refine ⟨routine, site, _, meant, before, leads', same, declares, fills, fun plain equal counts => ?_,
    counted⟩
  rw [fills, equal, declares, Option.some.injEq, counts]
  exact and_iff_right plain

end Theorem

/-- A function that passes on both results of another. -/
def Program.passingOn : Program where
  imports := []
  body :=
    [.func "f" [] ["p", "q"] [],
      .func "g" [] ["p", "q"] [.ret [.call "f" []] none],
      .assign true ["a", "b"] .set [.call "g" []]]

/-- In the run and in the printed text, both variables are filled from a function that passes
results on. -/
theorem Program.Traces.agree_on_spreading_passingOn :
    ∃ text around ledger state, (∀ name ∈ passingOn.names, name.isDotted = false) ∧
      passingOn.emit .go = .ok text ∧
        passingOn.Traces 2 (.stmt (.assign true ["a", "b"] .set [.call "g" []]) :: around)
          (.next (.next .first)) ledger state ∧
        1 < ["a", "b"].length ∧ Run.callCount? 2 "g" [] state = some 2 ∧
        passingOn.returnsAsDeclared (fun _ => 2) = true ∧
        ∃ routine site site', Run.routine "g" state = .ok routine state ∧
          passingOn.printedSite? .go (.next (.next .first)) "g" = some site ∧
            (state.chart ledger).site? "g" = some site' ∧
              (site' = site ∨ passingOn.LateAt .go (.next (.next .first)) "g" site site') ∧
          passingOn.resultCount? site' = some routine.returns.length ∧
          (passingOn.DestructuresAt .go (.next (.next .first)) ↔
            AssignOp.set = .set ∧ passingOn.resultCount? site = some ["a", "b"].length) ∧
          (AssignOp.set = .set → passingOn.resultCount? site = passingOn.resultCount? site' →
            2 = routine.returns.length →
              (passingOn.DestructuresAt .go (.next (.next .first)) ↔ 2 = ["a", "b"].length)) ∧
          ∀ counts : Name → Nat, passingOn.returnsAsDeclared counts = true →
            2 = routine.returns.length := by
  have first : passingOn.Traces 2 _ _ _ _ := .whole
  have second := Program.Traces.part first (.tail _ (.head _))
  have third := Program.Traces.part second (.tail _ (.head _))
  have assigning := Program.Traces.part third (.head _)
  obtain ⟨text, printed⟩ : ∃ text, passingOn.emit .go = .ok text := ⟨_, rfl⟩
  obtain ⟨around, ledger, state, traces, gives⟩ : ∃ around ledger state,
      passingOn.Traces 2 (.stmt (.assign true ["a", "b"] .set [.call "g" []]) :: around)
        (.next (.next .first)) ledger state ∧ Run.callCount? 2 "g" [] state = some 2 :=
    ⟨_, _, _, assigning, by decide +kernel⟩
  have undotted : ∀ name ∈ passingOn.names, name.isDotted = false := by decide
  exact ⟨text, around, ledger, state, undotted, printed, traces, by decide, gives, by decide,
    traces.agree_on_spreading undotted printed (by decide) gives⟩

/-- Whenever a call succeeds that is the only value of an assignment to several targets, it fills the
targets in print if and only if it gives as many words as there are targets. -/
def Program.AgreesOnSpreading (program : Program) (dialect : Dialect) (limit : Nat) : Prop :=
  ∀ ⦃declares : Bool⦄ ⦃targets : List Name⦄ ⦃op : AssignOp⦄ ⦃callee : Name⦄ ⦃args : List Expr⦄
    ⦃around : List Activity⦄ ⦃place : Place⦄ ⦃ledger : Ledger⦄ ⦃state : RunState⦄ ⦃count : Nat⦄,
    program.Traces limit (.stmt (.assign declares targets op [.call callee args]) :: around) place
      ledger state → 1 < targets.length → Run.callCount? limit callee args state = some count →
        (program.DestructuresAt dialect place ↔ count = targets.length)

/-- A function that declares two results and returns one value. -/
def Program.returningFewer : Program where
  imports := []
  body :=
    [.func "f" [] ["p", "q"] [.ret [.number "1" 1] none],
      .assign true ["a", "b"] .set [.call "f" []]]

/-- A call with two results, which are added to two targets. -/
def Program.addingResults : Program where
  imports := []
  body :=
    [.func "f" [] ["p", "q"] [],
      .assign true ["a", "b"] .set [.number "0" 0],
      .assign false ["a", "b"] .add [.call "f" []]]

/-- A function that assigns the result of another, which is defined once more behind it, now with two
results. -/
def Program.redefining : Program where
  imports := []
  body :=
    [.func "f" [] ["p"] [],
      .block
        [.func "g" [] [] [.assign true ["a", "b"] .set [.call "f" []]],
          .func "f" [] ["p", "q"] [],
          .expr (.call "g" [])]]

/-- The call gives one word and fills both targets in print. -/
theorem Program.not_agreesOnSpreading_returningFewer : ¬ returningFewer.AgreesOnSpreading .go 1 := by
  intro agrees
  have first : returningFewer.Traces 1 _ _ _ _ := .whole
  have second := Program.Traces.part first (.tail _ (.head _))
  have assigning := Program.Traces.part second (.head _)
  have fills : returningFewer.DestructuresAt .go (.next .first) :=
    ⟨_, _, _, _, _, _, _, _, rfl, rfl, rfl, rfl⟩
  have one := @agrees _ _ _ _ _ _ _ _ _ 1 assigning (by decide) (by decide +kernel)
  exact absurd (one.1 fills) (by decide)

/-- The call gives two words and fills neither target in print. -/
theorem Program.not_agreesOnSpreading_addingResults : ¬ addingResults.AgreesOnSpreading .go 1 := by
  intro agrees
  have first : addingResults.Traces 1 _ _ _ _ := .whole
  have second := Program.Traces.part first (.tail _ (.head _))
  have third := Program.Traces.part second (.tail _ (.head _))
  have assigning := Program.Traces.part third (.head _)
  have two := @agrees _ _ _ _ _ _ _ _ _ 2 assigning (by decide) (by decide +kernel)
  have printed : addingResults.emit .go = .ok _ := rfl
  obtain ⟨site, -, -, -, -, exactly⟩ :=
    assigning.destructuresAt_iff_printed (by decide) printed (by decide)
  exact absurd (exactly.1 (two.2 rfl)).1 (by decide)

/-- The call gives two words, of a function that is defined behind the one around it, and fills
neither target in print. -/
theorem Program.not_agreesOnSpreading_redefining : ¬ redefining.AgreesOnSpreading .go 2 := by
  intro agrees
  have first : redefining.Traces 2 _ _ _ _ := .whole
  have second := Program.Traces.part first (.tail _ (.head _))
  have block := Program.Traces.part second (.head _)
  have defining := Program.Traces.part block (.head _)
  have again := Program.Traces.part defining (.tail _ (.head _))
  have calling := Program.Traces.part again (.tail _ (.head _))
  have statement := Program.Traces.part calling (.head _)
  have called := Program.Traces.part statement (.head _)
  have frame := Program.Traces.part called (.tail _ (.head _))
  have body := Program.Traces.part frame (.tail _ (.tail _ (.head _)))
  have assigning := Program.Traces.part body (.head _)
  have two := @agrees _ _ _ _ _ _ _ _ _ 2 assigning (by decide) (by decide +kernel)
  have printed : redefining.emit .go = .ok _ := rfl
  obtain ⟨site, -, before, -, -, exactly⟩ :=
    assigning.destructuresAt_iff_printed (by decide) printed (by decide)
  have outer : redefining.printedSite? .go (.inner (.inner (.next .first))) "f" =
      some (.statement .first) := by decide +kernel
  obtain rfl := Option.some.inj (outer.symm.trans before)
  exact absurd (exactly.1 (two.2 rfl)).2 (by decide)

/-- What is printed and what runs need not agree: a `return` may have fewer values than the function
declares results, an operator may combine the results with the targets, and the callee may lead to a
late declaration. -/
theorem Program.not_agreesOnSpreading :
    ((∀ name ∈ returningFewer.names, name.isDotted = false) ∧
      (∃ text, returningFewer.emit .go = .ok text) ∧ ¬ returningFewer.AgreesOnSpreading .go 1) ∧
    ((∀ name ∈ addingResults.names, name.isDotted = false) ∧
      (∃ text, addingResults.emit .go = .ok text) ∧ ¬ addingResults.AgreesOnSpreading .go 1) ∧
    ((∀ name ∈ redefining.names, name.isDotted = false) ∧
      (∃ text, redefining.emit .go = .ok text) ∧ ¬ redefining.AgreesOnSpreading .go 2) := by
  exact ⟨⟨by decide, ⟨_, rfl⟩, not_agreesOnSpreading_returningFewer⟩,
    ⟨by decide, ⟨_, rfl⟩, not_agreesOnSpreading_addingResults⟩,
    ⟨by decide, ⟨_, rfl⟩, not_agreesOnSpreading_redefining⟩⟩

end ScriptLang

import ScriptLang.Proofs.Scope.Uses
import ScriptLang.Proofs.Scope.Values

/-!
# What a write changes in a store

A write that is made changes what one scope binds one name to, and every other binding stays. What
is written is what the name means behind the write, and its value is the one that was given, but for
a function that is declared with a count too large for a word. A write is refused for three reasons:
the name is bound in the current scope, it is bound in no scope around, or the nearest scope that
binds it binds it to a function. Which of them can refuse a write depends on the write, and
`Refuses` says it for each. Behind a refusal the store is the one from before.
-/

namespace ScriptLang

namespace ScopeTable

section Changes

variable {φ : Type} {table table' : ScopeTable φ}

/-- One table is the other but for what a scope binds a name to. -/
structure Differs (table table' : ScopeTable φ) (index : Nat) (name : Name) (symbol : Symbol φ) :
    Prop where
  current : table'.current = table.current
  parents : table'.scopes.map Scope.parent = table.scopes.map Scope.parent
  binding?_eq (other : Nat) (name' : Name) : table'.binding? other name' =
    if other = index ∧ name' = name then some symbol else table.binding? other name'

/-- A scope that is changed without being moved is the only one that is. -/
theorem differs_modify {index : Nat} {name : Name} {symbol : Symbol φ} {change : Scope φ → Scope φ}
    (moved : ∀ scope, (change scope).parent = scope.parent)
    (changed : ∃ scope, table.scopes[index]? = some scope ∧ ∀ name',
      (change scope).lookup? name' = if name' = name then some symbol else scope.lookup? name') :
    table.Differs { table with scopes := table.scopes.modify index change } index name symbol where
  current := rfl
  parents := by
    refine List.ext_getElem? fun other => ?_
    simp only [List.getElem?_map, List.getElem?_modify]
    cases table.scopes[other]? with
    | none => rfl
    | some scope => by_cases here : index = other <;> simp [here, moved]
  binding?_eq other name' := by
    obtain ⟨scope, present, looked⟩ := changed
    by_cases here : index = other
    · subst here
      simp [binding?, present, looked]
    · simp [binding?, here, Ne.symm here]

/-- Binding a name in the current scope changes what that scope binds it to. -/
theorem differs_insert {name : Name} {symbol : Symbol φ} (live : table.current < table.depth) :
    table.Differs { table with scopes := table.scopes.modify table.current (·.insert name symbol) }
      table.current name symbol :=
  differs_modify (fun scope => scope.parent_insert _ _)
    ⟨_, List.getElem?_eq_getElem live, fun _ => Scope.lookup?_insert ..⟩

/-- Binding a name anew where it is located changes what that scope binds it to. -/
theorem differs_replace {index : Nat} {name : Name} {old symbol : Symbol φ}
    (located : table.locate? name = some (index, old)) :
    table.Differs { table with scopes := table.scopes.modify index (·.replace name symbol) }
      index name symbol := by
  obtain ⟨scope, present, bound⟩ := (resolves_of_locateFrom? located).bound
  refine differs_modify (fun scope => scope.parent_replace _ _) ⟨scope, present, fun name' => ?_⟩
  rw [Scope.lookup?_replace]
  by_cases same : name' = name
  · simp [same, bound]
  · simp [same]

/-- An assignment is refused exactly if it is one to a function. -/
theorem write_eq_error_iff {name : Name} {word : Word} {found : Nat × Symbol φ} {error : NameError} :
    table.write name word found = .error error ↔
      error = .kindMismatch name .variable .func ∧ ∃ index entry, found = (index, .func entry) := by
  obtain ⟨index, old | entry⟩ := found
  · simp [ScopeTable.write]
  · simp [ScopeTable.write, eq_comm]

/-- No scope of a path binds a name exactly if there is no nearest one. -/
theorem nearest?_eq_none_iff {name : Name} {path : List Nat} :
    table.nearest? name path = none ↔ ∀ index ∈ path, table.binding? index name = none := by
  simp [nearest?]

end Changes

variable {table table' : ScopeTable Word} {write : Write}

/-- A write that is made changes one binding. Either the current scope does not bind the name before,
or the nearest scope that binds it binds it to a variable and the write is one of a variable. -/
theorem Rooted.differs_of_apply (rooted : table.Rooted) (applied : write.apply table = .ok table') :
    ∃ index, table.Differs table' index write.name write.symbol ∧
      table'.locate? write.name = some (index, write.symbol) ∧
      ∀ symbol, table.binding? index write.name = some symbol → symbol.kind = write.symbol.kind := by
  rcases apply_eq_ok applied with ⟨unbound, rfl⟩ | ⟨index, old, word, variable', located, rfl⟩
  · obtain ⟨scope, present⟩ : ∃ scope, table.scopes[table.current]? = some scope :=
      ⟨_, List.getElem?_eq_getElem rooted.current_lt⟩
    refine ⟨table.current, differs_insert rooted.current_lt, ?_, fun symbol bound => ?_⟩
    · obtain ⟨steps, enough⟩ := Nat.exists_eq_add_one.2 (Nat.zero_lt_of_lt rooted.current_lt)
      have enough' : table.scopes.length = steps + 1 := enough
      simp [locate?, depth, enough', locateFrom?, present, Scope.lookup?_insert]
    · rw [show table.binding? table.current write.name = none from unbound] at bound
      cases bound
  · obtain ⟨scope, present, bound⟩ := (resolves_of_locateFrom? located).bound
    refine ⟨index, differs_replace located, ?_, fun symbol bound' => ?_⟩
    · have located' := locateFrom?_modify_replace located write.symbol
      simpa [locate?, depth] using located'
    · have same : table.binding? index write.name = some (.variable old) := by
        simpa [binding?, present] using bound
      obtain rfl := Option.some.inj (same.symm.trans bound')
      rw [variable']
      rfl

/-- The reasons for which a write is refused; the path leads from the current scope to the root. -/
def Refuses (table : ScopeTable Word) (path : List Nat) : Write → NameError → Prop
  | .declare name _, error | .declareFunction name _, error =>
      error = .redeclaration name ∧ ∃ symbol, table.binding? table.current name = some symbol
  | .set name _, error =>
      error = .undefinedReference name ∧ (∀ index ∈ path, table.binding? index name = none) ∨
        error = .kindMismatch name .variable .func ∧
          ∃ index entry, table.nearest? name path = some (index, .func entry)
  | .declareOrSet name _, error =>
      error = .kindMismatch name .variable .func ∧
        ∃ index entry, table.nearest? name path = some (index, .func entry)

/-- A write is refused for its reasons, and for no others. -/
theorem Rooted.apply_eq_error_iff (rooted : table.Rooted) {path : List Nat}
    (chain : Chain table.scopes table.current path) {error : NameError} :
    write.apply table = .error error ↔ table.Refuses path write error := by
  have located (name : Name) : table.locate? name = table.nearest? name path :=
    chain.locateFrom?_eq name (Nat.le_trans (chain.length_le rooted) rooted.current_lt)
  have inserted {name : Name} {symbol : Symbol Word} : table.insert name symbol = .error error ↔
      error = .redeclaration name ∧ ∃ symbol, table.binding? table.current name = some symbol := by
    rw [insert_eq_error_iff, and_comm, Option.isSome_iff_exists]
    rfl
  cases write with
  | declare name word => exact inserted
  | declareFunction name count => exact inserted
  | set name word =>
    rw [Write.apply, ScopeTable.set, located, Refuses, ← nearest?_eq_none_iff]
    cases table.nearest? name path with
    | none => simp [eq_comm]
    | some found => simp [write_eq_error_iff]
  | declareOrSet name word =>
    rw [Write.apply, ScopeTable.declareOrSet, located, Refuses]
    cases nearest : table.nearest? name path with
    | none =>
      have unbound : table.binding? table.current name = none := by
        refine nearest?_eq_none_iff.1 nearest _ ?_
        cases chain with
        | outermost => exact List.mem_cons_self
        | within => exact List.mem_cons_self
      simp [ScopeTable.declare, inserted, unbound]
    | some found => simp [write_eq_error_iff]

end ScopeTable

namespace ScopeStore

open ScopeTable

variable {store final : ScopeStore} {write : Write}

/-- The value of the record that is written is the given one, if it fits a word. From a count that
does not fit it differs by two to the power of 64. -/
theorem toInt_value_symbol (write : Write) : (Record.mk write.name write.symbol).value.toInt =
    if Word.Fits write.given then write.given else write.given - 0x10000000000000000 := by
  cases write with
  | declare name word => exact (if_pos (Word.fits_toInt word)).symm
  | declareFunction name count => exact Word.toInt_ofCount count
  | set name word => exact (if_pos (Word.fits_toInt word)).symm
  | declareOrSet name word => exact (if_pos (Word.fits_toInt word)).symm

/-- What holds behind a write that is made: the scopes stand as they stood, and of all their records
one is another, filed under the written name by the scope in which the name is now found. -/
structure Written (store : ScopeStore) (write : Write) (final : ScopeStore) : Prop where
  current : final.current = store.current
  parents : final.shelves.map Shelf.parent = store.shelves.map Shelf.parent
  one : ∃ index, Resolves final.table.scopes write.name final.current (index, write.symbol) ∧
    ∀ other name, final.record? other name =
      if other = index ∧ name = write.name then some ⟨write.name, write.symbol⟩
      else store.record? other name
  get?_eq : final.get? write.name = some ⟨write.name, write.symbol⟩
  reported : ∃ record, final.get? write.name = some record ∧ record.value.toInt =
    if Word.Fits write.given then write.given else write.given - 0x10000000000000000
  value_eq {word : Word} : write.symbol = .variable word → final.value write.name = .ok word
  kinds {index : Nat} {name : Name} {record : Record} : store.record? index name = some record →
    ∃ record', final.record? index name = some record' ∧ record'.symbol.kind = record.symbol.kind

/-- In a store whose records are filed under their own names the table has all that they say. -/
theorem Filed.record?_eq (filed : store.Filed) (index : Nat) (name : Name) :
    store.record? index name = (store.table.binding? index name).map (Record.mk name) := by
  rw [binding?, lookup?_scopes_table]
  cases found : store.record? index name with
  | none => rfl
  | some record =>
    have own := filed.record? found
    subst own
    rfl

/-- Where the table differs in one binding, the store is written. -/
theorem Sound.written (sound : store.Sound) (filed : final.Filed)
    (applied : write.apply store.table = .ok final.table) : store.Written write final := by
  obtain ⟨index, differs, located, kept⟩ := sound.rooted.differs_of_apply applied
  have one (other : Nat) (name : Name) : final.record? other name =
      if other = index ∧ name = write.name then some ⟨write.name, write.symbol⟩
      else store.record? other name := by
    rw [filed.record?_eq, sound.filed.record?_eq, differs.binding?_eq]
    split
    · rename_i here
      rw [here.2]
      rfl
    · rfl
  have means : final.get? write.name = some ⟨write.name, write.symbol⟩ := by
    rw [filed.get?_eq, ScopeTable.get?, located]
    rfl
  refine ⟨differs.current, ?_, ⟨index, resolves_of_locateFrom? located, one⟩, means,
    ⟨_, means, toInt_value_symbol write⟩, ?_, ?_⟩
  · have parents := differs.parents
    simpa [table, Function.comp_def, Shelf.scope] using parents
  · intro word variable'
    rw [value, means, variable']
    rfl
  · intro other name record present
    rw [one]
    split
    · rename_i here
      obtain ⟨rfl, rfl⟩ := here
      refine ⟨_, rfl, (kept record.symbol ?_).symm⟩
      rw [binding?, lookup?_scopes_table, present]
      rfl
    · exact ⟨record, present, rfl⟩

/-- Whatever the steps are that led to a store, a write into it does to the table what the write does;
it is refused for its reasons and for no others, and leaves the store as it was; or it is made, and
changes one binding. The value that is reported then is the given one, if it fits a word. -/
theorem Leads.write_outcome (leads : Leads .new store) (write : Write) :
    store.Settles (write.apply store.table) (write.inPlace store) ∧
    ∃ path, Chain store.table.scopes store.current path ∧
      (∀ error final, write.inPlace store = .error error final ↔
        final = store ∧ store.table.Refuses path write error) ∧
      ((∀ error, ¬ store.table.Refuses path write error) →
        ∃ final, write.inPlace store = .ok () final) ∧
      ∀ final, write.inPlace store = .ok () final → store.Written write final := by
  have sound := leads.sound sound_new
  obtain ⟨path, chain⟩ := sound.rooted.exists_chain sound.rooted.current_lt
  have refuses {error : NameError} : write.apply store.table = .error error ↔
      store.table.Refuses path write error := sound.rooted.apply_eq_error_iff chain
  have settles := inPlace_settles sound.filed write
  refine ⟨settles, path, chain, ?_⟩
  generalize outcome : write.apply store.table = applied at settles refuses
  generalize write.inPlace store = result at settles ⊢
  cases settles with
  | done filed =>
    refine ⟨fun error final => ?_, fun _ => ⟨_, rfl⟩, fun final done => ?_⟩
    · simp [← refuses]
    · obtain ⟨-, rfl⟩ := EStateM.Result.ok.inj done
      exact sound.written filed outcome
  | refused error =>
    refine ⟨fun error' final => ?_, fun none => absurd (refuses.1 rfl) (none error), fun _ done => ?_⟩
    · simp [← refuses, and_comm, eq_comm]
    · cases done

/-- A function of the root cannot be assigned to, and can be hidden by a variable. -/
theorem write_outcome_within_root :
    let store : ScopeStore := ((Write.declareFunction "f" 7).behind .new).enter
    (∃ path, Chain store.table.scopes store.current path ∧
      store.table.Refuses path (.set "f" 1) (.kindMismatch "f" .variable .func)) ∧
      ∃ final, (Write.declare "f" 1).inPlace store = .ok () final ∧
        store.Written (.declare "f" 1) final := by
  intro store
  have leads : Leads .new store := .enter (.write _ .refl)
  obtain ⟨-, path, chain, refused, -, -⟩ := leads.write_outcome (.set "f" 1)
  obtain ⟨-, -, -, -, -, made⟩ := leads.write_outcome (.declare "f" 1)
  exact ⟨⟨path, chain, ((refused _ store).1 rfl).2⟩, _, rfl, made _ rfl⟩

/-- The largest count is not the value that is reported of a function declared with it. -/
theorem not_reports_given : ¬∀ (store final : ScopeStore) (write : Write), Leads .new store →
    write.inPlace store = .ok () final →
      ∃ record, final.get? write.name = some record ∧ record.value.toInt = write.given := by
  intro reports
  let write := Write.declareFunction "f" 0xffffffffffffffff
  obtain ⟨record, found, same⟩ := reports .new (write.behind .new) write .refl rfl
  have stored : (write.behind .new).get? "f" = some ⟨"f", .func (-1)⟩ := rfl
  obtain rfl := Option.some.inj (stored.symm.trans found)
  exact absurd same (by decide)

end ScopeStore

end ScriptLang

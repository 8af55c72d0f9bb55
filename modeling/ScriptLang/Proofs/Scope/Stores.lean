import ScriptLang.Proofs.Scope.Shape

/-!
# Tables that are kept in place

A table of scopes can be kept in one place and changed step by step. Each scope then files records
under names, and a record carries a name of its own beside its symbol. The value of a record is a
word, also that of a function, which is declared with a count. The steps of a write are those of a
program with one mutable table, so that a refusal leaves whatever was done before it.

`ScopeStore.table` is the table that a store holds. A write in place does to it what the write does,
and leaves the store as it was if the write is refused.
-/

namespace ScriptLang

/-- A symbol with a name of its own. -/
structure Record where
  name : Name
  symbol : Symbol Word

/-- The value of a record, whatever its symbol is. -/
def Record.value (record : Record) : Word :=
  match record.symbol with
  | .variable word | .func word => word

/-- A scope with its records, each filed under a name. -/
structure Shelf where
  parent : Option Nat
  records : List (Name × Record)

namespace Shelf

/-- A shelf without records. -/
def empty (parent : Option Nat) : Shelf := ⟨parent, []⟩

/-- The record that is filed under a name. -/
def record? (shelf : Shelf) (key : Name) : Option Record :=
  shelf.records.lookup key

/-- Files a record under a name. -/
def file (shelf : Shelf) (key : Name) (record : Record) : Shelf :=
  { shelf with records := (key, record) :: shelf.records }

/-- Gives the record that is filed under a name another value. -/
def assign (shelf : Shelf) (key : Name) (word : Word) : Shelf :=
  { shelf with
    records := shelf.records.map fun (filed, record) =>
      (filed, if filed = key then { record with symbol := .variable word } else record) }

/-- The scope that the records make up. -/
def scope (shelf : Shelf) : Scope Word :=
  ⟨shelf.parent, shelf.records.map fun (key, record) => (key, record.symbol)⟩

/-- Every record is filed under its own name. -/
def Filed (shelf : Shelf) : Prop :=
  ∀ key record, (key, record) ∈ shelf.records → record.name = key

/-- The scope of a shelf binds a name to the symbol of the record that is filed under it. -/
theorem lookup?_scope (shelf : Shelf) (key : Name) :
    shelf.scope.lookup? key = (shelf.record? key).map Record.symbol := by
  simp only [scope, record?, Scope.lookup?]
  induction shelf.records with
  | nil => rfl
  | cons binding rest ih =>
    obtain ⟨filed, record⟩ := binding
    by_cases same : key = filed
    · simp [same]
    · simpa [List.lookup_cons, beq_eq_false_iff_ne.2 same] using ih

/-- An empty shelf makes up an empty scope. -/
@[simp] theorem scope_empty (parent : Option Nat) : (empty parent).scope = .empty parent := rfl

/-- Filing a record binds its name in the scope. -/
theorem scope_file (shelf : Shelf) (key : Name) (record : Record) :
    (shelf.file key record).scope = shelf.scope.insert key record.symbol := rfl

/-- Giving a record another value binds its name anew in the scope. -/
theorem scope_assign (shelf : Shelf) (key : Name) (word : Word) :
    (shelf.assign key word).scope = shelf.scope.replace key (.variable word) := by
  simp only [scope, assign, Scope.replace, List.map_map, Scope.mk.injEq, true_and]
  refine List.map_congr_left fun binding _ => ?_
  obtain ⟨filed, record⟩ := binding
  simp only [Function.comp_apply]
  split <;> rfl

/-- A record that is filed under its own name keeps a shelf in order. -/
theorem Filed.file {shelf : Shelf} (filed : shelf.Filed) (record : Record) :
    (shelf.file record.name record).Filed := by
  intro key other member
  rcases List.mem_cons.1 member with newest | older
  · obtain ⟨rfl, rfl⟩ := Prod.mk.inj newest
    rfl
  · exact filed key other older

/-- A record with another value keeps its name. -/
theorem Filed.assign {shelf : Shelf} (filed : shelf.Filed) (key : Name) (word : Word) :
    (shelf.assign key word).Filed := by
  intro key' record member
  obtain ⟨⟨key'', old⟩, present, same⟩ := List.mem_map.1 member
  obtain ⟨rfl, rfl⟩ := Prod.mk.inj same
  have own := filed _ old present
  split
  · exact own
  · exact own

/-- A record that is found under a name has this name. -/
theorem Filed.name_eq {shelf : Shelf} (filed : shelf.Filed) {key : Name} {record : Record}
    (found : shelf.record? key = some record) : record.name = key := by
  refine filed key record ?_
  obtain ⟨before, after, same, -⟩ := List.lookup_eq_some_iff.1 found
  exact same ▸ List.mem_append_right _ List.mem_cons_self

end Shelf

/-- A table of scopes that is kept in place. -/
structure ScopeStore where
  shelves : List Shelf
  current : Nat

namespace ScopeStore

/-- The table that the store holds. -/
def table (store : ScopeStore) : ScopeTable Word :=
  ⟨store.shelves.map Shelf.scope, store.current⟩

/-- Every record is filed under its own name. -/
def Filed (store : ScopeStore) : Prop :=
  ∀ shelf ∈ store.shelves, shelf.Filed

/-- The store with nothing but an empty root. -/
def new : ScopeStore := ⟨[Shelf.empty none], 0⟩

/-- Opens a scope within the one with the index, and makes it the current one. -/
def enterUnder (store : ScopeStore) (parent : Nat) : ScopeStore :=
  ⟨store.shelves ++ [Shelf.empty (some parent)], store.shelves.length⟩

/-- Opens a scope within the current one. -/
def enter (store : ScopeStore) : ScopeStore :=
  store.enterUnder store.current

/-- Closes the newest scope, unless it is the root, and goes back to the one with the index. -/
def exit (store : ScopeStore) (previous : Nat) : ScopeStore :=
  ⟨if 1 < store.shelves.length then store.shelves.dropLast else store.shelves, previous⟩

/-- The record that the scope with an index files under a name. -/
def record? (store : ScopeStore) (index : Nat) (name : Name) : Option Record :=
  (store.shelves[index]?).bind (·.record? name)

/-- The nearest scope that binds a name. -/
def locate? (store : ScopeStore) (name : Name) : Option Nat :=
  (store.table.locate? name).map Prod.fst

/-- The record that a name means. -/
def get? (store : ScopeStore) (name : Name) : Option Record :=
  (store.locate? name).bind (store.record? · name)

/-- The value of a record, which must be a variable. -/
def variableOf (record : Record) : Except NameError Word :=
  match record.symbol with
  | .variable word => .ok word
  | .func _ => .error (.kindMismatch record.name .variable .func)

/-- The value of the variable that a name means. -/
def value (store : ScopeStore) (name : Name) : Except NameError Word :=
  match store.get? name with
  | some record => variableOf record
  | none => .error (.undefinedReference name)

/-- A step with a store. A refusal leaves the store as it is at that moment. -/
abbrev Use (α : Type) : Type := EStateM NameError ScopeStore α

namespace Use

/-- Changes the scope with an index. -/
def change (index : Nat) (step : Shelf → Shelf) : Use Unit :=
  modify fun store => { store with shelves := store.shelves.modify index step }

/-- Binds a name in the current scope, unless it is bound there. -/
def bindHere (name : Name) (symbol : Symbol Word) : Use Unit := do
  match (← get).record? (← get).current name with
  | some _ => throw (.redeclaration name)
  | none => change (← get).current (·.file name ⟨name, symbol⟩)

/-- Gives the variable that the scope with an index binds a name to another value. -/
def overwrite (index : Nat) (name : Name) (word : Word) : Use Unit := do
  match (← get).record? index name with
  | none => throw (.undefinedReference name)
  | some record =>
      match variableOf record with
      | .error error => throw error
      | .ok _ => change index (·.assign name word)

end Use

end ScopeStore

/-- The writes into a table of scopes. -/
inductive Write where
  | declare (name : Name) (word : Word)
  | declareFunction (name : Name) (count : UInt64)
  | set (name : Name) (word : Word)
  | declareOrSet (name : Name) (word : Word)

namespace Write

/-- The name that is written. -/
def name : Write → Name
  | declare name _ | declareFunction name _ | set name _ | declareOrSet name _ => name

/-- What the name is bound to by the write. -/
def symbol : Write → Symbol Word
  | declare _ word | set _ word | declareOrSet _ word => .variable word
  | declareFunction _ count => .func (.ofCount count)

/-- The value that is given to the write. -/
def given : Write → Int
  | declare _ word | set _ word | declareOrSet _ word => word.toInt
  | declareFunction _ count => count.toNat

/-- The table behind the write. -/
def apply (table : ScopeTable Word) : Write → Except NameError (ScopeTable Word)
  | declare name word => table.declare name word
  | declareFunction name count => table.declareFunction name (Word.ofCount count)
  | set name word => table.set name word
  | declareOrSet name word => table.declareOrSet name word

open ScopeStore in
/-- The write, step by step, into a store. -/
def inPlace : Write → Use Unit
  | declare name word => Use.bindHere name (.variable word)
  | declareFunction name count => Use.bindHere name (.func (.ofCount count))
  | set name word => do
      match (← get).locate? name with
      | some index => Use.overwrite index name word
      | none => throw (.undefinedReference name)
  | declareOrSet name word => do
      match (← get).locate? name with
      | some index => Use.overwrite index name word
      | none => Use.bindHere name (.variable word)

/-- The store behind a write in place, whether the write is refused or not. -/
def behind (write : Write) (store : ScopeStore) : ScopeStore :=
  match write.inPlace store with
  | .ok _ final | .error _ final => final

end Write

namespace ScopeStore

variable {store : ScopeStore} {name : Name} {index : Nat}

section Contents

/-- A new store holds the new table. -/
@[simp] theorem table_new : new.table = .new := rfl

/-- The table of a store has as many scopes as the store has shelves. -/
@[simp] theorem depth_table (store : ScopeStore) : store.table.depth = store.shelves.length := by
  simp [table, ScopeTable.depth]

/-- Opening a shelf within another opens a scope within the other's. -/
@[simp] theorem table_enterUnder (store : ScopeStore) (parent : Nat) :
    (store.enterUnder parent).table = store.table.enterUnder parent := by
  simp [enterUnder, table, ScopeTable.enterUnder, ScopeTable.depth]

/-- Opening a shelf within the current one opens a scope within the current one. -/
@[simp] theorem table_enter (store : ScopeStore) : store.enter.table = store.table.enter :=
  table_enterUnder store store.current

/-- Closing the newest shelf closes the newest scope. -/
@[simp] theorem table_exit (store : ScopeStore) (previous : Nat) :
    (store.exit previous).table = store.table.exit previous := by
  simp only [ScopeTable.exit, depth_table]
  simp only [exit, table]
  split
  · rw [List.map_dropLast]
  · rfl

/-- The scopes of the table are those of the shelves. -/
theorem getElem?_scopes_table (store : ScopeStore) (index : Nat) :
    store.table.scopes[index]? = (store.shelves[index]?).map Shelf.scope := List.getElem?_map

/-- What a scope of the table binds a name to, from the record. -/
theorem lookup?_scopes_table (store : ScopeStore) (index : Nat) (name : Name) :
    (store.table.scopes[index]?).bind (·.lookup? name) =
      (store.record? index name).map Record.symbol := by
  rw [getElem?_scopes_table, record?]
  cases store.shelves[index]? with
  | none => rfl
  | some shelf => exact shelf.lookup?_scope name

/-- A record that is found under a name in a store in order has this name. -/
theorem Filed.record? (filed : store.Filed) {record : Record}
    (found : store.record? index name = some record) : record.name = name := by
  obtain ⟨shelf, present, found'⟩ := Option.bind_eq_some_iff.1 found
  exact (filed shelf (List.mem_of_getElem? present)).name_eq found'

/-- Where a name is located, its record is filed. -/
theorem exists_record? {symbol : Symbol Word}
    (located : store.table.locate? name = some (index, symbol)) :
    ∃ record, store.record? index name = some record ∧ record.symbol = symbol := by
  obtain ⟨scope, present, bound⟩ := (ScopeTable.resolves_of_locateFrom? located).bound
  have looked := store.lookup?_scopes_table index name
  rw [present, Option.bind_some, bound] at looked
  exact Option.map_eq_some_iff.1 looked.symm

/-- The record that a name means has the name, and the symbol that the name means in the table. -/
theorem Filed.get?_eq (filed : store.Filed) (name : Name) :
    store.get? name = (store.table.get? name).map (Record.mk name) := by
  rw [get?, locate?, ScopeTable.get?]
  cases located : store.table.locate? name with
  | none => rfl
  | some found =>
    obtain ⟨record, present, same⟩ := exists_record? located
    have own := filed.record? present
    subst own
    simp [present, ← same]

/-- The variable that a name means is the one that it means in the table. -/
theorem Filed.value_eq (filed : store.Filed) (name : Name) :
    store.value name = store.table.value name := by
  rw [value, filed.get?_eq, ScopeTable.value]
  rcases store.table.get? name with _ | word | entry <;> rfl

end Contents

section Steps

/-- Changing one shelf keeps a store in order if the change keeps every shelf in order. -/
theorem Filed.change (filed : store.Filed) (index : Nat) {step : Shelf → Shelf}
    (keeps : ∀ shelf : Shelf, shelf.Filed → (step shelf).Filed) :
    Filed ⟨store.shelves.modify index step, store.current⟩ := by
  intro shelf member
  obtain ⟨other, present⟩ := List.mem_iff_getElem?.1 member
  obtain ⟨old, present', rfl⟩ := Option.map_eq_some_iff.1 ((List.getElem?_modify ..).symm.trans present)
  have before := filed old (List.mem_of_getElem? present')
  split
  · exact keeps old before
  · exact before

/-- A change of one shelf is a change of one scope of the table. -/
theorem table_change (store : ScopeStore) (index : Nat) (step : Shelf → Shelf)
    (change : Scope Word → Scope Word) (same : ∀ shelf, (step shelf).scope = change shelf.scope) :
    table ⟨store.shelves.modify index step, store.current⟩ =
      ⟨store.table.scopes.modify index change, store.current⟩ := by
  simp only [table, ScopeTable.mk.injEq, and_true]
  refine List.ext_getElem? fun other => ?_
  simp only [List.getElem?_map, List.getElem?_modify]
  cases store.shelves[other]? with
  | none => rfl
  | some shelf => by_cases here : index = other <;> simp [here, same]

/-- How a step in place ends that has the outcome: a refusal leaves the store as it was. -/
inductive Settles (store : ScopeStore) :
    Except NameError (ScopeTable Word) → EStateM.Result NameError ScopeStore Unit → Prop
  | done {final : ScopeStore} : final.Filed → Settles store (.ok final.table) (.ok () final)
  | refused (error : NameError) : Settles store (.error error) (.error error store)

/-- What is asked of a store first is the store itself. -/
theorem Use.get_bind {α : Type} (next : ScopeStore → Use α) (store : ScopeStore) :
    (get >>= next) store = next store store := rfl

/-- Binding a name in place does to the table what binding it does. -/
theorem Use.bindHere_settles (filed : store.Filed) (name : Name) (symbol : Symbol Word) :
    store.Settles (store.table.insert name symbol) (Use.bindHere name symbol store) := by
  rw [bindHere, Use.get_bind, Use.get_bind, ScopeTable.insert]
  simp only [lookup?_scopes_table, show store.table.current = store.current from rfl]
  cases found : store.record? store.current name with
  | some record => exact .refused _
  | none =>
    have written := store.table_change store.current (·.file name ⟨name, symbol⟩)
      (·.insert name symbol) fun shelf => shelf.scope_file name ⟨name, symbol⟩
    have done : store.Settles _ _ := .done
      (filed.change store.current fun shelf before => before.file ⟨name, symbol⟩)
    rwa [written] at done

/-- Assigning in place to a variable that was located does to the table what assigning does. -/
theorem Use.overwrite_settles (filed : store.Filed) {symbol : Symbol Word}
    (located : store.table.locate? name = some (index, symbol)) (word : Word) :
    store.Settles (store.table.write name word (index, symbol)) (Use.overwrite index name word store) := by
  obtain ⟨record, found, rfl⟩ := exists_record? located
  have own := filed.record? found
  rw [overwrite, Use.get_bind, found]
  obtain ⟨name', old | entry⟩ := record
  · have written := store.table_change index (·.assign name word)
      (·.replace name (.variable word)) fun shelf => shelf.scope_assign name word
    have done : store.Settles _ _ := .done
      (filed.change index fun shelf before => before.assign name word)
    rwa [written] at done
  · obtain rfl : name' = name := own
    exact .refused _

/-- A write in place has the outcome of the write, and a refused one leaves the store as it was. -/
theorem inPlace_settles (filed : store.Filed) (write : Write) :
    store.Settles (write.apply store.table) (write.inPlace store) := by
  cases write with
  | declare name word => exact Use.bindHere_settles filed name _
  | declareFunction name count => exact Use.bindHere_settles filed name _
  | set name word =>
    rw [Write.inPlace, Use.get_bind, Write.apply, ScopeTable.set, locate?]
    cases located : store.table.locate? name with
    | none => exact .refused _
    | some found => exact Use.overwrite_settles filed located word
  | declareOrSet name word =>
    rw [Write.inPlace, Use.get_bind, Write.apply, ScopeTable.declareOrSet, locate?]
    cases located : store.table.locate? name with
    | none => exact Use.bindHere_settles filed name _
    | some found => exact Use.overwrite_settles filed located word

/-- A write leaves the store as it was, or the table in it is the one behind the write. -/
theorem Filed.behind (filed : store.Filed) (write : Write) :
    write.behind store = store ∨
      (write.behind store).Filed ∧ write.apply store.table = .ok (write.behind store).table := by
  have settles := inPlace_settles filed write
  unfold Write.behind
  generalize write.apply store.table = outcome at settles ⊢
  generalize write.inPlace store = result at settles ⊢
  cases settles with
  | done filed' => exact .inr ⟨filed', rfl⟩
  | refused => exact .inl rfl

end Steps

end ScopeStore

end ScriptLang

import ScriptLang.Proofs.Scope.Stores

/-!
# Tables that are used step by step

A table of scopes is kept in one place and used step by step: names are declared and assigned to,
scopes are opened within any open scope, and when the newest scope is closed any scope that is still
open can become the current one. `ScopeStore.Leads` allows these steps in every order, refused writes
among them.

Such a table need not be nested, since the current scope can be an old one. But it is rooted: the root
stays open, and every other scope lies within an older one. So the scopes around the current one form
a chain that ends at the root, and a name is located in the first scope of the chain that binds it.
-/

namespace ScriptLang

namespace ScopeTable

variable {φ : Type}

section Outcomes

/-- An assignment that is made gives a variable another value. -/
theorem write_eq_ok {table table' : ScopeTable φ} {name : Name} {word : Word}
    {found : Nat × Symbol φ} (written : table.write name word found = .ok table') :
    ∃ index old, found = (index, .variable old) ∧
      table' = { table with
        scopes := table.scopes.modify index (·.replace name (.variable word)) } := by
  obtain ⟨index, old | entry⟩ := found
  · exact ⟨index, old, rfl, (Except.ok.inj written).symm⟩
  · cases written

/-- All that a write can do: it binds a name that the current scope does not bind, or it gives the
variable that the name means another value. -/
theorem apply_eq_ok {table table' : ScopeTable Word} {write : Write}
    (applied : write.apply table = .ok table') :
    table.here? write.name = none ∧
        table' = { table with
          scopes := table.scopes.modify table.current (·.insert write.name write.symbol) } ∨
      ∃ index old word, write.symbol = .variable word ∧
        table.locate? write.name = some (index, .variable old) ∧
        table' = { table with
          scopes := table.scopes.modify index (·.replace write.name write.symbol) } := by
  cases write with
  | declare name word => exact .inl (insert_eq_ok_iff.1 applied)
  | declareFunction name count => exact .inl (insert_eq_ok_iff.1 applied)
  | set name word =>
    rw [Write.apply, ScopeTable.set] at applied
    split at applied
    · rename_i found located
      obtain ⟨index, old, rfl, written⟩ := write_eq_ok applied
      exact .inr ⟨index, old, word, rfl, located, written⟩
    · cases applied
  | declareOrSet name word =>
    rw [Write.apply, ScopeTable.declareOrSet] at applied
    split at applied
    · rename_i found located
      obtain ⟨index, old, rfl, written⟩ := write_eq_ok applied
      exact .inr ⟨index, old, word, rfl, located, written⟩
    · exact .inl (insert_eq_ok_iff.1 applied)

end Outcomes

/-- The root is open and lies within no scope, every other scope lies within an older one, the
current scope is open, and no scope binds a name twice. -/
structure Rooted (table : ScopeTable φ) : Prop where
  root : ∃ scope, table.scopes[0]? = some scope ∧ scope.parent = none
  current_lt : table.current < table.depth
  within {index : Nat} {scope : Scope φ} : 0 < index → table.scopes[index]? = some scope →
    ∃ parent, scope.parent = some parent ∧ parent < index
  unique {scope : Scope φ} : scope ∈ table.scopes → scope.names.Nodup

section Rooted

variable {table table' : ScopeTable φ} {index parent previous : Nat} {name : Name} {symbol : Symbol φ}

/-- The new table is rooted. -/
theorem rooted_new : (new : ScopeTable φ).Rooted where
  root := ⟨Scope.empty none, rfl, rfl⟩
  current_lt := Nat.zero_lt_one
  within {index scope} later present := by
    obtain ⟨rfl, -⟩ : index = 0 ∧ Scope.empty none = scope := by
      simpa [new, List.getElem?_singleton] using present
    exact absurd later (Nat.lt_irrefl 0)
  unique {scope} member := by
    obtain rfl := List.mem_singleton.1 member
    exact List.nodup_nil

/-- A scope that changes without being moved or binding a name twice keeps the table rooted. -/
theorem Rooted.modify (rooted : table.Rooted) {change : Scope φ → Scope φ}
    (moved : ∀ scope, (change scope).parent = scope.parent)
    (unique : ∀ scope, table.scopes[index]? = some scope → (change scope).names.Nodup) :
    { table with scopes := table.scopes.modify index change }.Rooted where
  root := by
    obtain ⟨root, present, outermost⟩ := rooted.root
    by_cases here : index = 0
    · exact ⟨change root, by simp [here, present], by rw [moved, outermost]⟩
    · exact ⟨root, by simp [here, present], outermost⟩
  current_lt := by simpa [depth] using rooted.current_lt
  within {other scope} later present := by
    obtain ⟨old, present', rfl⟩ := Option.map_eq_some_iff.1 ((List.getElem?_modify ..).symm.trans present)
    obtain ⟨parent, within, older⟩ := rooted.within later present'
    refine ⟨parent, ?_, older⟩
    split
    · rw [moved, within]
    · exact within
  unique {scope} member := by
    obtain ⟨other, present⟩ := List.mem_iff_getElem?.1 member
    obtain ⟨old, present', rfl⟩ := Option.map_eq_some_iff.1 ((List.getElem?_modify ..).symm.trans present)
    split
    · rename_i here
      exact unique old (here ▸ present')
    · exact rooted.unique (List.mem_of_getElem? present')

/-- A write keeps the table rooted. -/
theorem Rooted.apply {table table' : ScopeTable Word} (rooted : table.Rooted) {write : Write}
    (applied : write.apply table = .ok table') : table'.Rooted := by
  rcases apply_eq_ok applied with ⟨unbound, rfl⟩ | ⟨index, old, word, -, located, rfl⟩
  · refine rooted.modify (fun scope => scope.parent_insert _ _) fun scope present => ?_
    have fresh : write.name ∉ scope.names := by
      rw [← Scope.isSome_lookup?_iff, Option.not_isSome_iff_eq_none]
      simpa [here?, present] using unbound
    exact List.nodup_cons.2 ⟨fresh, rooted.unique (List.mem_of_getElem? present)⟩
  · refine rooted.modify (fun scope => scope.parent_replace _ _) fun scope present => ?_
    rw [Scope.names_replace]
    exact rooted.unique (List.mem_of_getElem? present)

/-- Opening a scope within an open one keeps the table rooted. -/
theorem Rooted.enterUnder (rooted : table.Rooted) (live : parent < table.depth) :
    (table.enterUnder parent).Rooted where
  root := by
    obtain ⟨root, present, outermost⟩ := rooted.root
    exact ⟨root, (getElem?_scopes_enterUnder (Nat.zero_lt_of_lt live)).trans present, outermost⟩
  current_lt := by simp
  within {index scope} later present := by
    rcases eq_or_newest_of_enterUnder present with older | ⟨rfl, rfl⟩
    · exact rooted.within later older
    · exact ⟨parent, rfl, live⟩
  unique {scope} member := by
    rcases List.mem_append.1 member with older | newest
    · exact rooted.unique older
    · obtain rfl := List.mem_singleton.1 newest
      exact List.nodup_nil

/-- Closing the newest scope takes no other scope away, and never the root. -/
theorem getElem?_scopes_exit (live : index < (table.exit previous).depth) :
    (table.exit previous).scopes[index]? = table.scopes[index]? := by
  unfold depth exit at live
  unfold exit
  split at live
  · rename_i several
    rw [List.length_dropLast] at live
    simp [several, live]
  · rename_i alone
    simp [alone]

/-- Closing the newest scope keeps the table rooted, if the scope that becomes the current one is
still open. -/
theorem Rooted.exit (rooted : table.Rooted) (live : previous < (table.exit previous).depth) :
    (table.exit previous).Rooted where
  root := by
    obtain ⟨root, present, outermost⟩ := rooted.root
    exact ⟨root, (getElem?_scopes_exit (Nat.zero_lt_of_lt live)).trans present, outermost⟩
  current_lt := live
  within {index scope} later present := by
    have open' : index < (table.exit previous).depth := (List.getElem?_eq_some_iff.1 present).1
    rw [getElem?_scopes_exit open'] at present
    exact rooted.within later present
  unique {scope} member := by
    obtain ⟨index, present⟩ := List.mem_iff_getElem?.1 member
    have open' : index < (table.exit previous).depth := (List.getElem?_eq_some_iff.1 present).1
    rw [getElem?_scopes_exit open'] at present
    exact rooted.unique (List.mem_of_getElem? present)

/-- The root stays open, and its names stay behind newer ones. -/
def KeepsRoot (table table' : ScopeTable φ) : Prop :=
  ∀ root, table.scopes[0]? = some root →
    ∃ root', table'.scopes[0]? = some root' ∧ root'.parent = root.parent ∧
      root.names <:+ root'.names

/-- Every table keeps its root. -/
theorem KeepsRoot.refl (table : ScopeTable φ) : table.KeepsRoot table :=
  fun root present => ⟨root, present, rfl, List.suffix_refl _⟩

/-- A root that is kept twice is kept. -/
theorem KeepsRoot.trans {table'' : ScopeTable φ} (first : table.KeepsRoot table')
    (second : table'.KeepsRoot table'') : table.KeepsRoot table'' := by
  intro root present
  obtain ⟨root', present', around', suffix'⟩ := first root present
  obtain ⟨root'', present'', around'', suffix''⟩ := second root' present'
  exact ⟨root'', present'', around''.trans around', suffix'.trans suffix''⟩

/-- A change of one scope that moves none and drops no names keeps the root. -/
theorem KeepsRoot.modify {change : Scope φ → Scope φ}
    (moved : ∀ scope, (change scope).parent = scope.parent)
    (more : ∀ scope, scope.names <:+ (change scope).names) :
    table.KeepsRoot { table with scopes := table.scopes.modify index change } := by
  intro root present
  by_cases here : index = 0
  · exact ⟨change root, by simp [here, present], moved root, more root⟩
  · exact ⟨root, by simp [here, present], rfl, List.suffix_refl _⟩

/-- A write keeps the root. -/
theorem KeepsRoot.apply {table table' : ScopeTable Word} {write : Write}
    (applied : write.apply table = .ok table') : table.KeepsRoot table' := by
  rcases apply_eq_ok applied with ⟨-, rfl⟩ | ⟨index, old, word, -, -, rfl⟩
  · exact .modify (fun scope => scope.parent_insert _ _) fun scope => List.suffix_cons _ _
  · exact .modify (fun scope => scope.parent_replace _ _) fun scope => by simp

/-- Opening a scope keeps the root. -/
theorem KeepsRoot.enterUnder (live : parent < table.depth) :
    table.KeepsRoot (table.enterUnder parent) := fun root present =>
  ⟨root, (getElem?_scopes_enterUnder (Nat.zero_lt_of_lt live)).trans present, rfl, List.suffix_refl _⟩

/-- Closing the newest scope keeps the root, if the scope that becomes the current one is open. -/
theorem KeepsRoot.exit (live : previous < (table.exit previous).depth) :
    table.KeepsRoot (table.exit previous) := fun root present =>
  ⟨root, (getElem?_scopes_exit (Nat.zero_lt_of_lt live)).trans present, rfl, List.suffix_refl _⟩

end Rooted

/-- The scopes on the way outwards from the one with the index, which comes first, up to one that lies
within no other. -/
inductive Chain (scopes : List (Scope φ)) : Nat → List Nat → Prop
  | outermost {index : Nat} {scope : Scope φ} : scopes[index]? = some scope → scope.parent = none →
      Chain scopes index [index]
  | within {index parent : Nat} {scope : Scope φ} {path : List Nat} :
      scopes[index]? = some scope → scope.parent = some parent → Chain scopes parent path →
        Chain scopes index (index :: path)

section Chain

variable {table : ScopeTable φ} {index : Nat} {path : List Nat}

/-- In a rooted table only an older scope lies around another one. -/
theorem Rooted.parent_lt (rooted : table.Rooted) {parent : Nat} {scope : Scope φ}
    (present : table.scopes[index]? = some scope) (around : scope.parent = some parent) :
    parent < index := by
  rcases Nat.eq_zero_or_pos index with rfl | later
  · obtain ⟨root, present', outermost⟩ := rooted.root
    obtain rfl := Option.some.inj (present.symm.trans present')
    rw [outermost] at around
    cases around
  · obtain ⟨parent', around', older⟩ := rooted.within later present
    rw [around'] at around
    exact Option.some.inj around ▸ older

/-- In a rooted table a chain leads outwards from every open scope. -/
theorem Rooted.exists_chain (rooted : table.Rooted) (live : index < table.depth) :
    ∃ path, Chain table.scopes index path := by
  induction index using Nat.strongRecOn with
  | _ index ih =>
    have present : table.scopes[index]? = some table.scopes[index] := List.getElem?_eq_getElem live
    cases around : table.scopes[index].parent with
    | none => exact ⟨[index], .outermost present around⟩
    | some parent =>
      have older := rooted.parent_lt present around
      obtain ⟨path, chain⟩ := ih parent older (Nat.lt_trans older live)
      exact ⟨index :: path, .within present around chain⟩

/-- The scopes of a chain are open. -/
theorem Chain.lt_depth (chain : Chain table.scopes index path) : ∀ other ∈ path, other < table.depth := by
  induction chain with
  | outermost present _ =>
    exact List.forall_mem_singleton.2 (List.getElem?_eq_some_iff.1 present).1
  | within present _ _ ih =>
    exact List.forall_mem_cons.2 ⟨(List.getElem?_eq_some_iff.1 present).1, ih⟩

/-- A chain goes through older and older scopes. -/
theorem Chain.decreasing (rooted : table.Rooted) (chain : Chain table.scopes index path) :
    path.Pairwise (· > ·) ∧ ∀ other ∈ path, other ≤ index := by
  induction chain with
  | outermost => simp
  | within present around _ ih =>
    obtain ⟨decreasing, bounded⟩ := ih
    have older := rooted.parent_lt present around
    have below : ∀ other ∈ _, other < _ := fun other member =>
      Nat.lt_of_le_of_lt (bounded other member) older
    refine ⟨List.pairwise_cons.2 ⟨below, decreasing⟩, List.forall_mem_cons.2 ⟨Nat.le_refl _, ?_⟩⟩
    exact fun other member => Nat.le_of_lt (below other member)

/-- A chain is no longer than the number of scopes that are as old as its first. -/
theorem Chain.length_le (rooted : table.Rooted) (chain : Chain table.scopes index path) :
    path.length ≤ index + 1 := by
  induction chain with
  | outermost => exact Nat.succ_le_succ (Nat.zero_le _)
  | within present around _ ih =>
    have older := rooted.parent_lt present around
    rw [List.length_cons]
    omega

/-- A chain ends at the root. -/
theorem Chain.getLast?_eq (rooted : table.Rooted) (chain : Chain table.scopes index path) :
    path.getLast? = some 0 := by
  induction chain with
  | @outermost index scope present outermost =>
    rcases Nat.eq_zero_or_pos index with rfl | later
    · rfl
    · obtain ⟨parent, around, -⟩ := rooted.within later present
      rw [outermost] at around
      cases around
  | within _ _ _ ih => rw [List.getLast?_cons, ih, Option.getD_some]

/-- What the scope with an index binds a name to. -/
def binding? (table : ScopeTable φ) (index : Nat) (name : Name) : Option (Symbol φ) :=
  (table.scopes[index]?).bind (·.lookup? name)

/-- The first scope of a chain that binds a name, and what it binds it to. -/
def nearest? (table : ScopeTable φ) (name : Name) (path : List Nat) : Option (Nat × Symbol φ) :=
  path.findSome? fun index => (table.binding? index name).map (index, ·)

/-- With a step for every scope of the chain a name is located in the first that binds it, and more
steps change nothing. -/
theorem Chain.locateFrom?_eq (chain : Chain table.scopes index path) (name : Name) {steps : Nat}
    (enough : path.length ≤ steps) :
    locateFrom? table.scopes name steps index = table.nearest? name path := by
  induction chain generalizing steps with
  | @outermost index scope present outermost =>
    obtain ⟨steps, rfl⟩ := Nat.exists_eq_add_of_le' enough
    cases bound : scope.lookup? name <;>
      simp [locateFrom?, nearest?, binding?, present, bound, outermost]
  | @within index parent scope path present around _ ih =>
    obtain ⟨steps, rfl⟩ := Nat.exists_eq_add_of_le' (Nat.lt_of_lt_of_le (Nat.succ_pos _) enough)
    have further := ih (Nat.le_of_succ_le_succ enough)
    cases bound : scope.lookup? name with
    | some symbol => simp [locateFrom?, nearest?, binding?, present, bound]
    | none =>
      rw [nearest?] at further
      simp [locateFrom?, nearest?, binding?, present, bound, around, further]

end Chain

end ScopeTable

namespace ScopeStore

open ScopeTable

variable {store store' : ScopeStore}

/-- Steps lead from one store to another: writes, the opening of scopes within any open scope, and
the closing of the newest, behind which any scope that is still open can become the current one. -/
inductive Leads (first : ScopeStore) : ScopeStore → Prop
  | refl : Leads first first
  | write {store : ScopeStore} (write : Write) : Leads first store →
      Leads first (write.behind store)
  | enter {store : ScopeStore} : Leads first store → Leads first store.enter
  | enterUnder {store : ScopeStore} {parent : Nat} : Leads first store →
      parent < store.shelves.length → Leads first (store.enterUnder parent)
  | exit {store : ScopeStore} {previous : Nat} : Leads first store →
      previous < (store.exit previous).shelves.length → Leads first (store.exit previous)

/-- What holds in every store that is used: its records are filed under their own names, and its table
is rooted. -/
structure Sound (store : ScopeStore) : Prop where
  filed : store.Filed
  rooted : store.table.Rooted

/-- A new store is sound. -/
theorem sound_new : new.Sound where
  filed shelf member := by
    obtain rfl := List.mem_singleton.1 member
    exact fun _ _ present => absurd present List.not_mem_nil
  rooted := ScopeTable.rooted_new

/-- A write keeps a store sound, whether it is made or refused. -/
theorem Sound.behind (sound : store.Sound) (write : Write) : (write.behind store).Sound := by
  rcases sound.filed.behind write with refused | ⟨filed, applied⟩
  · rwa [refused]
  · exact ⟨filed, sound.rooted.apply applied⟩

/-- Opening a scope within an open one keeps a store sound. -/
theorem Sound.enterUnder (sound : store.Sound) {parent : Nat} (live : parent < store.shelves.length) :
    (store.enterUnder parent).Sound where
  filed shelf member := by
    rcases List.mem_append.1 member with older | newest
    · exact sound.filed shelf older
    · obtain rfl := List.mem_singleton.1 newest
      exact fun _ _ present => absurd present List.not_mem_nil
  rooted := by
    rw [table_enterUnder]
    exact sound.rooted.enterUnder (store.depth_table.symm ▸ live)

/-- Closing the newest scope keeps a store sound, if the scope that becomes the current one is
open. -/
theorem Sound.exit (sound : store.Sound) {previous : Nat}
    (live : previous < (store.exit previous).shelves.length) : (store.exit previous).Sound where
  filed shelf member := by
    refine sound.filed shelf ?_
    unfold ScopeStore.exit at member
    split at member
    · exact List.dropLast_subset _ member
    · exact member
  rooted := by
    rw [← depth_table, table_exit] at live
    rw [table_exit]
    exact sound.rooted.exit live

/-- Every step keeps a store sound, and so do steps in every order. -/
theorem Leads.sound (leads : Leads store store') (sound : store.Sound) : store'.Sound := by
  induction leads with
  | refl => exact sound
  | write write _ ih => exact ih.behind write
  | enter _ ih => exact ih.enterUnder (depth_table _ ▸ ih.rooted.current_lt)
  | enterUnder _ live ih => exact ih.enterUnder live
  | exit _ live ih => exact ih.exit live

/-- The root stays in every sound store, whatever the steps are. -/
theorem Leads.keepsRoot (leads : Leads store store') (sound : store.Sound) :
    store.table.KeepsRoot store'.table := by
  induction leads with
  | refl => exact .refl _
  | @write store' write leads ih =>
    rcases (leads.sound sound).filed.behind write with refused | ⟨-, applied⟩
    · rwa [refused]
    · exact ih.trans (.apply applied)
  | @enter store' leads ih =>
    have live := (leads.sound sound).rooted.current_lt
    exact ih.trans (table_enter store' ▸ .enterUnder live)
  | @enterUnder store' parent _ live ih =>
    rw [table_enterUnder]
    exact ih.trans (.enterUnder (store'.depth_table.symm ▸ live))
  | @exit store' previous _ live ih =>
    rw [← depth_table, table_exit] at live
    rw [table_exit]
    exact ih.trans (.exit live)

/-- Whatever the steps are that led to a store, its root was never closed and lies within no scope, the
current scope is open, every other scope lies within an older one, and every record is filed under its
own name. So a chain of open scopes, no longer than there are scopes, leads from the current one to
the root, and a name is located in the first scope of the chain that binds it. -/
theorem Leads.rooted_and_chained (leads : Leads .new store) :
    store.Filed ∧ store.table.Rooted ∧
      (∀ store', Leads store store' → store.table.KeepsRoot store'.table) ∧
      ∃ path, Chain store.table.scopes store.current path ∧
        path.length ≤ store.table.depth ∧ (∀ index ∈ path, index < store.table.depth) ∧
        path.Pairwise (· > ·) ∧ path.getLast? = some 0 ∧
        ∀ name, store.table.locate? name = store.table.nearest? name path ∧
          ∀ steps, store.table.depth ≤ steps →
            locateFrom? store.table.scopes name steps store.current = store.table.locate? name := by
  have sound := leads.sound sound_new
  obtain ⟨path, chain⟩ := sound.rooted.exists_chain sound.rooted.current_lt
  have short : path.length ≤ store.table.depth :=
    Nat.le_trans (chain.length_le sound.rooted) sound.rooted.current_lt
  refine ⟨sound.filed, sound.rooted, fun store' further => further.keepsRoot sound, path, chain, short,
    chain.lt_depth, (chain.decreasing sound.rooted).1, chain.getLast?_eq sound.rooted, ?_⟩
  intro name
  have located : store.table.locate? name = store.table.nearest? name path :=
    chain.locateFrom?_eq name short
  exact ⟨located, fun steps enough =>
    (chain.locateFrom?_eq name (Nat.le_trans short enough)).trans located.symm⟩

/-- A store whose current scope is neither the newest nor the root. -/
theorem rooted_and_chained_behind_exit :
    let store : ScopeStore :=
      ((((Write.declare "a" 1).behind .new).enter.enter).enterUnder 0).exit 1
    store.table.depth = 3 ∧ store.current = 1 ∧ store.table.Rooted ∧
      ∃ path, Chain store.table.scopes 1 path ∧
        store.table.nearest? "a" path = some (0, .variable 1) := by
  intro store
  have leads : Leads .new store :=
    .exit (.enterUnder (.enter (.enter (.write _ .refl))) (by decide)) (by decide)
  obtain ⟨-, rooted, -, path, chain, -, -, -, -, located⟩ := leads.rooted_and_chained
  exact ⟨by decide, rfl, rooted, path, chain, (located "a").1.symm.trans (by decide)⟩

end ScopeStore

end ScriptLang

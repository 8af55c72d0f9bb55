import ScriptLang.Proofs.Scope.Shape
import ScriptLang.Proofs.Tree.Places

/-!
# Charts of open scopes

A table of scopes tells what the names are bound to but not which declaration bound them. A ledger
keeps that beside the table: for every open scope the names that it binds, each with the site of its
declaration. Both together are a chart, and in a chart a name leads to a site.

One chart follows another (`Chart.Follows`) if, from one scope of each outwards, the second has every
site of the first, and besides these only sites that are allowed as late. Then a name leads in the
second chart to the same site as in the first or to a late one.
-/

namespace ScriptLang

namespace ScopeTable

/-- What the scope with an index binds a name to. -/
def symbol? (table : ScopeTable Nat) (index : Nat) (name : Name) : Option (Symbol Nat) :=
  (table.scopes[index]?).bind (·.lookup? name)

/-- The scope around the scope with an index. -/
def parent? (table : ScopeTable Nat) (index : Nat) : Option Nat :=
  (table.scopes[index]?).bind Scope.parent

/-- The second table is the first with names that its current scope did not bind before. -/
structure Adds (names : List Name) (table table' : ScopeTable Nat) : Prop where
  current : table'.current = table.current
  depth : table'.depth = table.depth
  parent (index : Nat) : table'.parent? index = table.parent? index
  fresh : ∀ name ∈ names, table.symbol? table.current name = none
  bound (index : Nat) (name : Name) : (table'.symbol? index name).isSome ↔
    index = table.current ∧ name ∈ names ∨ (table.symbol? index name).isSome

variable {table table' table'' : ScopeTable Nat} {names names' : List Name} {index outer : Nat}
  {name : Name}

/-- In a nested table only an older scope lies around another one. -/
theorem Nested.parent?_lt (nested : table.Nested) (around : table.parent? index = some outer) :
    outer < index := by
  obtain ⟨scope, present, within⟩ := Option.bind_eq_some_iff.1 around
  exact nested.parent_lt present within

/-- A table with more names is nested if the table without them is. -/
theorem Nested.of_adds (nested : table.Nested) (adds : Adds names table table') : table'.Nested where
  current_newest := by
    rw [adds.current, adds.depth]
    exact nested.current_newest
  parent_lt {index outer scope} present within := by
    have around : table'.parent? index = some outer := by simp [parent?, present, within]
    rw [adds.parent] at around
    exact nested.parent?_lt around

/-- A name that a scope binds means what it is bound to there. -/
theorem resolves_of_symbol? {symbol : Symbol Nat} (bound : table.symbol? index name = some symbol) :
    Resolves table.scopes name index (index, symbol) := by
  obtain ⟨scope, present, found⟩ := Option.bind_eq_some_iff.1 bound
  exact .here present found

/-- A name that a scope does not bind means what it means in the scope around it. -/
theorem resolves_of_parent? {found : Nat × Symbol Nat} (unbound : table.symbol? index name = none)
    (around : table.parent? index = some outer) (further : Resolves table.scopes name outer found) :
    Resolves table.scopes name index found := by
  obtain ⟨scope, present, within⟩ := Option.bind_eq_some_iff.1 around
  have unbound' : scope.lookup? name = none := by simpa [symbol?, present] using unbound
  exact .outward present unbound' within further

/-- In tables of one shape a scope binds the same names. -/
theorem isSome_symbol?_of_shape_eq (same : table'.shape = table.shape) (index : Nat) (name : Name) :
    (table'.symbol? index name).isSome = (table.symbol? index name).isSome := by
  have outlined (table : ScopeTable Nat) : (table.symbol? index name).map Symbol.outline =
      ((table.scopes[index]?).map Scope.shape).bind fun scope => scope.symbols name := by
    unfold symbol?
    cases table.scopes[index]? <;> rfl
  rw [← Option.isSome_map (f := Symbol.outline), outlined, shape_getElem?_of_shape_eq same,
    ← outlined, Option.isSome_map]

/-- In tables of one shape a scope lies within the same scope. -/
theorem parent?_of_shape_eq (same : table'.shape = table.shape) (index : Nat) :
    table'.parent? index = table.parent? index := by
  have outlined (table : ScopeTable Nat) :
      table.parent? index = ((table.scopes[index]?).map Scope.shape).bind Scope.Shape.parent := by
    unfold parent?
    cases table.scopes[index]? <;> rfl
  rw [outlined, shape_getElem?_of_shape_eq same, ← outlined]

/-- A table of the same shape adds no names. -/
theorem Adds.of_shape_eq (same : table'.shape = table.shape) : Adds [] table table' where
  current := current_eq_of_shape_eq same
  depth := depth_eq_of_shape_eq same
  parent := parent?_of_shape_eq same
  fresh := by simp
  bound index name := by simp [isSome_symbol?_of_shape_eq same]

/-- Names that are added one after the other are all added. -/
theorem Adds.trans (first : Adds names table table') (second : Adds names' table' table'') :
    Adds (names ++ names') table table'' where
  current := second.current.trans first.current
  depth := second.depth.trans first.depth
  parent index := (second.parent index).trans (first.parent index)
  fresh name member := by
    rcases List.mem_append.1 member with old | new
    · exact first.fresh name old
    · have unbound := second.fresh name new
      rw [first.current] at unbound
      refine Option.not_isSome_iff_eq_none.1 fun bound => ?_
      have bound' := (first.bound table.current name).2 (.inr bound)
      simp [unbound] at bound'
  bound index name := by
    rw [second.bound, first.bound, first.current, List.mem_append, and_or_left, ← or_assoc,
      or_comm (a := index = table.current ∧ name ∈ names')]

/-- A name that is inserted was not bound before and is the only one that is new. -/
theorem adds_of_insert {symbol : Symbol Nat} (live : table.current < table.depth)
    (inserted : table.insert name symbol = .ok table') : Adds [name] table table' := by
  have grows := grows_of_insert inserted
  obtain ⟨unbound, rfl⟩ := insert_eq_ok_iff.1 inserted
  have present : table.scopes[table.current]? = some table.scopes[table.current] :=
    List.getElem?_eq_getElem live
  have fresh : ∀ other ∈ [name], table.symbol? table.current other = none := by
    simpa [here?, symbol?] using unbound
  refine ⟨grows.current, grows.depth, fun index => ?_, fresh, fun index other => ?_⟩
  · by_cases here : index = table.current
    · subst here
      simp [parent?, present]
    · simp [parent?, Ne.symm here]
  · by_cases here : index = table.current
    · subst here
      by_cases same : other = name <;> simp [symbol?, present, Scope.lookup?_insert, same]
    · simp [symbol?, here, Ne.symm here]

/-- Opening a scope keeps what the scopes bind that are open. -/
theorem symbol?_enterUnder (table : ScopeTable Nat) (outer index : Nat) (name : Name) :
    (table.enterUnder outer).symbol? index name = table.symbol? index name := by
  unfold symbol?
  rcases Nat.lt_trichotomy index table.depth with older | rfl | beyond
  · rw [getElem?_scopes_enterUnder older]
  · have beyond : table.scopes[table.depth]? = none := List.getElem?_eq_none (Nat.le_refl _)
    rw [getElem?_scopes_enterUnder_newest, beyond]
    rfl
  · have length : (table.enterUnder outer).scopes.length ≤ index := by
      have opened := table.depth_enterUnder outer
      simp only [depth] at opened beyond ⊢
      omega
    rw [List.getElem?_eq_none length, List.getElem?_eq_none (Nat.le_of_lt beyond)]

/-- Opening a scope moves no older one. -/
theorem parent?_enterUnder (older : index < table.depth) :
    (table.enterUnder outer).parent? index = table.parent? index := by
  rw [parent?, getElem?_scopes_enterUnder older, parent?]

/-- The scope that was opened lies within the one that was named. -/
theorem parent?_enterUnder_newest : (table.enterUnder outer).parent? table.depth = some outer := by
  rw [parent?, getElem?_scopes_enterUnder_newest]
  rfl

end ScopeTable

/-- For every open scope the names that it binds, with the sites of their declarations. -/
abbrev Ledger := List (List (Name × Site))

namespace Ledger

/-- Where the name was declared that the scope with an index binds. -/
def site? (ledger : Ledger) (index : Nat) (name : Name) : Option Site :=
  (ledger[index]?).bind (·.lookup name)

/-- A scope is opened. -/
def enter (ledger : Ledger) : Ledger :=
  ledger ++ [[]]

/-- Names are declared in the newest scope. -/
def record (ledger : Ledger) (names : List Name) (site : Site) : Ledger :=
  ledger.modify (ledger.length - 1) (names.map (·, site) ++ ·)

/-- Opening a scope adds one to the ledger. -/
@[simp] theorem length_enter (ledger : Ledger) : ledger.enter.length = ledger.length + 1 := by
  simp [enter]

/-- Recording names adds no scope to the ledger. -/
@[simp] theorem length_record (ledger : Ledger) (names : List Name) (site : Site) :
    (ledger.record names site).length = ledger.length := by
  simp [record]

/-- Opening a scope records no site. -/
theorem site?_enter (ledger : Ledger) (index : Nat) (name : Name) :
    ledger.enter.site? index name = ledger.site? index name := by
  unfold site? enter
  rcases Nat.lt_trichotomy index ledger.length with older | rfl | beyond
  · rw [List.getElem?_append_left older]
  · simp
  · rw [List.getElem?_eq_none (by simp; omega), List.getElem?_eq_none (Nat.le_of_lt beyond)]

/-- A name that is recorded with others has their site, and every other name has its older one. -/
private theorem lookup_map_append (names : List Name) (site : Site) (older : List (Name × Site))
    (name : Name) : (names.map (·, site) ++ older).lookup name =
      if name ∈ names then some site else older.lookup name := by
  induction names with
  | nil => simp
  | cons first rest ih =>
    by_cases same : name = first
    · simp [same]
    · simpa [List.lookup_cons, beq_eq_false_iff_ne.2 same, same] using ih

/-- The names that are declared lead to their site, and the others to where they did. -/
theorem site?_record (ledger : Ledger) (names : List Name) (site : Site) (index : Nat) (name : Name) :
    (ledger.record names site).site? index name =
      if index + 1 = ledger.length ∧ name ∈ names then some site else ledger.site? index name := by
  unfold site? record
  by_cases newest : index + 1 = ledger.length
  · have live : index < ledger.length := by omega
    obtain rfl : index = ledger.length - 1 := by omega
    simp [List.getElem?_eq_getElem live, lookup_map_append, newest]
  · rw [List.getElem?_modify]
    by_cases same : ledger.length - 1 = index
    · have none : ledger[index]? = none := List.getElem?_eq_none (by omega)
      simp [none, newest]
    · simp [newest, same]

end Ledger

/-- A table of scopes and the ledger beside it. -/
structure Chart where
  table : ScopeTable Nat
  ledger : Ledger

namespace Chart

/-- Where the name was declared that means something in the current scope. -/
def site? (chart : Chart) (name : Name) : Option Site :=
  (chart.table.locate? name).bind fun found => chart.ledger.site? found.1 name

/-- The chart with nothing but the root scope. -/
def new : Chart := ⟨ScopeTable.new, [[]]⟩

/-- A scope is opened within the scope with an index. -/
def enterUnder (chart : Chart) (outer : Nat) : Chart :=
  ⟨chart.table.enterUnder outer, chart.ledger.enter⟩

/-- A scope is opened within the current one. -/
def enter (chart : Chart) : Chart :=
  chart.enterUnder chart.table.current

/-- The scopes are nested, and the ledger has a site for exactly the names that they bind. -/
structure Sound (chart : Chart) : Prop where
  nested : chart.table.Nested
  length : chart.ledger.length = chart.table.depth
  recorded (index : Nat) (name : Name) :
    (chart.ledger.site? index name).isSome = (chart.table.symbol? index name).isSome

/-- Up to an index the scopes lie within the same scopes and have the same sites in both charts. -/
structure AgreeBelow (bound : Nat) (chart chart' : Chart) : Prop where
  parent {index : Nat} : index < bound → chart'.table.parent? index = chart.table.parent? index
  site {index : Nat} : index < bound → ∀ name,
    chart'.ledger.site? index name = chart.ledger.site? index name

variable {chart chart' : Chart} {table' : ScopeTable Nat} {names : List Name} {site : Site}
  {bound outer : Nat}

/-- In the new chart the root has neither names nor sites. -/
theorem sound_new : new.Sound where
  nested := ScopeTable.nested_new
  length := rfl
  recorded index name := by
    cases index <;> rfl

/-- The current scope is the newest of the ledger. -/
theorem Sound.newest (sound : chart.Sound) : chart.table.current + 1 = chart.ledger.length := by
  rw [sound.length, sound.nested.current_newest]

/-- The ledger has no site for a scope that is not open. -/
theorem Sound.site?_depth (sound : chart.Sound) (name : Name) :
    chart.ledger.site? chart.table.depth name = none := by
  rw [Ledger.site?, List.getElem?_eq_none (Nat.le_of_eq sound.length), Option.bind_none]

/-- Declaring names at a site keeps table and ledger together. -/
theorem Sound.record (sound : chart.Sound) (adds : ScopeTable.Adds names chart.table table')
    (site : Site) : (Chart.mk table' (chart.ledger.record names site)).Sound where
  nested := sound.nested.of_adds adds
  length := by rw [Ledger.length_record, sound.length, adds.depth]
  recorded index name := by
    rw [Bool.eq_iff_iff, adds.bound, Ledger.site?_record]
    simp only [← sound.newest, Nat.add_right_cancel_iff]
    split
    · rename_i new
      simp [new]
    · rename_i old
      simp [old, sound.recorded]

/-- A name that has a site already is not among those that are declared. -/
theorem Sound.site?_record_of_known (sound : chart.Sound)
    (adds : ScopeTable.Adds names chart.table table') {index : Nat} {name : Name} {known : Site}
    (found : chart.ledger.site? index name = some known) (site : Site) :
    (chart.ledger.record names site).site? index name = some known := by
  rw [Ledger.site?_record, if_neg, found]
  rintro ⟨newest, new⟩
  have bound := sound.recorded index name
  rw [← sound.newest, Nat.add_right_cancel_iff] at newest
  rw [found, newest, adds.fresh name new] at bound
  cases bound

/-- Table and ledger still fit together if the table keeps its shape. -/
theorem Sound.of_shape_eq (sound : chart.Sound) (same : table'.shape = chart.table.shape) :
    (Chart.mk table' chart.ledger).Sound where
  nested := sound.nested.of_adds (.of_shape_eq same)
  length := by rw [sound.length, ScopeTable.depth_eq_of_shape_eq same]
  recorded index name := by
    rw [sound.recorded, ScopeTable.isSome_symbol?_of_shape_eq same]

/-- Table and ledger fit together behind the opening of a scope within an open one. -/
theorem Sound.enterUnder (sound : chart.Sound) (live : outer < chart.table.depth) :
    (chart.enterUnder outer).Sound where
  nested := sound.nested.enterUnder live
  length := by simp [Chart.enterUnder, sound.length]
  recorded index name := by
    rw [Chart.enterUnder, Ledger.site?_enter, ScopeTable.symbol?_enterUnder, sound.recorded]

/-- Table and ledger fit together behind the opening of a scope within the current one. -/
theorem Sound.enter (sound : chart.Sound) : chart.enter.Sound :=
  sound.enterUnder sound.nested.current_lt

/-- Charts with tables of one shape and the same ledger agree up to every index. -/
theorem AgreeBelow.of_shape_eq (same : table'.shape = chart.table.shape) (bound : Nat) :
    AgreeBelow bound chart ⟨table', chart.ledger⟩ where
  parent _ := ScopeTable.parent?_of_shape_eq same _
  site _ _ := rfl

/-- Charts that agree up to an index agree up to every lower one. -/
theorem AgreeBelow.mono {bound' : Nat} (agree : AgreeBelow bound chart chart') (less : bound' ≤ bound) :
    AgreeBelow bound' chart chart' where
  parent below := agree.parent (Nat.lt_of_lt_of_le below less)
  site below := agree.site (Nat.lt_of_lt_of_le below less)

/-- Every chart agrees with itself. -/
theorem AgreeBelow.refl (bound : Nat) (chart : Chart) : AgreeBelow bound chart chart :=
  ⟨fun _ => rfl, fun _ _ => rfl⟩

/-- Charts agree in either order. -/
theorem AgreeBelow.symm (agree : AgreeBelow bound chart chart') : AgreeBelow bound chart' chart where
  parent below := (agree.parent below).symm
  site below name := (agree.site below name).symm

/-- Charts that agree with one chart in between agree. -/
theorem AgreeBelow.trans {chart'' : Chart} (first : AgreeBelow bound chart chart')
    (second : AgreeBelow bound chart' chart'') : AgreeBelow bound chart chart'' where
  parent below := (second.parent below).trans (first.parent below)
  site below name := (second.site below name).trans (first.site below name)

/-- A chart agrees with what it was before the newest scope was opened. -/
theorem agreeBelow_enterUnder (chart : Chart) (outer : Nat) :
    AgreeBelow chart.table.depth chart (chart.enterUnder outer) where
  parent below := ScopeTable.parent?_enterUnder below
  site _ name := chart.ledger.site?_enter _ name

/-- Declaring names changes nothing in the scopes in front of the current one. -/
theorem agreeBelow_record (sound : chart.Sound) (adds : ScopeTable.Adds names chart.table table')
    (site : Site) :
    AgreeBelow chart.table.current chart ⟨table', chart.ledger.record names site⟩ where
  parent _ := adds.parent _
  site {index} below name := by
    have older : index + 1 ≠ chart.ledger.length := by
      have newest := sound.newest
      omega
    rw [Ledger.site?_record, if_neg fun new => older new.1]

/-- From the scope with an index outwards a name leads to a site, that of the nearest scope which has
one for it. -/
inductive Leads (chart : Chart) (name : Name) : Nat → Site → Prop where
  | here {index : Nat} {site : Site} : chart.ledger.site? index name = some site →
      Leads chart name index site
  | outward {index outer : Nat} {site : Site} : chart.ledger.site? index name = none →
      chart.table.parent? index = some outer → Leads chart name outer site →
        Leads chart name index site

section Leads

variable {name : Name} {index : Nat} {found : Nat × Symbol Nat}

/-- A name leads to the site of what it means. -/
theorem Sound.leads_of_resolves (sound : chart.Sound)
    (resolves : Resolves chart.table.scopes name index found) :
    ∃ site, chart.ledger.site? found.1 name = some site ∧ Leads chart name index site := by
  induction resolves with
  | @here index scope symbol present bound =>
    have known := sound.recorded index name
    simp only [ScopeTable.symbol?, present, Option.bind_some, bound, Option.isSome_some] at known
    obtain ⟨site, known⟩ := Option.isSome_iff_exists.1 known
    exact ⟨site, known, .here known⟩
  | @outward index outer scope found present unbound within _ ih =>
    have unknown : chart.ledger.site? index name = none := by
      have known := sound.recorded index name
      simpa [ScopeTable.symbol?, present, unbound] using known
    obtain ⟨site, known, leads⟩ := ih
    exact ⟨site, known, .outward unknown (by simp [ScopeTable.parent?, present, within]) leads⟩

/-- A name that leads to a site means something that has the site. -/
theorem Sound.resolves_of_leads (sound : chart.Sound) (leads : Leads chart name index site) :
    ∃ found, Resolves chart.table.scopes name index found ∧
      chart.ledger.site? found.1 name = some site := by
  induction leads with
  | @here index site known =>
    have bound := sound.recorded index name
    rw [known, Option.isSome_some] at bound
    obtain ⟨symbol, bound⟩ := Option.isSome_iff_exists.1 bound.symm
    exact ⟨(index, symbol), ScopeTable.resolves_of_symbol? bound, known⟩
  | @outward index outer site unknown around _ ih =>
    obtain ⟨found, resolves, known⟩ := ih
    have unbound : chart.table.symbol? index name = none := by
      have bound := sound.recorded index name
      simpa [unknown] using bound.symm
    exact ⟨found, ScopeTable.resolves_of_parent? unbound around resolves, known⟩

/-- A name has a site exactly if it leads there from the current scope. -/
theorem Sound.site?_eq_some_iff (sound : chart.Sound) :
    chart.site? name = some site ↔ Leads chart name chart.table.current site := by
  rw [Chart.site?, Option.bind_eq_some_iff]
  constructor
  · rintro ⟨found, located, known⟩
    have resolves := (ScopeTable.locate?_eq_some_iff sound.nested).1 located
    obtain ⟨site', known', leads⟩ := sound.leads_of_resolves resolves
    obtain rfl := Option.some.inj (known.symm.trans known')
    exact leads
  · intro leads
    obtain ⟨found, resolves, known⟩ := sound.resolves_of_leads leads
    exact ⟨found, (ScopeTable.locate?_eq_some_iff sound.nested).2 resolves, known⟩

/-- A name that is located leads to a site. -/
theorem Sound.exists_leads (sound : chart.Sound) (located : (chart.table.locate? name).isSome) :
    ∃ site, Leads chart name chart.table.current site := by
  obtain ⟨found, located⟩ := Option.isSome_iff_exists.1 located
  obtain ⟨site, -, leads⟩ :=
    sound.leads_of_resolves ((ScopeTable.locate?_eq_some_iff sound.nested).1 located)
  exact ⟨site, leads⟩

/-- Where a name leads depends on the scopes outwards only. -/
theorem Leads.congr (nested : chart.table.Nested) (leads : Leads chart name index site)
    (agree : AgreeBelow (index + 1) chart chart') : Leads chart' name index site := by
  induction leads with
  | here known => exact .here ((agree.site (Nat.lt_succ_self _) name).trans known)
  | outward unknown around _ ih =>
    have older := nested.parent?_lt around
    exact .outward ((agree.site (Nat.lt_succ_self _) name).trans unknown)
      ((agree.parent (Nat.lt_succ_self _)).trans around) (ih (agree.mono (by omega)))

/-- A name leads where it led after others were declared. -/
theorem Leads.of_record (sound : chart.Sound) (adds : ScopeTable.Adds names chart.table table')
    (old : name ∉ names) {recorded : Site}
    (leads : Leads ⟨table', chart.ledger.record names recorded⟩ name chart.table.current site) :
    Leads chart name chart.table.current site := by
  have nested := sound.nested.of_adds adds
  have same : (chart.ledger.record names recorded).site? chart.table.current name =
      chart.ledger.site? chart.table.current name := by
    rw [Ledger.site?_record, if_neg fun new => old new.2]
  have agree := agreeBelow_record sound adds recorded
  cases leads with
  | here known => exact .here (same.symm.trans known)
  | @outward _ outer _ unknown around further =>
    have older := nested.parent?_lt around
    rw [adds.parent] at around
    exact .outward (same.symm.trans unknown) around (further.congr nested (agree.mono older).symm)

end Leads

/-- A scope of the second chart has every site of a scope of the first. Besides these it has only
sites that are late: of the name, and of the site to which the name leads in the first chart. -/
structure Copies (late : Name → Site → Site → Prop) (chart chart' : Chart) (index index' : Nat) :
    Prop where
  kept {name : Name} {site : Site} : chart.ledger.site? index name = some site →
    chart'.ledger.site? index' name = some site
  added {name : Name} {later : Site} : chart'.ledger.site? index' name = some later →
    chart.ledger.site? index name = some later ∨
      ∀ site, Leads chart name index site → late name site later

/-- From one scope of each chart outwards the scopes of the second copy those of the first, up to the
outermost of the first. -/
inductive Follows (late : Name → Site → Site → Prop) (chart chart' : Chart) : Nat → Nat → Prop where
  | outermost {index index' : Nat} : Copies late chart chart' index index' →
      chart.table.parent? index = none → Follows late chart chart' index index'
  | within {index index' outer outer' : Nat} : Copies late chart chart' index index' →
      chart.table.parent? index = some outer → chart'.table.parent? index' = some outer' →
        Follows late chart chart' outer outer' → Follows late chart chart' index index'

section Follows

variable {late late' : Name → Site → Site → Prop} {index index' : Nat} {chart₂ chart₂' : Chart}

/-- What copies a scope but for some late sites copies it but for more of them. -/
theorem Copies.mono (copies : Copies late chart chart' index index')
    (more : ∀ name site later, late name site later → late' name site later) :
    Copies late' chart chart' index index' where
  kept := copies.kept
  added found := (copies.added found).imp_right fun isLate site leads => more _ _ _ (isLate site leads)

/-- Where scopes follow others, the first of them copies the first. -/
theorem Follows.copies (follows : Follows late chart chart' index index') :
    Copies late chart chart' index index' := by
  cases follows with
  | outermost copies | within copies => exact copies

/-- What follows but for some late sites follows but for more of them. -/
theorem Follows.mono (follows : Follows late chart chart' index index')
    (more : ∀ name site later, late name site later → late' name site later) :
    Follows late' chart chart' index index' := by
  induction follows with
  | outermost copies ends => exact .outermost (copies.mono more) ends
  | within copies around around' _ ih => exact .within (copies.mono more) around around' ih

/-- A scope copies another in every two charts that agree with the charts up to these scopes. -/
theorem Copies.congr (nested : chart₂.table.Nested) (copies : Copies late chart chart' index index')
    (agree : AgreeBelow (index + 1) chart₂ chart) (agree' : AgreeBelow (index' + 1) chart' chart₂') :
    Copies late chart₂ chart₂' index index' where
  kept found := by
    rw [← agree.site (Nat.lt_succ_self _)] at found
    rw [agree'.site (Nat.lt_succ_self _)]
    exact copies.kept found
  added found := by
    rw [agree'.site (Nat.lt_succ_self _)] at found
    rw [← agree.site (Nat.lt_succ_self _)]
    exact (copies.added found).imp_right fun isLate site leads =>
      isLate site (leads.congr nested agree)

/-- Whether a chart follows another depends on the scopes outwards only. -/
theorem Follows.congr (nested : chart₂.table.Nested) (nested' : chart'.table.Nested)
    (follows : Follows late chart chart' index index')
    (agree : AgreeBelow (index + 1) chart₂ chart) (agree' : AgreeBelow (index' + 1) chart' chart₂') :
    Follows late chart₂ chart₂' index index' := by
  induction follows with
  | outermost copies ends =>
    exact .outermost (copies.congr nested agree agree')
      ((agree.parent (Nat.lt_succ_self _)).symm.trans ends)
  | within copies around around' _ ih =>
    have around₂ := (agree.parent (Nat.lt_succ_self _)).symm.trans around
    have older := nested.parent?_lt around₂
    have older' := nested'.parent?_lt around'
    exact .within (copies.congr nested agree agree') around₂
      ((agree'.parent (Nat.lt_succ_self _)).trans around')
      (ih (agree.mono (by omega)) (agree'.mono (by omega)))

/-- What lies around a scope stays as it is if only the scope itself and newer ones change. -/
theorem Follows.step (nested : chart₂.table.Nested) (nested' : chart'.table.Nested)
    (follows : Follows late chart chart' index index')
    (agree : AgreeBelow index chart₂ chart) (agree' : AgreeBelow index' chart' chart₂')
    (copies : Copies late chart₂ chart₂' index index')
    (parent : chart₂.table.parent? index = chart.table.parent? index)
    (parent' : chart₂'.table.parent? index' = chart'.table.parent? index') :
    Follows late chart₂ chart₂' index index' := by
  cases follows with
  | outermost _ ends => exact .outermost copies (parent.trans ends)
  | within _ around around' further =>
    have around₂ := parent.trans around
    have older := nested.parent?_lt around₂
    have older' := nested'.parent?_lt around'
    exact .within copies around₂ (parent'.trans around')
      (further.congr nested nested' (agree.mono older) (agree'.mono older'))

variable (sound : chart.Sound) (sound' : chart'.Sound)

include sound sound'

/-- Values of variables make no difference. -/
theorem Follows.of_shape_eq {table₂ table₂' : ScopeTable Nat}
    (follows : Follows late chart chart' chart.table.current chart'.table.current)
    (same : table₂.shape = chart.table.shape) (same' : table₂'.shape = chart'.table.shape) :
    Follows late ⟨table₂, chart.ledger⟩ ⟨table₂', chart'.ledger⟩ table₂.current table₂'.current := by
  rw [ScopeTable.current_eq_of_shape_eq same, ScopeTable.current_eq_of_shape_eq same']
  exact follows.congr (sound.of_shape_eq same).nested sound'.nested (AgreeBelow.of_shape_eq same _).symm
    (.of_shape_eq same' _)

/-- A scope is opened in both charts. -/
theorem Follows.enterUnder (follows : Follows late chart chart' index index')
    (live : index < chart.table.depth) (live' : index' < chart'.table.depth) :
    Follows late (chart.enterUnder index) (chart'.enterUnder index') chart.table.depth
      chart'.table.depth := by
  have further := follows.congr (sound.enterUnder live).nested sound'.nested
    ((agreeBelow_enterUnder chart index).mono live).symm
    ((agreeBelow_enterUnder chart' index').mono live')
  refine .within ⟨fun found => ?_, fun found => ?_⟩ ScopeTable.parent?_enterUnder_newest
    ScopeTable.parent?_enterUnder_newest further
  · rw [Chart.enterUnder, Ledger.site?_enter, sound.site?_depth] at found
    cases found
  · rw [Chart.enterUnder, Ledger.site?_enter, sound'.site?_depth] at found
    cases found

/-- The same names are declared at the same site in both charts. -/
theorem Follows.record {table₂ table₂' : ScopeTable Nat}
    (follows : Follows late chart chart' chart.table.current chart'.table.current)
    (adds : ScopeTable.Adds names chart.table table₂)
    (adds' : ScopeTable.Adds names chart'.table table₂') (site : Site) :
    Follows late ⟨table₂, chart.ledger.record names site⟩ ⟨table₂', chart'.ledger.record names site⟩
      table₂.current table₂'.current := by
  rw [adds.current, adds'.current]
  refine follows.step (sound.nested.of_adds adds) sound'.nested (agreeBelow_record sound adds site).symm
    (agreeBelow_record sound' adds' site) ⟨fun {name known} found => ?_, fun {name known} found => ?_⟩
    (adds.parent _) (adds'.parent _)
  · simp only [Ledger.site?_record, sound.newest, sound'.newest, true_and] at found ⊢
    split
    · rwa [if_pos ‹_›] at found
    · rw [if_neg ‹_›] at found
      exact follows.copies.kept found
  · simp only [Ledger.site?_record, sound.newest, sound'.newest, true_and] at found ⊢
    split
    · rw [if_pos ‹_›] at found
      exact .inl found
    · rename_i old
      rw [if_neg old] at found
      exact (follows.copies.added found).imp_right fun isLate origin leads =>
        isLate origin (leads.of_record sound adds old)

/-- Names are declared in the second chart only, at a site that is late for them. -/
theorem Follows.record_late {table₂' : ScopeTable Nat} (follows : Follows late chart chart' index index')
    (adds : ScopeTable.Adds names chart'.table table₂') (newest : index' = chart'.table.current)
    {site : Site} (isLate : ∀ name ∈ names, chart.ledger.site? index name = none →
      ∀ origin, Leads chart name index origin → late name origin site) :
    Follows late chart ⟨table₂', chart'.ledger.record names site⟩ index index' := by
  subst newest
  refine follows.step sound.nested sound'.nested (.refl _ _)
    (agreeBelow_record sound' adds site) ⟨fun {name known} found => ?_, fun {name known} found => ?_⟩
    rfl (adds.parent _)
  · exact sound'.site?_record_of_known adds (follows.copies.kept found) site
  · rw [Ledger.site?_record] at found
    by_cases new : chart'.table.current + 1 = chart'.ledger.length ∧ name ∈ names
    · rw [if_pos new] at found
      obtain rfl := Option.some.inj found
      have unknown : chart.ledger.site? index name = none := by
        refine Option.not_isSome_iff_eq_none.1 fun bound => ?_
        obtain ⟨origin, known⟩ := Option.isSome_iff_exists.1 bound
        have bound' := sound'.recorded chart'.table.current name
        rw [follows.copies.kept known, adds.fresh name new.2] at bound'
        cases bound'
      exact .inr (isLate name new.2 unknown)
    · rw [if_neg new] at found
      exact follows.copies.added found

omit sound sound' in
/-- From scopes of which one follows the other a name leads to the same site, or to a late one. -/
theorem Follows.leads {name : Name} {site : Site} (follows : Follows late chart chart' index index')
    (leads : Leads chart name index site) :
    ∃ site', Leads chart' name index' site' ∧ (site' = site ∨ late name site site') := by
  induction leads generalizing index' with
  | here known => exact ⟨_, .here (follows.copies.kept known), .inl rfl⟩
  | @outward index outer site unknown around further ih =>
    cases known' : chart'.ledger.site? index' name with
    | some later =>
      rcases follows.copies.added known' with old | isLate
      · rw [unknown] at old
        cases old
      · exact ⟨later, .here known', .inr (isLate site (.outward unknown around further))⟩
    | none =>
      cases follows with
      | outermost _ ends =>
        rw [ends] at around
        cases around
      | within copies around₂ around' follows =>
        obtain rfl := Option.some.inj (around₂.symm.trans around)
        obtain ⟨site', leads', same⟩ := ih follows
        exact ⟨site', .outward known' around' leads', same⟩

/-- If one chart follows the other from the current scopes, then a name that means something in the
first leads in the second to the same site, or to a late one. -/
theorem Follows.site? {name : Name}
    (follows : Follows late chart chart' chart.table.current chart'.table.current)
    (located : (chart.table.locate? name).isSome) : ∃ site site', chart.site? name = some site ∧
      chart'.site? name = some site' ∧ (site' = site ∨ late name site site') := by
  obtain ⟨site, leads⟩ := sound.exists_leads located
  obtain ⟨site', leads', same⟩ := follows.leads leads
  exact ⟨site, site', sound.site?_eq_some_iff.2 leads, sound'.site?_eq_some_iff.2 leads', same⟩

end Follows

end Chart

end ScriptLang

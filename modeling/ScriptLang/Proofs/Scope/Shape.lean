import ScriptLang.Proofs.Scope.Resolution

/-!
# The shape of a table of scopes

The shape of a table is all of it but the values of variables: which scopes are open and what lies
around each, the names that each binds, and what is remembered of its functions. Assignments keep
the shape; a declaration makes the table grow in the current scope; and a table that has grown in a
scope just opened gets its old shape back when that scope is closed.
-/

namespace ScriptLang

variable {φ : Type}

/-- The symbol without the value of a variable. -/
def Symbol.outline : Symbol φ → Symbol φ
  | .variable _ => .variable 0
  | .func entry => .func entry

namespace Scope

/-- A scope without the values of its variables. -/
structure Shape (φ : Type) where
  parent : Option Nat
  names : List Name
  symbols : Name → Option (Symbol φ)

/-- The names that a scope binds, the newest first. -/
def names (scope : Scope φ) : List Name :=
  scope.bindings.map Prod.fst

/-- The scope around a scope, its names, and what it binds each to, without values. -/
def shape (scope : Scope φ) : Shape φ :=
  ⟨scope.parent, scope.names, fun name => (scope.lookup? name).map Symbol.outline⟩

/-- A scope binds exactly its names. -/
theorem isSome_lookup?_iff {scope : Scope φ} {name : Name} :
    (scope.lookup? name).isSome ↔ name ∈ scope.names := by
  unfold lookup? names
  induction scope.bindings with
  | nil => simp
  | cons binding rest ih =>
    obtain ⟨bound, symbol⟩ := binding
    by_cases same : name = bound
    · simp [same]
    · simp [List.lookup_cons, beq_eq_false_iff_ne.2 same, same, ih]

/-- A scope that binds no name twice binds each name to the symbol that stands beside it. -/
theorem lookup?_of_mem {scope : Scope φ} (unique : scope.names.Nodup) {name : Name}
    {symbol : Symbol φ} (member : (name, symbol) ∈ scope.bindings) :
    scope.lookup? name = some symbol := by
  obtain ⟨parent, bindings⟩ := scope
  simp only [names, lookup?] at unique member ⊢
  induction bindings with
  | nil => simp at member
  | cons binding rest ih =>
    obtain ⟨bound, other⟩ := binding
    obtain ⟨new, unique⟩ := List.nodup_cons.1 unique
    rcases List.mem_cons.1 member with same | older
    · obtain ⟨rfl, rfl⟩ := Prod.mk.inj same
      simp
    · have apart : name ≠ bound := by
        rintro rfl
        exact new (List.mem_map.2 ⟨_, older, rfl⟩)
      simpa [List.lookup_cons, beq_eq_false_iff_ne.2 apart] using ih unique older

/-- Binding a new name puts it in front of the names of the scope. -/
@[simp] theorem names_insert (scope : Scope φ) (name : Name) (symbol : Symbol φ) :
    (scope.insert name symbol).names = name :: scope.names := rfl

/-- Binding a name anew does not change the names of the scope. -/
@[simp] theorem names_replace (scope : Scope φ) (name : Name) (symbol : Symbol φ) :
    (scope.replace name symbol).names = scope.names := by
  simp [replace, names, Function.comp_def]

/-- A variable that gets another value keeps the shape of its scope. -/
theorem shape_replace {scope : Scope φ} {name : Name} {old : Word}
    (bound : scope.lookup? name = some (.variable old)) (word : Word) :
    (scope.replace name (.variable word)).shape = scope.shape := by
  have symbols : (scope.replace name (.variable word)).shape.symbols = scope.shape.symbols := by
    funext other
    simp only [shape, lookup?_replace]
    by_cases same : other = name
    · subst same
      simp [bound, Symbol.outline]
    · simp [same]
  simpa [shape] using symbols

end Scope

namespace ScopeTable

/-- The shapes of the open scopes, and the current scope. -/
def shape (table : ScopeTable φ) : List (Scope.Shape φ) × Nat :=
  (table.scopes.map Scope.shape, table.current)

/-- Tables of one shape have one number of open scopes. -/
theorem depth_eq_of_shape_eq {table table' : ScopeTable φ} (same : table'.shape = table.shape) :
    table'.depth = table.depth := by
  simpa [shape, depth] using congrArg (fun shape => shape.1.length) same

/-- Tables of one shape have one current scope. -/
theorem current_eq_of_shape_eq {table table' : ScopeTable φ} (same : table'.shape = table.shape) :
    table'.current = table.current :=
  congrArg Prod.snd same

/-- In tables of one shape a scope has one shape. -/
theorem shape_getElem?_of_shape_eq {table table' : ScopeTable φ}
    (same : table'.shape = table.shape) (index : Nat) :
    (table'.scopes[index]?).map Scope.shape = (table.scopes[index]?).map Scope.shape := by
  simpa [shape] using congrArg (fun shape => shape.1[index]?) same

/-- A table grows into another: the current scope binds more names, and all else is the same but
for the values of variables. -/
structure Grows (table table' : ScopeTable φ) : Prop where
  current : table'.current = table.current
  depth : table'.depth = table.depth
  others {index : Nat} : index ≠ table.current →
    (table'.scopes[index]?).map Scope.shape = (table.scopes[index]?).map Scope.shape
  keeps {index : Nat} {scope : Scope φ} : table.scopes[index]? = some scope →
    ∃ scope', table'.scopes[index]? = some scope' ∧ scope'.parent = scope.parent ∧
      ∀ name symbol, scope.shape.symbols name = some symbol →
        scope'.shape.symbols name = some symbol

/-- A table grows into each table of its shape. -/
theorem Grows.of_shape_eq {table table' : ScopeTable φ} (same : table'.shape = table.shape) :
    table.Grows table' where
  current := current_eq_of_shape_eq same
  depth := depth_eq_of_shape_eq same
  others _ := shape_getElem?_of_shape_eq same _
  keeps {index scope} present := by
    have shapes := shape_getElem?_of_shape_eq same index
    rw [present] at shapes
    obtain ⟨scope', present', shape⟩ := Option.map_eq_some_iff.1 shapes
    exact ⟨scope', present', congrArg Scope.Shape.parent shape, fun _ _ bound => shape ▸ bound⟩

/-- Every table grows into itself. -/
theorem Grows.refl (table : ScopeTable φ) : table.Grows table :=
  .of_shape_eq rfl

/-- A table that grows into one which grows grows into the last. -/
theorem Grows.trans {table table' table'' : ScopeTable φ} (first : table.Grows table')
    (second : table'.Grows table'') : table.Grows table'' where
  current := second.current.trans first.current
  depth := second.depth.trans first.depth
  others other := (second.others (first.current ▸ other)).trans (first.others other)
  keeps present := by
    obtain ⟨_, present', parent, symbols⟩ := first.keeps present
    obtain ⟨scope'', present'', parent', symbols'⟩ := second.keeps present'
    exact ⟨scope'', present'', parent'.trans parent,
      fun name symbol bound => symbols' name symbol (symbols name symbol bound)⟩

/-- A table that grows stays nested. -/
theorem Nested.of_grows {table table' : ScopeTable φ} (nested : table.Nested)
    (grows : table.Grows table') : table'.Nested where
  current_newest := by
    rw [grows.current, grows.depth]
    exact nested.current_newest
  parent_lt {index parent scope'} present within := by
    have live : index < table.scopes.length := by
      have bound := (List.getElem?_eq_some_iff.1 present).1
      have depth := grows.depth
      simp only [ScopeTable.depth] at depth
      omega
    obtain ⟨found, present', same, _⟩ := grows.keeps (List.getElem?_eq_getElem live)
    obtain rfl := Option.some.inj (present.symm.trans present')
    exact nested.parent_lt (List.getElem?_eq_getElem live) (same.symm.trans within)

/-- A name that is seen from a scope is still seen from it when the table has grown. -/
theorem Grows.sees {table table' : ScopeTable φ} (grows : table.Grows table') {name : Name}
    {index : Nat} (sees : Sees table.scopes name index) : Sees table'.scopes name index := by
  obtain ⟨found, resolves⟩ := sees
  induction resolves with
  | @here index scope symbol present bound =>
    obtain ⟨scope', present', -, symbols⟩ := grows.keeps present
    have bound' := symbols name symbol.outline (by simp [Scope.shape, bound])
    obtain ⟨symbol', found, -⟩ := Option.map_eq_some_iff.1 bound'
    exact ⟨_, .here present' found⟩
  | @outward index parent scope found present unbound within further ih =>
    obtain ⟨scope', present', same, -⟩ := grows.keeps present
    obtain ⟨found', resolves'⟩ := ih
    cases bound : scope'.lookup? name with
    | some symbol => exact ⟨_, .here present' bound⟩
    | none => exact ⟨found', .outward present' bound (same.trans within) resolves'⟩

section Opening

variable {table : ScopeTable φ} {parent : Nat}

/-- Opening a scope keeps the scopes that are open. -/
theorem getElem?_scopes_enterUnder {index : Nat} (older : index < table.depth) :
    (table.enterUnder parent).scopes[index]? = table.scopes[index]? := by
  simp only [enterUnder]
  exact List.getElem?_append_left older

/-- The scope that was just opened binds nothing. -/
theorem getElem?_scopes_enterUnder_newest :
    (table.enterUnder parent).scopes[table.depth]? = some (Scope.empty (some parent)) := by
  simp [enterUnder, depth]

/-- An open scope was open before, or it is the one just opened. -/
theorem eq_or_newest_of_enterUnder {index : Nat} {scope : Scope φ}
    (present : (table.enterUnder parent).scopes[index]? = some scope) :
    table.scopes[index]? = some scope ∨ index = table.depth ∧ scope = Scope.empty (some parent) := by
  rcases Nat.lt_trichotomy index table.depth with older | newest | beyond
  · exact .inl (by rwa [getElem?_scopes_enterUnder older] at present)
  · subst newest
    rw [getElem?_scopes_enterUnder_newest] at present
    exact .inr ⟨rfl, (Option.some.inj present).symm⟩
  · have live := (List.getElem?_eq_some_iff.1 present).1
    have depth := table.depth_enterUnder parent
    simp only [ScopeTable.depth] at depth beyond
    omega

/-- A scope that is opened within an open scope keeps the table nested. -/
theorem Nested.enterUnder (nested : table.Nested) (live : parent < table.depth) :
    (table.enterUnder parent).Nested where
  current_newest := by simp
  parent_lt {index outer scope} present within := by
    rcases eq_or_newest_of_enterUnder present with older | ⟨rfl, rfl⟩
    · exact nested.parent_lt older within
    · obtain rfl : parent = outer := by simpa [Scope.empty] using within
      exact live

/-- Names are seen from the scopes that are open as before another was opened. -/
theorem sees_enterUnder {name : Name} {index : Nat} (sees : Sees table.scopes name index) :
    Sees (table.enterUnder parent).scopes name index := by
  obtain ⟨found, resolves⟩ := sees
  have kept {index : Nat} {scope : Scope φ} (present : table.scopes[index]? = some scope) :
      (table.enterUnder parent).scopes[index]? = some scope := by
    rw [getElem?_scopes_enterUnder (List.getElem?_eq_some_iff.1 present).1, present]
  induction resolves with
  | here present bound => exact ⟨_, .here (kept present) bound⟩
  | outward present unbound within _ ih =>
    obtain ⟨found', resolves'⟩ := ih
    exact ⟨found', .outward (kept present) unbound within resolves'⟩

/-- From the scope that was just opened the names are seen that are seen from the one around it. -/
theorem sees_enterUnder_newest {name : Name} (sees : Sees table.scopes name parent) :
    Sees (table.enterUnder parent).scopes name table.depth := by
  obtain ⟨found, resolves⟩ := sees_enterUnder sees
  exact ⟨found, .outward getElem?_scopes_enterUnder_newest rfl rfl resolves⟩

/-- From the scope that was just opened no more is seen than from the one around it. -/
theorem sees_of_enterUnder_newest (nested : table.Nested) (live : parent < table.depth) {name : Name}
    (sees : Sees (table.enterUnder parent).scopes name table.depth) :
    Sees table.scopes name parent := by
  have older {index : Nat} {found : Nat × Symbol φ}
      (resolves : Resolves (table.enterUnder parent).scopes name index found)
      (live : index < table.depth) : Resolves table.scopes name index found := by
    induction resolves with
    | here present bound =>
      rw [getElem?_scopes_enterUnder live] at present
      exact .here present bound
    | outward present unbound within _ ih =>
      rw [getElem?_scopes_enterUnder live] at present
      exact .outward present unbound within
        (ih (Nat.lt_trans (nested.parent_lt present within) live))
  obtain ⟨found, resolves⟩ := sees
  cases resolves with
  | here present bound =>
    rw [getElem?_scopes_enterUnder_newest] at present
    obtain rfl := Option.some.inj present
    simp at bound
  | outward present _ within further =>
    rw [getElem?_scopes_enterUnder_newest] at present
    obtain rfl := Option.some.inj present
    obtain rfl : parent = _ := by simpa [Scope.empty] using within
    exact ⟨found, older further live⟩

/-- Closing the scope that was just opened gives the table its shape back, whatever was bound in
the scope. -/
theorem shape_exit_of_grows {grown : ScopeTable φ} (rooted : 0 < table.depth)
    (grows : (table.enterUnder parent).Grows grown) (previous : Nat) :
    (grown.exit previous).shape = (table.scopes.map Scope.shape, previous) := by
  have depth : grown.depth = table.depth + 1 := by
    rw [grows.depth, depth_enterUnder]
  have closed : (grown.exit previous).scopes = grown.scopes.dropLast := by
    simp only [exit]
    rw [if_pos (by omega)]
  have scopes : (grown.exit previous).scopes.map Scope.shape = table.scopes.map Scope.shape := by
    apply List.ext_getElem?
    intro index
    rw [closed, List.getElem?_map, List.getElem?_map, List.getElem?_dropLast]
    have length : grown.scopes.length - 1 = table.scopes.length := by
      simp only [ScopeTable.depth] at depth
      omega
    rw [length]
    split
    · rename_i older
      rw [grows.others (by rw [current_enterUnder]; exact Nat.ne_of_lt older),
        getElem?_scopes_enterUnder older]
    · rename_i beyond
      rw [List.getElem?_eq_none (Nat.le_of_not_lt beyond)]
  exact Prod.ext scopes rfl

end Opening

section Writing

variable {table table' : ScopeTable φ} {name : Name}

/-- What the current scope binds a name to. -/
def here? (table : ScopeTable φ) (name : Name) : Option (Symbol φ) :=
  (table.scopes[table.current]?).bind (·.lookup? name)

/-- A name is refused as declared already exactly if the current scope binds it. -/
theorem insert_eq_error_iff {symbol : Symbol φ} {error : NameError} :
    table.insert name symbol = .error error ↔
      (table.here? name).isSome ∧ error = .redeclaration name := by
  unfold insert here?
  cases (table.scopes[table.current]?).bind (·.lookup? name) with
  | none => simp
  | some bound => simp [eq_comm]

/-- A new name is bound in the current scope, and nothing else changes. -/
theorem insert_eq_ok_iff {symbol : Symbol φ} :
    table.insert name symbol = .ok table' ↔
      table.here? name = none ∧
        table' = { table with
          scopes := table.scopes.modify table.current (·.insert name symbol) } := by
  unfold insert here?
  cases (table.scopes[table.current]?).bind (·.lookup? name) with
  | none => simp [eq_comm]
  | some bound => simp

/-- What the current scope binds after a name was declared. -/
theorem here?_of_insert {symbol : Symbol φ} (live : table.current < table.depth)
    (inserted : table.insert name symbol = .ok table') (other : Name) :
    table'.here? other = if other = name then some symbol else table.here? other := by
  obtain ⟨-, rfl⟩ := insert_eq_ok_iff.1 inserted
  have present : table.scopes[table.current]? = some table.scopes[table.current] :=
    List.getElem?_eq_getElem live
  simp [here?, present, Scope.lookup?_insert]

/-- A declaration makes the table grow. -/
theorem grows_of_insert {symbol : Symbol φ} (inserted : table.insert name symbol = .ok table') :
    table.Grows table' := by
  obtain ⟨unbound, rfl⟩ := insert_eq_ok_iff.1 inserted
  refine ⟨rfl, by simp [depth], fun other => ?_, fun {index scope} present => ?_⟩
  · simp [Ne.symm other]
  · by_cases here : table.current = index
    · subst here
      refine ⟨scope.insert name symbol, by simp [present], rfl, fun other bound known => ?_⟩
      have apart : other ≠ name := by
        rintro rfl
        simp [here?, present, Scope.shape] at unbound known
        simp [unbound] at known
      simpa [Scope.shape, Scope.lookup?_insert, apart] using known
    · exact ⟨scope, by simp [here, present], rfl, fun _ _ known => known⟩

/-- In tables of one shape the current scope binds the same names. -/
theorem isSome_here?_of_shape_eq (same : table'.shape = table.shape) (name : Name) :
    (table'.here? name).isSome = (table.here? name).isSome := by
  have outlined (table : ScopeTable φ) : (table.here? name).map Symbol.outline =
      (table.shape.1[table.shape.2]?).bind fun scope => scope.symbols name := by
    simp only [here?, shape, List.getElem?_map]
    cases table.scopes[table.current]? <;> rfl
  rw [← Option.isSome_map (f := Symbol.outline), outlined, same, ← outlined, Option.isSome_map]

/-- A name that was just declared is seen from the current scope. -/
theorem sees_insert {symbol : Symbol φ} (live : table.current < table.depth)
    (inserted : table.insert name symbol = .ok table') :
    Sees table'.scopes name table'.current := by
  obtain ⟨-, rfl⟩ := insert_eq_ok_iff.1 inserted
  have present : table.scopes[table.current]? = some table.scopes[table.current] :=
    List.getElem?_eq_getElem live
  have present' : (table.scopes.modify table.current (·.insert name symbol))[table.current]? =
      some (table.scopes[table.current].insert name symbol) := by
    simp [present]
  exact ⟨_, .here present' (by rw [Scope.lookup?_insert, if_pos rfl])⟩

/-- Besides the name that was declared no name is seen that was not seen before. -/
theorem sees_of_insert {symbol : Symbol φ} (inserted : table.insert name symbol = .ok table')
    {other : Name} (apart : other ≠ name) {index : Nat} (sees : Sees table'.scopes other index) :
    Sees table.scopes other index := by
  obtain ⟨-, rfl⟩ := insert_eq_ok_iff.1 inserted
  have older {index : Nat} {scope : Scope φ}
      (present : (table.scopes.modify table.current (·.insert name symbol))[index]? = some scope) :
      ∃ old, table.scopes[index]? = some old ∧ old.parent = scope.parent ∧
        old.lookup? other = scope.lookup? other := by
    rw [List.getElem?_modify] at present
    obtain ⟨old, present', rfl⟩ := Option.map_eq_some_iff.1 present
    refine ⟨old, present', ?_⟩
    split
    · simp [Scope.lookup?_insert, apart]
    · exact ⟨rfl, rfl⟩
  obtain ⟨found, resolves⟩ := sees
  induction resolves with
  | here present bound =>
    obtain ⟨old, present', -, same⟩ := older present
    exact ⟨_, .here present' (same.trans bound)⟩
  | outward present unbound within _ ih =>
    obtain ⟨old, present', parent, same⟩ := older present
    obtain ⟨found', resolves'⟩ := ih
    exact ⟨found', .outward present' (same.trans unbound) (parent.trans within) resolves'⟩

/-- An assignment keeps the shape of the table. -/
theorem shape_of_set {value : Word} (assigned : table.set name value = .ok table') :
    table'.shape = table.shape := by
  unfold set at assigned
  split at assigned
  · rename_i found located
    obtain ⟨index, symbol⟩ := found
    obtain ⟨scope, present, bound⟩ := (resolves_of_locateFrom? located).bound
    obtain old | entry := symbol
    · obtain rfl := Except.ok.inj assigned
      refine Prod.ext (List.ext_getElem? fun other => ?_) rfl
      simp only [shape, List.getElem?_map, List.getElem?_modify]
      by_cases here : index = other
      · subst here
        simp [present, Scope.shape_replace bound]
      · simp [here]
    · simp [write] at assigned
  · simp at assigned

/-- A name that cannot be assigned to is not seen, or it means a function. -/
theorem set_eq_error (nested : table.Nested) {value : Word} {error : NameError}
    (refused : table.set name value = .error error) :
    error = .kindMismatch name .variable .func ∨
      (error = .undefinedReference name ∧ ¬ Sees table.scopes name table.current) := by
  unfold set at refused
  split at refused
  · rename_i found located
    obtain ⟨index, symbol⟩ := found
    obtain old | entry := symbol
    · simp [write] at refused
    · exact .inl (Except.error.inj refused).symm
  · rename_i unknown
    refine .inr ⟨(Except.error.inj refused).symm, fun sees => ?_⟩
    have located := (sees_current_iff nested).1 sees
    simp [unknown] at located

/-- A name that cannot be read is not seen, or it means a function. -/
theorem value_eq_error (nested : table.Nested) {error : NameError}
    (refused : table.value name = .error error) :
    error = .kindMismatch name .variable .func ∨
      (error = .undefinedReference name ∧ ¬ Sees table.scopes name table.current) := by
  unfold value at refused
  split at refused
  · simp at refused
  · exact .inl (Except.error.inj refused).symm
  · rename_i unknown
    refine .inr ⟨(Except.error.inj refused).symm, fun sees => ?_⟩
    have located := (sees_current_iff nested).1 sees
    simp [get?] at unknown
    simp [unknown] at located

end Writing

end ScopeTable

end ScriptLang

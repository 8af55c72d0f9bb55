import ScriptLang.Proofs.Run.Fit

/-!
# Programs that were printed keep to their scopes

A run breaks the rules of scopes if it uses a name that means nothing or declares one twice. From a
state that fits the table against which a statement was checked it never does: each statement leads
to a state that fits the table behind it, and what a call, a block or an arm adds is gone when its
scope is closed.
-/

namespace ScriptLang

/-- A name meant nothing, or was declared twice in one scope. -/
def Fault.breaksScoping : Fault → Bool
  | .name (.undefinedReference _) | .name (.redeclaration _) => true
  | _ => false

/-- Operators break no rule of scopes. -/
theorem Fault.breaksScoping_of_isArithmetic {fault : Fault}
    (arithmetic : fault.isArithmetic = true) : fault.breaksScoping = false := by
  cases fault <;> first | rfl | cases arithmetic

namespace Run

variable {α β : Type}

/-- The outcome is a result and a state as required, or a fault that breaks no rule of scopes. -/
def Ends (behind : α → RunState → Prop) : EStateM.Result Fault RunState α → Prop
  | .ok value final => behind value final
  | .error fault _ => fault.breaksScoping = false

/-- From states as required in front a computation keeps to its scopes, and its result and state
are as required behind it. -/
def Safe (before : RunState → Prop) (run : Run α) (behind : α → RunState → Prop) : Prop :=
  ∀ ⦃state : RunState⦄, before state → Ends behind (run state)

variable {before : RunState → Prop} {behind behind' : α → RunState → Prop}

/-- Giving a value is safe if what is required behind it holds in front of it. -/
theorem safe_pure {value : α} (met : ∀ state, before state → behind value state) :
    Safe before (pure value) behind :=
  fun state holds => met state holds

/-- Stopping at a fault is safe if the fault does not break scoping. -/
theorem safe_throw {fault : Fault} (harmless : fault.breaksScoping = false) :
    Safe before (throw fault) behind :=
  fun _ _ => harmless

/-- Two steps are safe if the first is and the second is behind every value. -/
theorem safe_bind {first : Run α} {second : α → Run β} {final : β → RunState → Prop}
    (here : Safe before first behind) (there : ∀ value, Safe (behind value) (second value) final) :
    Safe before (first >>= second) final := by
  intro state holds
  have ends := here holds
  simp only [Bind.bind, EStateM.bind]
  cases outcome : first state with
  | ok value middle =>
    rw [outcome] at ends
    exact there value ends
  | error fault middle =>
    rw [outcome] at ends
    exact ends

/-- What is safe is safe for weaker requirements behind it. -/
theorem Safe.weaken {run : Run α} (safe : Safe before run behind)
    (implies : ∀ value state, behind value state → behind' value state) :
    Safe before run behind' := by
  intro state holds
  have ends := safe holds
  cases outcome : run state with
  | ok value final =>
    rw [outcome] at ends
    exact implies value final ends
  | error fault final =>
    rw [outcome] at ends
    exact ends

/-- Taking a result is safe if its faults are arithmetic. -/
theorem safe_ofExcept {result : Except Fault α}
    (arithmetic : ∀ fault, result = .error fault → fault.isArithmetic = true)
    (met : ∀ value state, before state → behind value state) :
    Safe before (ofExcept result) behind := by
  cases result with
  | ok value => exact safe_pure (met value)
  | error fault => exact safe_throw (Fault.breaksScoping_of_isArithmetic (arithmetic fault rfl))

variable {dialect : Dialect} {table table' : ScopeTable Nat} {name : Name}

/-- The table of a state that fits is nested. -/
theorem safe_of_nested {run : Run α}
    (safe : table.Nested → Safe (RunState.Fits dialect table) run behind) :
    Safe (RunState.Fits dialect table) run behind :=
  fun _ fits => safe fits.nested fits

/-- What keeps to its scopes and gives the state its shape back leaves a state that fits. -/
theorem ends_fits_of_shape_eq {run : Run α} {state : RunState} (fits : state.Fits dialect table)
    (ends : Ends (fun _ _ => True) (run state)) (same : (run.after state).shape = state.shape) :
    Ends (fun _ => RunState.Fits dialect table) (run state) := by
  rw [after] at same
  cases outcome : run state with
  | ok value final =>
    rw [outcome, final_ok] at same
    exact fits.of_shape_eq same
  | error fault final =>
    rw [outcome] at ends
    exact ends

section Steps

/-- Reading a name that the table sees. -/
theorem safe_read (sees : Sees table.scopes name table.current) :
    Safe (RunState.Fits dialect table) (read name) fun _ => RunState.Fits dialect table := by
  intro state fits
  unfold read
  cases refused : state.table.value name with
  | ok word => exact fits
  | error error =>
    rcases ScopeTable.value_eq_error fits.sound.nested refused with rfl | ⟨-, unseen⟩
    · rfl
    · exact absurd (fits.covered name sees) unseen

/-- Assigning to a name that the table sees. -/
theorem safe_assign (sees : Sees table.scopes name table.current) (word : Word) :
    Safe (RunState.Fits dialect table) (assign name word) fun _ => RunState.Fits dialect table := by
  intro state fits
  unfold assign updateTable
  dsimp only
  cases assigned : state.table.set name word with
  | ok final =>
    have same : ({ state with table := final } : RunState).shape = state.shape := by
      simp [RunState.shape, ScopeTable.shape_of_set assigned]
    exact fits.of_shape_eq same
  | error error =>
    rcases ScopeTable.set_eq_error fits.sound.nested assigned with rfl | ⟨-, unseen⟩
    · rfl
    · exact absurd (fits.covered name sees) unseen

/-- Declaring a variable that was declared in the table. -/
theorem safe_declare {symbol : Symbol Nat} (declared : table.insert name symbol = .ok table')
    (word : Word) :
    Safe (RunState.Fits dialect table) (declare name word) fun _ => RunState.Fits dialect table' := by
  intro state fits
  obtain ⟨final, inserted⟩ := fits.insert_eq_ok declared (.variable word)
  have sound := fits.sound.insert [] inserted (by simp) (by simp)
  have fits' := fits.insert declared inserted [] sound (by simp)
  rw [List.append_nil] at fits'
  have inserted' : state.table.declare name word = .ok final := inserted
  unfold declare updateTable
  dsimp only
  rw [inserted']
  exact fits'

/-- Defining a function that was declared in the table, and whose body was checked. -/
theorem safe_define {params returns : List Name} {body : List Stmt} {opened closed : ScopeTable Nat}
    {lines : List Line} (declared : table.declareFunction name returns.length = .ok table')
    (introduced : (params ++ returns).forM Emit.declare table'.enter = .ok ((), opened))
    (checked : Emit.all dialect body opened = .ok (lines, closed))
    (undotted : ∀ name ∈ Stmt.namesAll body, name.isDotted = false) :
    Safe (RunState.Fits dialect table) (define name params returns body)
      fun _ => RunState.Fits dialect table' := by
  intro state fits
  obtain ⟨final, inserted⟩ := fits.insert_eq_ok declared (.func state.routines.length)
  have grows := ScopeTable.grows_of_insert inserted
  have sound := fits.sound.insert [⟨params, returns, body, final.current⟩] inserted
    (by simp [grows.current]) (by
      intro entry same
      obtain rfl := Symbol.func.inj same
      exact ⟨_, List.getElem?_concat_length, grows.current⟩)
  have nested := fits.nested.of_grows (ScopeTable.grows_of_insert declared)
  have covered := fits.covered_insert declared inserted
  have fits' := fits.insert declared inserted _ sound (by
    intro routine new
    obtain rfl := List.mem_singleton.1 new
    exact ⟨table', opened, closed, lines, nested, covered, introduced, checked, undotted⟩)
  have inserted' : state.table.declareFunction name state.routines.length = .ok final := inserted
  unfold define
  rw [inserted']
  exact fits'

/-- What keeps to its scopes in a scope opened on both sides does so in a scope of its own. -/
theorem safe_withScope {run : Run α} (stable : Stable .statements run run)
    (same : table'.shape = table.shape)
    (safe : Safe (RunState.Fits dialect table.enter) run fun _ _ => True) :
    Safe (RunState.Fits dialect table) (withScope RunState.recycle run)
      fun _ => RunState.Fits dialect table' := by
  intro state fits
  have ends := safe fits.enter
  have shape := after_withScopeUnder stable fits.sound fits.sound.nested.current_lt
  unfold withScope
  refine ends_fits_of_shape_eq (fits.of_table_shape_eq same) ?_ shape
  rw [withScopeUnder]
  cases outcome : run { state with table := state.table.enterUnder state.table.current } with
  | ok value final => exact trivial
  | error fault final =>
    rw [outcome] at ends
    exact ends

end Steps

/-- Calls keep the shape of the state, and a call of a name that the table sees with as many words
as it was asked for keeps to its scopes. -/
structure CallsSafe (dialect : Dialect) (call : Caller) : Prop where
  stable : CallsRelated Stable call call
  safe {table : ScopeTable Nat} {callee : Name} {arity : Nat} {args : Run (List Word)} :
    Sees table.scopes callee table.current → Stable .expression args args →
      Safe (RunState.Fits dialect table) args
          (fun words state => words.length = arity ∧ RunState.Fits dialect table state) →
        Safe (RunState.Fits dialect table) (call callee arity args)
          fun _ => RunState.Fits dialect table

section Walk

variable {call : Caller}

mutual

/-- An expression whose names the table sees keeps to its scopes. -/
theorem safe_eval (calls : CallsSafe dialect call) : ∀ expr : Expr,
    (∀ name ∈ expr.looked, Sees table.scopes name table.current) →
      Safe (RunState.Fits dialect table) (eval call expr) fun _ => RunState.Fits dialect table
  | .number _ value, _ => safe_pure fun _ fits => fits
  | .string _, _ => safe_throw rfl
  | .variable name, sees => safe_read (sees name (by simp [Expr.looked]))
  | .unary op operand, sees =>
      safe_bind (safe_eval calls operand sees) fun _ =>
        safe_ofExcept (fun _ => UnaryOp.isArithmetic_of_apply) fun _ _ fits => fits
  | .binary op left right, sees => by
      have first := safe_eval calls left fun name looked => sees name (by simp [Expr.looked, looked])
      have second := safe_eval calls right fun name looked => sees name (by simp [Expr.looked, looked])
      exact safe_bind first fun _ => safe_bind second fun _ =>
        safe_ofExcept (fun _ => BinaryOp.isArithmetic_of_apply) fun _ _ fits => fits
  | .cast value type, sees =>
      safe_eval calls value fun name looked => sees name (by simp [Expr.looked, looked])
  | .logic op left right, sees => by
      have second := safe_eval calls right fun name looked => sees name (by simp [Expr.looked, looked])
      by_cases negates : op = .not
      · subst negates
        exact safe_bind second fun _ => safe_pure fun _ fits => fits
      · have first := safe_eval calls left fun name looked =>
          sees name (by simp [Expr.looked, negates, looked])
        rw [eval]
        · refine safe_bind first fun word => ?_
          split
          · exact safe_pure fun _ fits => fits
          · exact safe_bind second fun _ => safe_pure fun _ fits => fits
        · exact negates
  | .logicPrefix op right, sees => by
      by_cases negates : op = .not
      · subst negates
        exact safe_bind (safe_eval calls right sees) fun _ => safe_pure fun _ fits => fits
      · rw [eval]
        · exact safe_throw rfl
        · exact negates
  | .call callee args, sees => by
      have words := safe_evalAll calls args fun name looked => sees name (by simp [Expr.looked, looked])
      have stable := respects_stable.evalAll calls.stable args
      refine safe_bind (calls.safe (sees callee (by simp [Expr.looked])) stable words)
        fun results => ?_
      split
      · exact safe_pure fun _ fits => fits
      · exact safe_throw rfl

/-- Expressions give a word each. -/
theorem safe_evalAll (calls : CallsSafe dialect call) : ∀ exprs : List Expr,
    (∀ name ∈ Expr.lookedAll exprs, Sees table.scopes name table.current) →
      Safe (RunState.Fits dialect table) (evalAll call exprs)
        fun words state => words.length = exprs.length ∧ RunState.Fits dialect table state
  | [], _ => safe_pure fun _ fits => ⟨rfl, fits⟩
  | expr :: rest, sees => by
      have first := safe_eval calls expr fun name looked => sees name (by simp [Expr.lookedAll, looked])
      have others := safe_evalAll calls rest fun name looked =>
        sees name (by simp [Expr.lookedAll, looked])
      refine safe_bind first fun word => safe_bind others fun words => safe_pure fun _ fits => ?_
      exact ⟨congrArg (· + 1) fits.1, fits.2⟩

end

/-- Computing results is safe if the names that are looked for are seen. -/
theorem safe_results (calls : CallsSafe dialect call) {values : List Expr}
    (sees : ∀ name ∈ Expr.lookedAll values, Sees table.scopes name table.current) :
    Safe (RunState.Fits dialect table) (results call values)
      fun _ => RunState.Fits dialect table := by
  unfold results
  split
  · rename_i callee args
    have words := safe_evalAll calls args fun name looked =>
      sees name (by simp [Expr.lookedAll, Expr.looked, looked])
    have stable := respects_stable.evalAll calls.stable args
    exact calls.safe (sees callee (by simp [Expr.lookedAll, Expr.looked])) stable words
  · exact (safe_evalAll calls values sees).weaken fun _ _ fits => fits.2

/-- Computing values for a number of targets is safe if the names that are looked for are seen. -/
theorem safe_valuesFor (calls : CallsSafe dialect call) (targets : Nat) {values : List Expr}
    (sees : ∀ name ∈ Expr.lookedAll values, Sees table.scopes name table.current) :
    Safe (RunState.Fits dialect table) (valuesFor call targets values)
      fun _ => RunState.Fits dialect table := by
  unfold valuesFor
  split
  · rename_i callee args
    have words := safe_evalAll calls args fun name looked =>
      sees name (by simp [Expr.lookedAll, Expr.looked, looked])
    have stable := respects_stable.evalAll calls.stable args
    refine safe_bind (calls.safe (sees callee (by simp [Expr.lookedAll, Expr.looked])) stable words)
      fun words => ?_
    split
    · exact safe_pure fun _ fits => fits
    · split
      · exact safe_pure fun _ fits => fits
      · exact safe_throw rfl
  · exact (safe_evalAll calls values sees).weaken fun _ _ fits => fits.2

end Walk

/-- Going on unless something is refused keeps to the scopes if going on does. -/
theorem safe_guarded {refused : Prop} [Decidable refused] {fault : Fault}
    {rest : PUnit → Run α} (harmless : fault.breaksScoping = false)
    (safe : ¬ refused → Safe before (rest ⟨⟩) behind) :
    Safe before (if refused then MonadExcept.throw fault >>= rest else rest ⟨⟩) behind := by
  split
  · have stops : Safe before (throw fault : Run PUnit) fun _ _ => False := safe_throw harmless
    exact safe_bind stops fun _ _ never => never.elim
  · rename_i goesOn
    exact safe goesOn

/-- A target that was declared in the table, or is seen in it, can be given a word. -/
theorem safe_store {declares : Bool} (op : AssignOp) {target : Name} (word : Word)
    (undotted : declares = false → target.isDotted = false)
    (introduced : Emit.introduce declares target table = .ok ((), table')) :
    Safe (RunState.Fits dialect table) (store declares op target word)
      fun _ => RunState.Fits dialect table' := by
  unfold store
  cases declares with
  | true => exact safe_declare (Emit.change_eq_ok.1 introduced) word
  | false =>
    obtain ⟨found, rfl⟩ := Emit.ask_eq_ok.1 introduced
    refine safe_of_nested fun nested => ?_
    have sees := nested.sees_of_known (Emit.check_eq_ok_iff.1 found) (undotted rfl)
    cases op.arithmetic? with
    | none => exact safe_assign sees word
    | some arithmetic =>
      exact safe_bind (safe_read sees) fun old =>
        safe_bind (safe_ofExcept (fun _ => BinaryOp.isArithmetic_of_apply) fun _ _ fits => fits)
          fun combined => safe_assign sees combined

/-- Targets that were declared in the table, or are seen in it, can be given words. -/
theorem safe_storeAll {declares : Bool} (op : AssignOp) {pairs : List (Name × Word)}
    (undotted : declares = false → ∀ target ∈ pairs.map Prod.fst, target.isDotted = false)
    (introduced : (pairs.map Prod.fst).forM (Emit.introduce declares) table = .ok ((), table')) :
    Safe (RunState.Fits dialect table) (storeAll declares op pairs)
      fun _ => RunState.Fits dialect table' := by
  induction pairs generalizing table with
  | nil =>
    obtain ⟨-, rfl⟩ := Emit.pure_eq_ok.1 introduced
    exact safe_pure fun _ fits => fits
  | cons pair rest ih =>
    obtain ⟨target, word⟩ := pair
    obtain ⟨⟨⟩, middle, here, there⟩ := Emit.bind_eq_ok.1 introduced
    refine safe_bind (safe_store op word (fun reads => undotted reads target (by simp)) here)
      fun _ => ih (fun reads target member => ?_) there
    exact undotted reads target (List.mem_cons_of_mem _ member)

/-- Each target gets a word, in the order of the targets. -/
theorem map_fst_pair {targets : List Name} {words : List Word}
    (counts : words.length = 1 ∨ words.length = targets.length) :
    (pair targets words).map Prod.fst = targets := by
  unfold pair
  split
  · simp [Function.comp_def]
  · rename_i several
    have same : words.length = targets.length := by
      rcases counts with single | same
      · obtain ⟨word, rfl⟩ := List.length_eq_one_iff.1 single
        exact absurd rfl (several word)
      · exact same
    exact List.map_fst_zip (Nat.le_of_eq same.symm)

section Statements

variable {call : Caller} {lines : List Line}

/-- An assignment that was checked keeps to its scopes. -/
theorem safe_execAssign (calls : CallsSafe dialect call) {declares : Bool} {targets : List Name}
    {op : AssignOp} {values : List Expr} (undotted : ∀ target ∈ targets, target.isDotted = false)
    (sees : ∀ name ∈ Expr.lookedAll values, Sees table.scopes name table.current)
    (introduced : targets.forM (Emit.introduce declares) table = .ok ((), table')) :
    Safe (RunState.Fits dialect table) (execAssign call declares targets op values)
      fun _ => RunState.Fits dialect table' := by
  unfold execAssign
  refine safe_guarded rfl fun _ => ?_
  refine safe_bind (safe_valuesFor calls _ sees) fun words => ?_
  refine safe_guarded rfl fun fits => ?_
  have counts : words.length = 1 ∨ words.length = targets.length := by
    omega
  rw [← map_fst_pair counts] at introduced undotted
  exact safe_storeAll op (fun _ => undotted) introduced

/-- Setting an error code is safe. -/
theorem safe_execErrorCode (code : Option String) :
    Safe (RunState.Fits dialect table) (execErrorCode code)
      fun _ => RunState.Fits dialect table := by
  unfold execErrorCode
  split
  · exact safe_pure fun _ fits => fits
  · split
    · rename_i code _
      intro state fits
      have same : ({ state with errorCode := some code } : RunState).shape = state.shape := rfl
      exact fits.of_shape_eq same
    · exact safe_throw rfl

/-- What runs behind statements fits the table behind them, unless they end in a `return`. -/
def Continues (dialect : Dialect) (table : ScopeTable Nat) (flow : Flow) (state : RunState) : Prop :=
  flow = .next → state.Fits dialect table

/-- An arm without braces runs in a scope of its own. -/
theorem withArmScope_of_unbraced {leave : Leaving} {arm : Stmt} {run : Run Flow}
    (unbraced : ∀ body, arm = .block body → False) :
    withArmScope leave arm run = withScope leave run := by
  unfold withArmScope
  split
  · exact (unbraced _ rfl).elim
  · rfl

/-- An arm that was checked in a scope of its own keeps to its scopes. -/
theorem safe_withArmScope (calls : CallsSafe dialect call) {arm : Stmt}
    (safe : ∀ {table table' : ScopeTable Nat} {lines : List Line},
      Emit.inner dialect arm table = .ok (lines, table') →
        Safe (RunState.Fits dialect table) (exec RunState.recycle call arm)
          (Continues dialect table'))
    (printed : Emit.armScope arm (Emit.inner dialect arm) table = .ok (lines, table')) :
    Safe (RunState.Fits dialect table)
      (withArmScope RunState.recycle arm (exec RunState.recycle call arm))
      (Continues dialect table') := by
  unfold Emit.armScope at printed
  split at printed
  · exact safe printed
  · rename_i unbraced
    rw [withArmScope_of_unbraced unbraced]
    refine safe_of_nested fun nested => ?_
    have growing := Emit.growing_inner dialect arm
    have same := Emit.shape_withScope growing nested printed
    obtain ⟨final, inside, -⟩ := Emit.withScope_eq_ok.1 printed
    have stable := respects_stable.exec calls.stable arm
    exact (safe_withScope stable same ((safe inside).weaken fun _ _ _ => trivial)).weaken
      fun _ _ fits _ => fits

mutual

/-- A statement that was checked keeps to its scopes, and the state behind it fits the table behind
it. -/
theorem safe_exec (calls : CallsSafe dialect call) : ∀ (stmt : Stmt)
    {table table' : ScopeTable Nat} {lines : List Line},
    (∀ name ∈ stmt.names, name.isDotted = false) →
      Emit.inner dialect stmt table = .ok (lines, table') →
        Safe (RunState.Fits dialect table) (exec RunState.recycle call stmt)
          (Continues dialect table')
  | .assign declares targets op values, table, table', lines, undotted, printed => by
      obtain ⟨known, introduced⟩ := Emit.inner_assign printed
      refine safe_of_nested fun nested => ?_
      have sees (name : Name) (looked : name ∈ Expr.lookedAll values) :=
        nested.sees_of_known (known name looked)
          (undotted name (List.mem_append_right _ (Expr.lookedAll_subset_namesAll _ looked)))
      have targets' (target : Name) (member : target ∈ targets) :=
        undotted target (List.mem_append_left _ member)
      rw [exec]
      exact safe_bind (safe_execAssign calls targets' sees introduced) fun _ =>
        safe_pure fun _ fits _ => fits
  | .branch test thenArm elseArm, table, table', lines, undotted, printed => by
      obtain ⟨known, first, middle, second, here, there⟩ := Emit.inner_branch printed
      simp only [Stmt.names, List.mem_append] at undotted
      refine safe_of_nested fun nested => ?_
      have sees (name : Name) (looked : name ∈ test.looked) :=
        nested.sees_of_known (known name looked)
          (undotted name (.inl (.inl (test.looked_subset_names looked))))
      have thenSafe := safe_withArmScope calls
        (safe_exec calls thenArm fun name member => undotted name (.inl (.inr member))) here
      have elseSafe := safe_execElse calls elseArm
        (fun name member => undotted name (.inr member)) there
      have same := Emit.shape_armScope nested here
      have same' := Emit.shape_elseLines (nested.of_grows (.of_shape_eq same)) there
      -- Both arms leave a table of the same shape behind when they are printed, so that the state
      -- fits it whichever of them is run.
      rw [exec]
      refine safe_bind (safe_eval calls test sees) fun word => ?_
      split
      · exact thenSafe.weaken fun _ _ fits continues => (fits continues).of_table_shape_eq same'
      · exact fun state fits => elseSafe (fits.of_table_shape_eq same)
  | .func name params returns body, table, table', lines, undotted, printed => by
      obtain ⟨declared, opened, closed, lines', known, introduced, shown, rfl⟩ :=
        Emit.inner_func printed
      have undotted' (name : Name) (member : name ∈ Stmt.namesAll body) :=
        undotted name (List.mem_append_right _ member)
      refine safe_of_nested fun nested => ?_
      have nested' := nested.of_grows (ScopeTable.grows_of_insert known)
      have same := Emit.shape_body nested' introduced shown
      rw [exec]
      exact safe_bind (safe_define known introduced shown undotted') fun _ =>
        safe_pure fun _ fits _ => fits.of_table_shape_eq same
  | .ret values code, table, table', lines, undotted, printed => by
      obtain ⟨known, rfl⟩ := Emit.inner_ret printed
      refine safe_of_nested fun nested => ?_
      have sees (name : Name) (looked : name ∈ Expr.lookedAll values) :=
        nested.sees_of_known (known name looked)
          (undotted name (Expr.lookedAll_subset_namesAll _ looked))
      rw [exec]
      exact safe_bind (safe_results calls sees) fun _ =>
        safe_bind (safe_execErrorCode code) fun _ => safe_pure fun _ fits _ => fits
  | .block body, table, table', lines, undotted, printed => by
      rw [Emit.inner] at printed
      rw [exec]
      refine safe_of_nested fun nested => ?_
      have growing := Emit.growing_all dialect body
      have same := Emit.shape_withScope growing nested printed
      obtain ⟨final, inside, -⟩ := Emit.withScope_eq_ok.1 printed
      have stable := respects_stable.execAll calls.stable body
      have safe := safe_execAll calls body undotted inside
      exact (safe_withScope stable same (safe.weaken fun _ _ _ => trivial)).weaken
        fun _ _ fits _ => fits
  | .expr value, table, table', lines, undotted, printed => by
      obtain ⟨known, rfl⟩ := Emit.inner_expr printed
      refine safe_of_nested fun nested => ?_
      have sees (name : Name) (looked : name ∈ value.looked) :=
        nested.sees_of_known (known name looked)
          (undotted name (value.looked_subset_names looked))
      by_cases isCall : ∃ callee args, value = .call callee args
      · obtain ⟨callee, args, rfl⟩ := isCall
        have words := safe_evalAll calls args fun name looked =>
          sees name (List.mem_cons_of_mem _ looked)
        have stable := respects_stable.evalAll calls.stable args
        rw [exec]
        exact safe_bind (calls.safe (sees callee List.mem_cons_self) stable words) fun _ =>
          safe_pure fun _ fits _ => fits
      · rw [exec]
        · exact safe_bind (safe_eval calls value sees) fun _ => safe_pure fun _ fits _ => fits
        · exact fun callee args same => isCall ⟨callee, args, same⟩
  | .empty, table, table', lines, _, printed => by
      rw [Emit.inner] at printed
      obtain ⟨-, rfl⟩ := Emit.pure_eq_ok.1 printed
      rw [exec]
      exact safe_pure fun _ fits _ => fits

/-- The arm behind `else` is safe if it can be printed. -/
theorem safe_execElse (calls : CallsSafe dialect call) : ∀ (arm : Option Stmt)
    {table table' : ScopeTable Nat} {lines : List Line},
    (∀ name ∈ Stmt.namesElse arm, name.isDotted = false) →
      Emit.elseLines dialect arm table = .ok (lines, table') →
        Safe (RunState.Fits dialect table) (execElse RunState.recycle call arm)
          (Continues dialect table')
  | none, _, _, _, _, printed => by
      rw [Emit.elseLines] at printed
      obtain ⟨-, rfl⟩ := Emit.pure_eq_ok.1 printed
      rw [execElse]
      exact safe_pure fun _ fits _ => fits
  | some arm, _, _, _, undotted, printed => by
      obtain ⟨lines', here⟩ := Emit.elseLines_some printed
      rw [execElse]
      exact safe_withArmScope calls (safe_exec calls arm undotted) here

/-- Statements that were checked keep to their scopes. -/
theorem safe_execAll (calls : CallsSafe dialect call) : ∀ (stmts : List Stmt)
    {table table' : ScopeTable Nat} {lines : List Line},
    (∀ name ∈ Stmt.namesAll stmts, name.isDotted = false) →
      Emit.all dialect stmts table = .ok (lines, table') →
        Safe (RunState.Fits dialect table) (execAll RunState.recycle call stmts)
          (Continues dialect table')
  | [], _, _, _, _, printed => by
      rw [Emit.all] at printed
      obtain ⟨-, rfl⟩ := Emit.pure_eq_ok.1 printed
      rw [execAll]
      exact safe_pure fun _ fits _ => fits
  | stmt :: rest, _, _, _, undotted, printed => by
      obtain ⟨first, middle, others, here, there⟩ := Emit.all_cons printed
      have first := safe_exec calls stmt
        (fun name member => undotted name (List.mem_append_left _ member)) here
      have others := safe_execAll calls rest
        (fun name member => undotted name (List.mem_append_right _ member)) there
      rw [execAll]
      refine safe_bind first fun flow => ?_
      cases flow with
      | next => exact fun state fits => others (fits rfl)
      | returned values => exact safe_pure fun _ _ returned => nomatch returned

end

end Statements

/-- Reading variables is safe if their names are seen. -/
theorem safe_mapM_read {names : List Name}
    (sees : ∀ name ∈ names, Sees table.scopes name table.current) :
    Safe (RunState.Fits dialect table) (names.mapM read) fun _ => RunState.Fits dialect table := by
  induction names with
  | nil => exact safe_pure fun _ fits => fits
  | cons name rest ih =>
    rw [List.mapM_cons]
    exact safe_bind (safe_read (sees name List.mem_cons_self)) fun _ =>
      safe_bind (ih fun other member => sees other (List.mem_cons_of_mem _ member)) fun _ =>
        safe_pure fun _ fits => fits

/-- A body that was checked keeps to its scopes, if there is a word for each parameter. -/
theorem safe_body {call : Caller} (calls : CallsSafe dialect call) {routine : Routine}
    {opened closed : ScopeTable Nat} {lines : List Line}
    (introduced : (routine.params ++ routine.returns).forM Emit.declare table = .ok ((), opened))
    (printed : Emit.all dialect routine.body opened = .ok (lines, closed))
    (undotted : ∀ name ∈ Stmt.namesAll routine.body, name.isDotted = false) {words : List Word}
    (arities : words.length = routine.params.length) :
    Safe (RunState.Fits dialect table) (body RunState.recycle call routine words)
      fun _ _ => True := by
  refine safe_of_nested fun nested => ?_
  have sees := Emit.sees_of_forM_declare nested introduced
  have growing := Emit.growing_forM (fun name => Emit.growing_insert name (.variable 0))
  have nested' : opened.Nested := nested.of_grows (growing _ nested introduced)
  have grows := Emit.growing_all dialect routine.body nested' printed
  have params : (routine.params.zip words).map Prod.fst = routine.params :=
    List.map_fst_zip (Nat.le_of_eq arities.symm)
  have returns : (routine.returns.map fun result => (result, (0 : Word))).map Prod.fst =
      routine.returns := by
    simp [Function.comp_def]
  rw [List.forM_eq_forM, List.forM_append] at introduced
  obtain ⟨⟨⟩, middle, here, there⟩ := Emit.bind_eq_ok.1 introduced
  rw [← params] at here
  rw [← returns] at there
  unfold body
  refine safe_bind (safe_storeAll .set nofun here) fun _ => ?_
  refine safe_bind (safe_storeAll .set nofun there) fun _ => ?_
  refine safe_bind (safe_execAll calls routine.body undotted printed) fun flow => ?_
  cases flow with
  | returned values => exact safe_pure fun _ _ => trivial
  | next =>
    have sees' (name : Name) (member : name ∈ routine.returns) :
        Sees closed.scopes name closed.current := by
      rw [grows.current]
      exact grows.sees (sees name (List.mem_append_right _ member))
    have reads : Safe (RunState.Fits dialect closed) _ fun _ _ => True :=
      (safe_mapM_read sees').weaken fun _ _ _ => trivial
    exact fun state fits => reads (fits rfl)

/-- Entering a vetted routine keeps to the scopes, if the calls in its body do and there is a word
for each parameter. -/
theorem ends_enter {limit frames : Nat}
    (calls : CallsSafe dialect (call limit (enter RunState.recycle limit frames)))
    {routine : Routine} {words : List Word} {state : RunState} (sound : state.Sound)
    (vetted : ∀ routine ∈ state.routines, routine.Vetted dialect state.table.scopes)
    (registered : routine ∈ state.routines) (arities : words.length = routine.params.length) :
    Ends (fun _ _ => True) (enter RunState.recycle limit (frames + 1) routine words state) := by
  obtain ⟨outside, opened, closed, lines, nested, covered, introduced, printed, undotted⟩ :=
    vetted routine registered
  have framed : { state with depth := state.depth + 1 }.Sound :=
    ⟨sound.nested, sound.unique, sound.registered, sound.live⟩
  have fits := RunState.Fits.enterUnder framed vetted nested (sound.live routine registered) covered
  have ends := safe_body calls introduced printed undotted arities fits
  rw [enter, withFrame, withScopeUnder]
  cases outcome : body RunState.recycle (call limit (enter RunState.recycle limit frames)) routine
      words { state with
        table := state.table.enterUnder routine.scope
        depth := state.depth + 1 } with
  | ok value final => exact trivial
  | error fault final =>
    rw [outcome] at ends
    exact ends

/-- Calls keep to the scopes, if entering a vetted routine does. -/
theorem callsSafe_of_enter {limit frames : Nat}
    (entered : ∀ {routine : Routine} {words : List Word} {state : RunState}, state.Sound →
      (∀ routine ∈ state.routines, routine.Vetted dialect state.table.scopes) →
        routine ∈ state.routines → words.length = routine.params.length →
          Ends (fun _ _ => True) (enter RunState.recycle limit frames routine words state)) :
    CallsSafe dialect (call limit (enter RunState.recycle limit frames)) where
  stable := callsRelated_stable limit frames
  safe {table callee arity args} sees stable safe := by
    intro state fits
    have same := stable state fits.sound
    have ends := safe fits
    rw [call_apply]
    cases meant : state.table.get? callee with
    | none =>
      have located := (ScopeTable.sees_current_iff fits.sound.nested).1 (fits.covered callee sees)
      simp [ScopeTable.get?] at meant
      simp [meant] at located
    | some symbol =>
      obtain word | entry := symbol
      · rfl
      · obtain ⟨routine, registered, live⟩ := fits.sound.routine_of_get? meant
        simp only [registered]
        split
        · rfl
        · rename_i arities
          split
          · rfl
          · simp only [Bind.bind, EStateM.bind]
            rw [after] at same
            cases outcome : args state with
            | error fault final =>
              rw [outcome] at ends
              exact ends
            | ok words middle =>
              rw [outcome] at ends same
              rw [final_ok] at same
              obtain ⟨length, fits'⟩ := ends
              have registered' : routine ∈ middle.routines := by
                rw [RunState.routines_of_shape_eq same]
                exact List.mem_of_getElem? registered
              have arities' : words.length = routine.params.length := by omega
              exact ends_fits_of_shape_eq fits'
                (entered fits'.sound fits'.vetted registered' arities')
                (shape_after_enter limit frames routine words fits'.sound
                  (fits'.sound.live routine registered'))

/-- Calls keep to the scopes, however many frames can be opened. -/
theorem callsSafe (dialect : Dialect) (limit frames : Nat) :
    CallsSafe dialect (call limit (enter RunState.recycle limit frames)) := by
  induction frames with
  | zero => exact callsSafe_of_enter fun _ _ _ _ => rfl
  | succ frames ih => exact callsSafe_of_enter (ends_enter ih)

end Run

/-- If a program without dotted names can be printed, in whichever dialect, then a run of it with
any limit of open frames never uses a name that means nothing and never declares one twice: the only
way in which a name stops it is that a variable is used as a function or the other way round. -/
theorem Program.kindMismatch_of_emit {program : Program} {dialect : Dialect} {text : String}
    (undotted : ∀ name ∈ program.names, name.isDotted = false)
    (printed : program.emit dialect = .ok text) {limit : Nat} {error : NameError}
    (failed : program.execute limit = .error (.name error)) :
    ∃ name expected found, error = .kindMismatch name expected found := by
  obtain ⟨lines, table, shown⟩ := Program.all_of_emit printed
  have safe := Run.safe_execAll (Run.callsSafe dialect limit limit) program.body undotted shown
  have ends := safe RunState.Fits.start
  unfold execute executeLeaving walk at failed
  generalize Run.execAll RunState.recycle _ program.body RunState.new = result at ends failed
  cases result with
  | ok flow final => cases failed
  | error fault final =>
    obtain rfl : fault = .name error := Except.error.inj failed
    cases error with
    | kindMismatch name expected found => exact ⟨name, expected, found, rfl⟩
    | undefinedReference name => cases ends
    | redeclaration name => cases ends

/-- A function whose body uses the function itself as a variable, and a call of it. -/
def Program.misusingItself : Program :=
  ⟨[], [.func "f" [] ["r"] [.ret [.variable "f"] none], .expr (.call "f" [])]⟩

/-- A function that is used as a variable is printed, and its run ends in the fault that is left. -/
theorem Program.kindMismatch_of_emit_misusingItself :
    misusingItself.emit .go = .ok "func f() (r int) \x7b\n    return f;\n\x7d\nf();\n" ∧
      misusingItself.execute 1 = .error (.name (.kindMismatch "f" .variable .func)) ∧
        ∃ name expected found,
          NameError.kindMismatch "f" .variable .func = .kindMismatch name expected found := by
  have printed :
      misusingItself.emit .go = .ok "func f() (r int) \x7b\n    return f;\n\x7d\nf();\n" := rfl
  have failed : misusingItself.execute 1 = .error (.name (.kindMismatch "f" .variable .func)) := rfl
  exact ⟨printed, failed, kindMismatch_of_emit (by decide) printed failed⟩

end ScriptLang

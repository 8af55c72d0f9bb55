import ScriptLang.Proofs.Scope.Shape

/-!
# The way outwards

From a scope the way outwards leads through the scopes that lie around it, up to the root. A name is
bound on this way or it means nothing, and in a nested table the way never leaves the open scopes.
-/

namespace ScriptLang

variable {φ : Type}

/-- The way outwards from a scope leads to the scope with the index, which may be the first itself. -/
inductive Outwards (scopes : List (Scope φ)) (start : Nat) : Nat → Prop where
  | here : Outwards scopes start start
  | around {index parent : Nat} {scope : Scope φ} : Outwards scopes start index →
      scopes[index]? = some scope → scope.parent = some parent → Outwards scopes start parent

/-- One step further in front. -/
theorem Outwards.step {scopes : List (Scope φ)} {start parent index : Nat} {scope : Scope φ}
    (present : scopes[start]? = some scope) (within : scope.parent = some parent)
    (leads : Outwards scopes parent index) : Outwards scopes start index := by
  induction leads with
  | here => exact .around .here present within
  | around _ present' within' ih => exact .around ih present' within'

/-- What a name means is bound on the way outwards. -/
theorem Resolves.outwards {scopes : List (Scope φ)} {name : Name} {start : Nat}
    {found : Nat × Symbol φ} (resolves : Resolves scopes name start found) :
    Outwards scopes start found.1 := by
  induction resolves with
  | here => exact .here
  | outward present _ within _ ih => exact .step present within ih

namespace ScopeTable

/-- The way outwards leads to older scopes only. -/
theorem Nested.le_of_outwards {table : ScopeTable φ} (nested : table.Nested) {start index : Nat}
    (leads : Outwards table.scopes start index) : index ≤ start := by
  induction leads with
  | here => exact Nat.le_refl _
  | around _ present within ih => exact Nat.le_trans (Nat.le_of_lt (nested.parent_lt present within)) ih

end ScopeTable

end ScriptLang

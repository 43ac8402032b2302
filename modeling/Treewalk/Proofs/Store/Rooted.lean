import Treewalk.Proofs.Run.WellScoped
import Mathlib.Logic.Relation

/-!
The tree of scopes. A store changes in two ways only: a scope is added inside one that exists, or a name is
bound in a scope that exists, to a value whose scope exists. Neither moves a scope, so every scope lies inside
the one it was made in, which is older, and going outwards ends at the globals. `Path` and `Finds` say what
going outwards and looking for a name come to, with no bound on the number of scopes; both are what the store
computes.
-/

namespace Treewalk

namespace Store

/-- One change of a store. -/
inductive Step (s : Store) : Store → Prop where
  | add {outer : ScopeId} : outer < s.next → Step s (s.add (some outer))
  | define {id : ScopeId} {name : String} {v : Value} : id < s.next → v.LivesIn (· < s.next) →
      Step s (s.define id name v)

/-- Changes of a store one after another. -/
def Steps : Store → Store → Prop := Relation.ReflTransGen Step

/-- The scopes from one outwards, up to one that lies inside none. -/
inductive Path (s : Store) : ScopeId → List ScopeId → Prop where
  | outermost {id} : s.enclosing? id = none → Path s id [id]
  | outwards {id outer rest} : s.enclosing? id = some outer → Path s outer rest → Path s id (id :: rest)

/-- Looking for a name from a scope outwards ends, in a scope that binds it or in none. -/
inductive Finds (s : Store) (name : String) : ScopeId → Option ScopeId → Prop where
  | here {id} : ((s.bindings id).find? name).isSome → Finds s name id (some id)
  | nowhere {id} : (s.bindings id).find? name = none → s.enclosing? id = none → Finds s name id none
  | outwards {id outer result} : (s.bindings id).find? name = none → s.enclosing? id = some outer →
      Finds s name outer result → Finds s name id result

/-- A well-scoped store in which the globals, and no other scope, lie inside none. -/
structure Rooted (s : Store) : Prop extends s.WellScoped where
  globals : World.globals < s.next
  outermost : ∀ id < s.next, s.enclosing? id = none → id = World.globals

variable {s t : Store} {id : ScopeId} {name : String}

/-! ### Changes keep the tree -/

/-- One change of a store keeps it rooted. A scope is added inside one that exists, so it is not outermost, and
a definition moves no scope. -/
theorem Rooted.step (rooted : s.Rooted) (step : s.Step t) : t.Rooted := by
  cases step with
  | @add around present =>
      refine ⟨rooted.add present, ?_, ?_⟩
      · rw [next_add]
        exact Nat.lt_succ_of_lt rooted.globals
      · intro id made none
        rw [next_add] at made
        rw [enclosing?_add] at none
        by_cases new : id = s.next
        · rw [if_pos new] at none
          cases none
        · rw [if_neg new] at none
          exact rooted.outermost id (Nat.lt_of_le_of_ne (Nat.le_of_lt_succ made) new) none
  | define _ lives =>
      refine ⟨rooted.define _ _ lives, ?_, ?_⟩
      · rw [next_define]
        exact rooted.globals
      · intro id made none
        rw [next_define] at made
        rw [enclosing?_define] at none
        exact rooted.outermost id made none

/-- Changes one after another keep a store rooted. By induction over them. -/
theorem Rooted.steps (rooted : s.Rooted) (steps : s.Steps t) : t.Rooted := by
  induction steps with
  | refl => exact rooted
  | tail _ step ih => exact ih.step step

/-- No scope goes away, and none is moved, in one change of a store. -/
theorem Step.stays (step : s.Step t) : s.next ≤ t.next ∧ ∀ id < s.next, t.enclosing? id = s.enclosing? id := by
  cases step with
  | add _ =>
      refine ⟨Nat.le_of_lt (by simp), fun id present => ?_⟩
      rw [enclosing?_add, if_neg (Nat.ne_of_lt present)]
  | define _ _ => exact ⟨Nat.le_of_eq next_define.symm, fun id _ => enclosing?_define⟩

/-- Nor does any scope go away or move in several changes. -/
theorem Steps.stays (steps : s.Steps t) : s.next ≤ t.next ∧ ∀ id < s.next, t.enclosing? id = s.enclosing? id := by
  induction steps with
  | refl => exact ⟨Nat.le_refl _, fun _ _ => rfl⟩
  | tail _ step ih =>
      obtain ⟨later, same⟩ := ih
      refine ⟨Nat.le_trans later step.stays.1, fun id present => ?_⟩
      rw [step.stays.2 id (Nat.lt_of_lt_of_le present later), same id present]

/-! ### Going outwards ends -/

section Nested

variable (nested : ∀ {id outer}, s.enclosing? id = some outer → outer < id)

include nested

/-- The chain that the store computes is the path outwards. By induction over the number of the scope, which
falls going outwards. -/
theorem path_chain (id : ScopeId) : s.Path id (s.chain id) := by
  induction id using Nat.strongRecOn with
  | ind id ih =>
      rw [chain_eq nested]
      cases around : s.enclosing? id with
      | none => exact .outermost around
      | some outer => exact .outwards around (ih outer (nested around))

/-- The owner that the store computes is what looking outwards finds. By induction over the number of the scope,
as for chains. -/
theorem finds_owner? (name : String) (id : ScopeId) : s.Finds name id (s.owner? id name) := by
  induction id using Nat.strongRecOn with
  | ind id ih =>
      rw [owner?_eq nested]
      cases bound : (s.bindings id).find? name with
      | some v => exact .here (by rw [bound]; rfl)
      | none =>
          cases around : s.enclosing? id with
          | none => exact .nowhere bound around
          | some outer => exact .outwards bound around (ih outer (nested around))

/-- What a name means is what its owner binds it to. -/
theorem get?_eq_bind_owner? (name : String) (id : ScopeId) :
    s.get? id name = (s.owner? id name).bind fun k => (s.bindings k).find? name := by
  induction id using Nat.strongRecOn with
  | ind id ih =>
      rw [get?_eq nested, owner?_eq nested]
      cases bound : (s.bindings id).find? name with
      | some v => exact bound.symm
      | none =>
          cases around : s.enclosing? id with
          | none => rfl
          | some outer => exact ih outer (nested around)

end Nested

/-- There is one path outwards from a scope. With `path_chain`, it is the chain that the store computes. -/
theorem Path.unique {path path' : List ScopeId} (first : s.Path id path) (second : s.Path id path') :
    path = path' := by
  induction first generalizing path' with
  | outermost none =>
      cases second with
      | outermost _ => rfl
      | outwards around _ => rw [none] at around; cases around
  | outwards around _ ih =>
      cases second with
      | outermost none => rw [none] at around; cases around
      | outwards around' second =>
          cases around.symm.trans around'
          rw [ih second]

/-- Looking for a name outwards has one result, a scope that binds it or none. With `finds_owner?`, it is what
the store computes. -/
theorem Finds.unique {result result' : Option ScopeId} (first : s.Finds name id result)
    (second : s.Finds name id result') : result = result' := by
  induction first generalizing result' with
  | here bound =>
      cases second with
      | here _ => rfl
      | nowhere free _ | outwards free _ _ => rw [free] at bound; cases bound
  | nowhere free none =>
      cases second with
      | here bound => rw [free] at bound; cases bound
      | nowhere _ _ => rfl
      | outwards _ around _ => rw [none] at around; cases around
  | outwards free around _ ih =>
      cases second with
      | here bound => rw [free] at bound; cases bound
      | nowhere _ none => rw [none] at around; cases around
      | outwards _ around' second =>
          cases around.symm.trans around'
          exact ih second

/-- Going outwards from a scope that exists ends at the globals, since no other scope lies inside none. By
induction over the path. -/
theorem Rooted.getLast?_path (rooted : s.Rooted) {path : List ScopeId} (climbs : s.Path id path)
    (present : id < s.next) : path.getLast? = some World.globals := by
  induction climbs with
  | outermost none => rw [rooted.outermost _ present none]; rfl
  | outwards around climbs ih =>
      have older := Nat.lt_trans (rooted.enclosing around) present
      rw [List.getLast?_cons, ih older]
      rfl

end Store

end Treewalk

import Treewalk.Proofs.Store.Rooted

/-!
What a write changes. Scopes are shared: many lie inside the same one, so one write is seen from many places.
`Sees` and `Nearest` say from which, along the links between scopes alone. A definition changes what its name
means exactly where its scope is seen (`changesExactly_define`), and an assignment is a definition in the
nearest scope that binds the name (`owner?_eq_some_iff`). All of it rests on scopes lying inside older ones,
which every store has that is built by adding scopes, defining and assigning (`Built.nested`).
-/

namespace Treewalk

namespace Bindings

variable {b : Bindings} {name other : String} {value : Value}

/-- A name is found among bindings exactly when it is one of their names. -/
theorem find?_isSome_iff : (b.find? name).isSome ↔ name ∈ b.names := by
  constructor
  · exact mem_names_of_find?_isSome
  · fun_induction find? name b with
    | case1 => simp [names]
    | case2 v rest => simp
    | case3 n v rest differs ih =>
        intro listed
        rcases List.mem_cons.mp listed with same | later
        · exact absurd same.symm differs
        · exact ih later

theorem find?_eq_none_iff : b.find? name = none ↔ name ∉ b.names := by
  rw [← find?_isSome_iff, Option.not_isSome_iff_eq_none]

/-- What is set is found, and all other names are found as before. -/
theorem find?_set : (b.set name value).find? other = if other = name then some value else b.find? other := by
  fun_induction set name value b with
  | case1 => simp [find?, eq_comm]
  | case2 v rest =>
      by_cases same : other = name
      · simp [find?, same]
      · simp [find?, same, Ne.symm same]
  | case3 n v rest differs ih =>
      by_cases here : n = other
      · have apart : other ≠ name := fun same => differs (here.trans same)
        simp [find?, here, apart]
      · simp [find?, here, ih]

end Bindings

namespace Store

/-- Stores that come from the empty one by adding scopes, defining names and assigning to them, each in a scope
that exists. An assignment that fails gives no new store. -/
inductive Built : Store → Prop where
  | empty : Built .empty
  | add {s outer} : Built s → (∀ around ∈ outer, around < s.next) → Built (s.add outer)
  | define {s id name value} : Built s → id < s.next → Built (s.define id name value)
  | assign {s t id name value} : Built s → id < s.next → s.assign? id name value = some t → Built t

/-- One scope is the other one or lies around it. -/
def Encloses (s : Store) (outer inner : ScopeId) : Prop :=
  Relation.ReflTransGen (fun k around => s.enclosing? k = some around) inner outer

/-- From `inner`, a name that `outer` binds means what it says there: `outer` is `inner` or lies around it, and
no scope nearer to `inner` binds the name. -/
structure Sees (s : Store) (name : String) (inner outer : ScopeId) : Prop where
  encloses : s.Encloses outer inner
  nearer : ∀ k, s.Encloses k inner → s.Encloses outer k → k ≠ outer → ¬ s.Binds k name

/-- The nearest scope, from one outwards, that binds a name. -/
structure Nearest (s : Store) (name : String) (id owner : ScopeId) : Prop extends s.Sees name id owner where
  binds : s.Binds owner name

/-- Exactly the lookups of `P` give the value in the second store; all others are as in the first. -/
def ChangesExactly (s t : Store) (P : ScopeId → String → Prop) (value : Value) : Prop :=
  ∀ id name, (P id name → t.get? id name = some value) ∧ (¬ P id name → t.get? id name = s.get? id name)

variable {s t : Store} {id inner outer : ScopeId} {name : String} {value : Value}

/-- In a store that was built by its own operations, every scope lies inside an older one. -/
theorem Built.nested (built : s.Built) {id outer : ScopeId} (around : s.enclosing? id = some outer) : outer < id := by
  induction built generalizing id outer with
  | empty => simp [enclosing?, Store.empty] at around
  | @add s outer' _ present ih =>
      cases outer' with
      | some _ => exact nested_add ih (present _ rfl) around
      | none =>
          rw [enclosing?_add] at around
          split at around
          · cases around
          · exact ih around
  | define _ _ ih => exact ih (enclosing?_define ▸ around)
  | assign _ _ assigned ih =>
      obtain ⟨owner, -, rfl⟩ := Option.map_eq_some_iff.mp assigned
      exact ih (enclosing?_define ▸ around)

/-- A definition changes what one scope says about one name, and all other scopes and names stay as they are. -/
theorem find?_bindings_define {k : ScopeId} {other : String} (present : id < s.next) :
    ((s.define id name value).bindings k).find? other =
      if k = id ∧ other = name then some value else (s.bindings k).find? other := by
  by_cases same : k = id
  · subst same
    rw [bindings_define_self present, Bindings.find?_set]
    simp only [true_and]
  · rw [bindings_define_ne same, if_neg fun both => same both.1]

/-! ### The nearest scope -/

/-- A scope encloses another one if it is that scope, or encloses the one around it. -/
theorem encloses_iff :
    s.Encloses outer inner ↔ inner = outer ∨ ∃ k, s.enclosing? inner = some k ∧ s.Encloses outer k :=
  Relation.ReflTransGen.cases_head_iff

/-- Another scope is seen where its name is not hidden and it is seen from around there. This is the recursion
that lookups follow. -/
theorem sees_iff_of_ne (other : inner ≠ outer) : s.Sees name inner outer ↔
    ¬ s.Binds inner name ∧ ∃ k, s.enclosing? inner = some k ∧ s.Sees name k outer := by
  constructor
  · rintro ⟨encloses, nearer⟩
    obtain ⟨k, around, further⟩ := (encloses_iff.mp encloses).resolve_left other
    refine ⟨nearer inner .refl encloses other, k, around, further, fun j between => ?_⟩
    exact nearer j (.head around between)
  · rintro ⟨free, k, around, further, nearer⟩
    refine ⟨.head around further, fun j between beyond other => ?_⟩
    rcases encloses_iff.mp between with rfl | ⟨k', around', between'⟩
    · exact free
    · cases around.symm.trans around'
      exact nearer j between' beyond other

/-- Where a scope does not bind the name, the nearest one that does is the same as from around it. -/
theorem nearest_of_free {owner : ScopeId} (free : ¬ s.Binds id name) :
    s.Nearest name id owner ↔ ∃ k, s.enclosing? id = some k ∧ s.Nearest name k owner := by
  have other (binds : s.Binds owner name) : id ≠ owner := fun same => free (same ▸ binds)
  constructor
  · rintro ⟨sees, binds⟩
    obtain ⟨-, k, around, further⟩ := (sees_iff_of_ne (other binds)).mp sees
    exact ⟨k, around, further, binds⟩
  · rintro ⟨k, around, further, binds⟩
    exact ⟨(sees_iff_of_ne (other binds)).mpr ⟨free, k, around, further⟩, binds⟩

section Nested

variable (nested : ∀ {id outer}, s.enclosing? id = some outer → outer < id)

include nested

/-- What encloses a scope is no younger than it, as each step outwards leads to an older scope. -/
theorem Encloses.le (encloses : s.Encloses outer inner) : outer ≤ inner := by
  induction encloses with
  | refl => exact Nat.le_refl _
  | tail _ around ih => exact Nat.le_trans (Nat.le_of_lt (nested around)) ih

theorem sees_self (name : String) (id : ScopeId) : s.Sees name id id := by
  refine ⟨.refl, fun k between beyond other => absurd ?_ other⟩
  exact Nat.le_antisymm (between.le nested) (beyond.le nested)

/-- A scope that binds the name is itself the nearest one. -/
theorem nearest_of_binds {owner : ScopeId} (bound : s.Binds id name) : s.Nearest name id owner ↔ id = owner := by
  constructor
  · rintro ⟨sees, -⟩
    by_cases same : id = owner
    · exact same
    · exact absurd bound ((sees_iff_of_ne same).mp sees).1
  · rintro rfl
    exact ⟨sees_self nested name id, bound⟩

/-- The owner of a name is the nearest scope that binds it. By induction over the number of the scope, which
falls going outwards. -/
theorem owner?_eq_some_iff {owner : ScopeId} : s.owner? id name = some owner ↔ s.Nearest name id owner := by
  induction id using Nat.strongRecOn with
  | ind id ih =>
      rw [owner?_eq nested]
      by_cases bound : s.Binds id name
      · rw [if_pos (Bindings.find?_isSome_iff.mpr bound), nearest_of_binds nested bound, Option.some_inj]
      · rw [if_neg (mt Bindings.find?_isSome_iff.mp bound), nearest_of_free bound,
          Option.bind_eq_some_iff]
        exact exists_congr fun k => and_congr_right fun around => ih k (nested around)

/-- A name has an owner exactly when it has a meaning. -/
theorem owner?_eq_none_iff : s.owner? id name = none ↔ s.get? id name = none := by
  rw [get?_eq_bind_owner? nested]
  cases owned : s.owner? id name with
  | none => simp
  | some owner =>
      have bound := Bindings.find?_isSome_iff.mpr (owner?_some owned).2
      simpa using Option.isSome_iff_ne_none.mp bound

/-! ### What a write changes -/

/-- One step outwards after a definition. The three lemmas that follow are inductions with this as
their step. -/
theorem get?_define_eq (present : id < s.next) (k : ScopeId) (other : String) :
    (s.define id name value).get? k other =
      (if k = id ∧ other = name then some value else (s.bindings k).find? other).or
        ((s.enclosing? k).bind fun outer => (s.define id name value).get? outer other) := by
  have nested' {k outer : ScopeId} (around : (s.define id name value).enclosing? k = some outer) : outer < k :=
    nested (enclosing?_define ▸ around)
  rw [get?_eq nested', enclosing?_define, find?_bindings_define present]

/-- A definition leaves the meaning of other names alone, in every scope. -/
theorem get?_define_of_ne (present : id < s.next) {other : String} (apart : other ≠ name) (k : ScopeId) :
    (s.define id name value).get? k other = s.get? k other := by
  induction k using Nat.strongRecOn with
  | ind k ih =>
      rw [get?_define_eq nested present, get?_eq nested, if_neg fun both => apart both.2]
      cases around : s.enclosing? k with
      | none => rfl
      | some outer => rw [Option.bind_some, Option.bind_some, ih outer (nested around)]

/-- Where the scope of a definition is seen, its name means the new value. By induction outwards to
that scope. -/
theorem get?_define_of_sees (present : id < s.next) {k : ScopeId} (sees : s.Sees name k id) :
    (s.define id name value).get? k name = some value := by
  induction k using Nat.strongRecOn with
  | ind k ih =>
      rw [get?_define_eq nested present]
      by_cases same : k = id
      · rw [if_pos ⟨same, rfl⟩, Option.some_or]
      · obtain ⟨free, outer, around, further⟩ := (sees_iff_of_ne same).mp sees
        rw [if_neg fun both => same both.1, Bindings.find?_eq_none_iff.mpr free, around, Option.none_or]
        exact ih outer (nested around) further

/-- Where the scope of a definition is hidden, or not around, its name means what it meant. By
induction outwards. -/
theorem get?_define_of_not_sees (present : id < s.next) {k : ScopeId} (hidden : ¬ s.Sees name k id) :
    (s.define id name value).get? k name = s.get? k name := by
  induction k using Nat.strongRecOn with
  | ind k ih =>
      -- the lookup ends in a nearer scope, or never comes to the one of the definition
      have same : k ≠ id := fun same => hidden (same ▸ sees_self nested name k)
      rw [get?_define_eq nested present, get?_eq nested, if_neg fun both => same both.1]
      cases bound : (s.bindings k).find? name with
      | some found => rfl
      | none =>
          cases around : s.enclosing? k with
          | none => rfl
          | some outer =>
              have free : ¬ s.Binds k name := Bindings.find?_eq_none_iff.mp bound
              refine ih outer (nested around) fun further => hidden ?_
              exact (sees_iff_of_ne same).mpr ⟨free, outer, around, further⟩

/-- A definition changes its name's meaning wherever its scope is seen, and nothing else: no other name, and no
scope that it is hidden from. -/
theorem changesExactly_define (present : id < s.next) (name : String) (value : Value) :
    s.ChangesExactly (s.define id name value) (fun k other => other = name ∧ s.Sees name k id) value := by
  intro k other
  constructor
  · rintro ⟨rfl, sees⟩
    exact get?_define_of_sees nested present sees
  · intro unseen
    by_cases named : other = name
    · subst named
      exact get?_define_of_not_sees nested present fun sees => unseen ⟨rfl, sees⟩
    · exact get?_define_of_ne nested present named k

/-- An assignment changes its name's meaning wherever the nearest scope that binds it is the same, and nothing
else. It is a definition in that scope, and being seen comes down to having the same nearest one. -/
theorem changesExactly_assign? {name : String} {value : Value} (assigned : s.assign? id name value = some t) :
    s.ChangesExactly t
      (fun k other => other = name ∧ ∃ owner, s.Nearest name id owner ∧ s.Nearest name k owner) value := by
  obtain ⟨owner, owned, rfl⟩ := Option.map_eq_some_iff.mp assigned
  have nearest := (owner?_eq_some_iff nested).mp owned
  have seen (k : ScopeId) : (∃ owner, s.Nearest name id owner ∧ s.Nearest name k owner) ↔
      s.Sees name k owner := by
    constructor
    · rintro ⟨owner', nearest', sees, -⟩
      cases owned.symm.trans ((owner?_eq_some_iff nested).mpr nearest')
      exact sees
    · exact fun sees => ⟨owner, nearest, sees, nearest.binds⟩
  simp only [seen]
  exact changesExactly_define nested (lt_next_of_owner? owned) name value

end Nested

end Store

namespace Run

variable {w w' : World} {id : ScopeId} {target : Token} {value : Value}

/-- A lookup fails exactly when the name means nothing, and changes nothing then. -/
theorem lookup_eq_error_iff {stop : Stop} : lookup id target w = .error stop w' ↔
    w.store.get? id target.lexeme = none ∧ stop = .fault (.undefinedVariable target) ∧ w' = w := by
  unfold lookup
  cases w.store.get? id target.lexeme <;> simp [eq_comm]

/-- An assignment fails exactly when no scope owns the name, and changes nothing then. -/
theorem assign_eq_error_iff {stop : Stop} : assign id target value w = .error stop w' ↔
    w.store.owner? id target.lexeme = none ∧ stop = .fault (.undefinedVariable target) ∧ w' = w := by
  unfold assign
  cases w.store.owner? id target.lexeme <;> simp [eq_comm]

/-- An assignment that succeeds is that of the store, and nothing else in the world changes. -/
theorem assign_eq_ok (assigned : assign id target value w = .ok () w') :
    w.store.assign? id target.lexeme value = some w'.store := by
  unfold assign at assigned
  unfold Store.assign?
  split at assigned
  next owner owned =>
    cases assigned
    rw [owned, Option.map_some]
  · cases assigned

/-- **What a write changes.** In every store that is built by adding scopes, defining and assigning: an
assignment fails exactly when the lookup of its name does, with the same fault, and then leaves everything as it
was. When it succeeds, its name means the new value wherever the nearest scope that binds it is the same, and
every other lookup is as before. After a definition, its name means the new value wherever the scope is seen,
and every other lookup is as before. -/
theorem writes_change_exact_lookups (built : w.store.Built) (present : id < w.store.next) (target : Token)
    (value : Value) :
    (∀ stop after, assign id target value w = .error stop after ↔ lookup id target w = .error stop after) ∧
    (∀ stop after, assign id target value w = .error stop after →
      stop = .fault (.undefinedVariable target) ∧ after = w) ∧
    (∀ after, assign id target value w = .ok () after →
      w.store.ChangesExactly after.store (fun k name => name = target.lexeme ∧ ∃ owner,
        w.store.Nearest target.lexeme id owner ∧ w.store.Nearest target.lexeme k owner) value) ∧
    ∃ after, define id target.lexeme value w = .ok () after ∧
      w.store.ChangesExactly after.store
        (fun k name => name = target.lexeme ∧ w.store.Sees target.lexeme k id) value := by
  refine ⟨fun stop after => ?_, fun stop after failed => ?_, fun after assigned => ?_, _, rfl, ?_⟩
  · rw [assign_eq_error_iff, lookup_eq_error_iff, Store.owner?_eq_none_iff built.nested]
  · exact (assign_eq_error_iff.mp failed).2
  · exact Store.changesExactly_assign? built.nested (assign_eq_ok assigned)
  · exact Store.changesExactly_define built.nested present target.lexeme value

/-- A global name that scope 1 hides from scope 2, and that scope 3 shares with the globals. -/
def hiddenOnce : Store :=
  (((((Store.empty.add none).define 0 "a" (.text "global")).add (some 0)).define 1 "a" (.text "hiding")).add
    (some 1)).add (some 0)

/-- An assignment from scope 3 changes what the name means in the globals, and is not seen where scope 1 hides
it. A definition in scope 3 is seen there only. -/
theorem writes_change_exact_lookups_hidden :
    let w : World := ⟨hiddenOnce, #[], 0, .stopped⟩
    let a : Token := ⟨.identifier, "a", .nil, 1, some 0⟩
    w.store.Built ∧ 3 < w.store.next ∧
    (∃ after, assign 3 a (.text "new") w = .ok () after ∧
      after.store.get? 0 "a" = some (.text "new") ∧ after.store.get? 2 "a" = w.store.get? 2 "a") ∧
    ∃ after, define 3 "a" (.text "new") w = .ok () after ∧
      after.store.get? 3 "a" = some (.text "new") ∧ after.store.get? 0 "a" = w.store.get? 0 "a" := by
  intro w a
  have built : w.store.Built := .add (.add (.define (.add (.define (.add .empty (by simp)) (by decide))
    (by decide)) (by decide)) (by decide)) (by decide)
  have present : 3 < w.store.next := by decide
  have nearest {id owner : ScopeId} : w.store.owner? id "a" = some owner ↔ w.store.Nearest "a" id owner :=
    Store.owner?_eq_some_iff built.nested
  obtain ⟨-, -, assigned, after, defined, changes⟩ :=
    writes_change_exact_lookups built present a (.text "new")
  refine ⟨built, present, ⟨_, rfl, ?_, ?_⟩, after, defined, ?_, ?_⟩
  · exact (assigned _ rfl 0 "a").1 ⟨rfl, 0, nearest.mp rfl, nearest.mp rfl⟩
  · refine (assigned _ rfl 2 "a").2 ?_
    rintro ⟨-, owner, mine, others⟩
    have apart : w.store.owner? 3 "a" ≠ w.store.owner? 2 "a" := by decide
    exact apart ((nearest.mpr mine).trans (nearest.mpr others).symm)
  · exact (changes 3 "a").1 ⟨rfl, Store.sees_self built.nested "a" 3⟩
  · refine (changes 0 "a").2 ?_
    rintro ⟨-, sees, -⟩
    exact absurd (sees.le built.nested) (by decide)

end Run

end Treewalk

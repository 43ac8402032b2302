import Treewalk.Store

/-!
Laws of the store: what adding a scope and binding a name change, and which scopes a lookup visits.
-/

namespace Treewalk

namespace Bindings

variable {b : Bindings} {name other : String} {value found : Value}

theorem mem_of_find? (same : b.find? name = some value) : (name, value) ∈ b := by
  fun_induction find? name b with
  | case1 => simp at same
  | case2 v rest => simp_all
  | case3 n v rest differs ih => simp [ih same]

theorem mem_names_of_find?_isSome (bound : (b.find? name).isSome) : name ∈ b.names := by
  obtain ⟨v, same⟩ := Option.isSome_iff_exists.mp bound
  exact List.mem_map.mpr ⟨(name, v), mem_of_find? same, rfl⟩

theorem mem_set (listed : (other, found) ∈ b.set name value) :
    (other = name ∧ found = value) ∨ (other, found) ∈ b := by
  fun_induction set name value b with
  | case1 => simpa using listed
  | case2 v rest =>
      rcases List.mem_cons.mp listed with same | later
      · exact .inl (by simpa using same)
      · exact .inr (List.mem_cons_of_mem _ later)
  | case3 n v rest differs ih =>
      rcases List.mem_cons.mp listed with same | later
      · exact .inr (same ▸ List.mem_cons_self)
      · exact (ih later).imp_right (List.mem_cons_of_mem _)

/-- Setting a name adds that name and takes none away. -/
@[simp]
theorem mem_names_set : other ∈ (b.set name value).names ↔ other = name ∨ other ∈ b.names := by
  fun_induction set name value b with
  | case1 => simp [names]
  | case2 v rest => simp [names]
  | case3 n v rest differs ih =>
      simp only [names, List.map_cons, List.mem_cons] at ih ⊢
      rw [ih]
      exact or_left_comm

end Bindings

namespace Store

variable {s : Store} {id k : ScopeId} {outer : Option ScopeId} {name : String} {value : Value}

/-! ### Adding a scope -/

@[simp]
theorem next_add : (s.add outer).next = s.next + 1 := by
  simp [next, add]

/-- A new scope is added at the end, empty, and no other one changes. -/
theorem getElem?_add : (s.add outer).scopes[k]? = if k = s.next then some ⟨[], outer⟩ else s.scopes[k]? :=
  Array.getElem?_push

/-- A new scope binds nothing, like one that does not exist. -/
@[simp]
theorem bindings_add : (s.add outer).bindings k = s.bindings k := by
  unfold bindings
  rw [getElem?_add]
  by_cases fresh : k = s.next
  · have missing : s.scopes[k]? = none := by simp [fresh, next]
    rw [if_pos fresh, missing]
  · rw [if_neg fresh]

theorem bindings_next : s.bindings s.next = [] := by
  simp [bindings, next]

/-- A new scope lies inside the given one, and no other scope moves. -/
theorem enclosing?_add : (s.add outer).enclosing? k = if k = s.next then outer else s.enclosing? k := by
  unfold enclosing?
  rw [getElem?_add]
  by_cases fresh : k = s.next
  · simp [fresh]
  · simp [fresh]

/-! ### Binding a name -/

@[simp]
theorem next_define : (s.define id name value).next = s.next := by
  simp [next, define]

/-- A definition changes the bindings of its own scope only. -/
theorem getElem?_define : (s.define id name value).scopes[k]? =
    if id = k then s.scopes[k]?.map fun scope => { scope with bindings := scope.bindings.set name value }
    else s.scopes[k]? := by
  simp [define, Array.getElem?_modify]

theorem getElem?_define_ne (other : k ≠ id) : (s.define id name value).scopes[k]? = s.scopes[k]? := by
  rw [getElem?_define, if_neg (Ne.symm other)]

theorem bindings_define_ne (other : k ≠ id) : (s.define id name value).bindings k = s.bindings k := by
  unfold bindings
  rw [getElem?_define_ne other]

/-- In its own scope a definition sets the name. -/
theorem bindings_define_self (present : id < s.next) :
    (s.define id name value).bindings id = (s.bindings id).set name value := by
  obtain ⟨scope, found⟩ : ∃ scope, s.scopes[id]? = some scope := ⟨_, Array.getElem?_eq_getElem present⟩
  unfold bindings
  rw [getElem?_define, if_pos rfl, found]
  rfl

/-- A definition in a scope that does not exist changes nothing. Runs never make one, but the store does not
know this. -/
theorem bindings_define_missing (missing : ¬ id < s.next) :
    (s.define id name value).bindings k = s.bindings k := by
  by_cases same : k = id
  · have absent : s.scopes[id]? = none := by simpa [next] using missing
    unfold bindings
    rw [getElem?_define, same, if_pos rfl, absent]
    rfl
  · exact bindings_define_ne same

@[simp]
theorem enclosing?_define : (s.define id name value).enclosing? k = s.enclosing? k := by
  unfold enclosing?
  rw [getElem?_define]
  by_cases same : id = k
  · rw [if_pos same]
    cases s.scopes[k]? <;> rfl
  · rw [if_neg same]

/-- What a scope holds after a definition is the new value, or was there before. -/
theorem mem_bindings_define {other : String} {found : Value}
    (listed : (other, found) ∈ (s.define id name value).bindings k) :
    (k = id ∧ found = value) ∨ (other, found) ∈ s.bindings k := by
  by_cases present : id < s.next
  · by_cases same : k = id
    · rw [same, bindings_define_self present] at listed
      rcases Bindings.mem_set listed with ⟨-, rfl⟩ | before
      · exact .inl ⟨same, rfl⟩
      · exact .inr (same ▸ before)
    · rw [bindings_define_ne same] at listed
      exact .inr listed
  · rw [bindings_define_missing present] at listed
    exact .inr listed

/-- A scope binds a name itself. -/
def Binds (s : Store) (id : ScopeId) (name : String) : Prop := name ∈ (s.bindings id).names

@[simp]
theorem binds_add {other : String} : (s.add outer).Binds k other ↔ s.Binds k other := by
  simp [Binds]

/-- A definition adds its own name to its own scope, if there is such a scope, and nothing else. -/
theorem binds_define {other : String} : (s.define id name value).Binds k other ↔
    s.Binds k other ∨ (k = id ∧ id < s.next ∧ other = name) := by
  unfold Binds
  by_cases present : id < s.next
  · by_cases same : k = id
    · rw [same, bindings_define_self present, Bindings.mem_names_set]
      simp [present, or_comm]
    · rw [bindings_define_ne same]
      simp [same]
  · rw [bindings_define_missing present]
    simp [present]

/-! ### Lookups -/

/-- A property that passes from each scope to the one around it holds of all scopes further out, however many
steps are asked for. -/
theorem outwards_induction {P : ScopeId → Prop}
    (outwards : ∀ k outer, P k → s.enclosing? k = some outer → P outer) (fuel : Nat) (start : P id) :
    ∀ k ∈ s.outwards fuel id, P k := by
  induction fuel generalizing id with
  | zero => simp [Store.outwards]
  | succ fuel ih =>
      intro k listed
      rw [Store.outwards, List.mem_cons] at listed
      rcases listed with rfl | later
      · exact start
      · cases around : s.enclosing? id with
        | none => simp [around] at later
        | some outer =>
            rw [around] at later
            exact ih (outwards id outer start around) k later

/-- The same along the whole chain of a scope, which is all that lookups visit. -/
theorem chain_induction {P : ScopeId → Prop} (start : P id)
    (outwards : ∀ k outer, P k → s.enclosing? k = some outer → P outer) : ∀ k ∈ s.chain id, P k :=
  outwards_induction outwards (id + 1) start

/-- The scope that owns a name lies on the chain and binds the name. It is the first such scope, but that is not
needed here. -/
theorem owner?_some {owner : ScopeId} (owned : s.owner? id name = some owner) :
    owner ∈ s.chain id ∧ s.Binds owner name := by
  unfold owner? at owned
  have bound := List.find?_some owned
  exact ⟨List.mem_of_find?_eq_some owned, Bindings.mem_names_of_find?_isSome bound⟩

/-- What is looked up is bound by a scope on the chain, so a property of all bindings is one of all that can be
looked up. -/
theorem get?_some (found : s.get? id name = some value) :
    ∃ k ∈ s.chain id, (name, value) ∈ s.bindings k := by
  obtain ⟨k, visited, bound⟩ := List.exists_of_findSome?_eq_some found
  exact ⟨k, visited, Bindings.mem_of_find? bound⟩

theorem lt_next_of_enclosing? {outer : ScopeId} (around : s.enclosing? id = some outer) : id < s.next := by
  by_cases present : id < s.next
  · exact present
  · have missing : s.scopes[id]? = none := by simpa [next] using present
    simp [enclosing?, missing] at around

/-- Only scopes that exist bind names, since a number without a scope has no bindings. -/
theorem lt_next_of_find? (bound : (s.bindings id).find? name = some value) : id < s.next := by
  by_cases present : id < s.next
  · exact present
  · have missing : s.scopes[id]? = none := by simpa [next] using present
    simp [bindings, missing, Bindings.find?] at bound

/-- The scope that owns a name exists, so an assignment never defines in a missing one. -/
theorem lt_next_of_owner? {owner : ScopeId} (owned : s.owner? id name = some owner) : owner < s.next := by
  unfold owner? at owned
  have bound := List.find?_some owned
  obtain ⟨v, found⟩ := Option.isSome_iff_exists.mp bound
  exact lt_next_of_find? found

/-- A lookup that ends in a scope outside `P` sees no scope of `P` before, when one gets from `P` outwards
to `P` only. So it stays the same when all scopes outside `P` do. -/
theorem get?_eq_of_owner? {t : Store} {P : ScopeId → Prop} {owner : ScopeId}
    (outwards : ∀ k outer, P k → s.enclosing? k = some outer → P outer)
    (same : ∀ k < s.next, ¬ P k → t.scopes[k]? = s.scopes[k]?)
    (owned : s.owner? id name = some owner) (outside : ¬ P owner) : t.get? id name = s.get? id name := by
  have visited : ∀ fuel id,
      (s.outwards fuel id).find? (fun k => ((s.bindings k).find? name).isSome) = some owner →
      (t.outwards fuel id).findSome? (fun k => (t.bindings k).find? name) =
        (s.outwards fuel id).findSome? fun k => (s.bindings k).find? name := by
    intro fuel
    induction fuel with
    | zero => simp [Store.outwards]
    | succ fuel ih =>
        intro id found
        have apart : ¬ P id := fun inside =>
          outside (outwards_induction outwards (fuel + 1) inside owner (List.mem_of_find?_eq_some found))
        simp only [Store.outwards, List.find?_cons] at found
        cases here : (s.bindings id).find? name with
        | some v =>
            have bindings : t.bindings id = s.bindings id := by
              simp only [Store.bindings, same id (lt_next_of_find? here) apart]
            simp [Store.outwards, bindings, here]
        | none =>
            rw [here] at found
            cases around : s.enclosing? id with
            | none => simp [around] at found
            | some outer =>
                have unchanged := same id (lt_next_of_enclosing? around) apart
                have bindings : t.bindings id = s.bindings id := by simp only [Store.bindings, unchanged]
                have enclosing : t.enclosing? id = some outer := by
                  rw [← around]
                  simp only [enclosing?, unchanged]
                have further := ih outer (by simpa [around] using found)
                simpa [Store.outwards, List.findSome?_cons, bindings, here, enclosing, around] using further
  exact visited (id + 1) id owned

/-! ### Well-scoped stores -/

/-- Every scope lies inside an older one or inside none, and every function lives in a scope that exists. -/
structure WellScoped (s : Store) : Prop where
  enclosing : ∀ {id outer}, s.enclosing? id = some outer → outer < id
  closures : ∀ {id name c}, (name, .function (.closure c)) ∈ s.bindings id → c.scope < s.next

section Nested

variable (nested : ∀ {id outer}, s.enclosing? id = some outer → outer < id)

include nested

/-- Scopes are added inside older ones, so that every scope lies inside one with a smaller number. Going
outwards ends for this reason. -/
theorem nested_add {around : ScopeId} (present : around < s.next) {id outer : ScopeId}
    (found : (s.add (some around)).enclosing? id = some outer) : outer < id := by
  rw [enclosing?_add] at found
  by_cases new : id = s.next
  · rw [if_pos new] at found
    cases found
    exact new ▸ present
  · rw [if_neg new] at found
    exact nested found

/-- More steps outwards than the number of the scope need not be asked for, since each step leads to a
smaller number. -/
theorem outwards_eq_chain {fuel : Nat} (enough : id < fuel) : s.outwards fuel id = s.chain id := by
  induction fuel using Nat.strongRecOn generalizing id with
  | ind fuel ih =>
      cases fuel with
      | zero => exact absurd enough (Nat.not_lt_zero _)
      | succ fuel =>
          rw [chain, outwards, outwards]
          cases around : s.enclosing? id with
          | none => rfl
          | some outer =>
              have older := nested around
              dsimp only
              have within := Nat.lt_of_lt_of_le older (Nat.le_of_lt_succ enough)
              rw [ih fuel (Nat.lt_succ_self _) within, ih id enough older]

/-- The chain of a scope is the scope itself and the chain of the one around it. With this the bound on steps is
gone, and proofs go by the tree of scopes. -/
theorem chain_eq : s.chain id = id :: (s.enclosing? id).elim [] s.chain := by
  rw [chain, outwards]
  cases around : s.enclosing? id with
  | none => rfl
  | some outer => exact congrArg (id :: ·) (outwards_eq_chain nested (nested around))

/-- A name means what the scope says itself, or else what the scope around it says. This is the lookup as a
recursion over the tree of scopes. -/
theorem get?_eq : s.get? id name =
    ((s.bindings id).find? name).or ((s.enclosing? id).bind fun outer => s.get? outer name) := by
  unfold get?
  rw [chain_eq nested, List.findSome?_cons]
  cases (s.bindings id).find? name with
  | some v => rfl
  | none => cases s.enclosing? id <;> rfl

/-- A name is owned by the scope itself if it binds it, and otherwise by whichever scope further out does. -/
theorem owner?_eq : s.owner? id name =
    if ((s.bindings id).find? name).isSome then some id
    else (s.enclosing? id).bind fun outer => s.owner? outer name := by
  unfold owner?
  rw [chain_eq nested, List.find?_cons]
  cases ((s.bindings id).find? name).isSome with
  | true => rfl
  | false => cases s.enclosing? id <;> rfl

end Nested

end Store

end Treewalk

import Treewalk.Proofs.Run.Simulation

/-!
Scopes that bind nothing are not seen. Two runs are compared of which the first makes more scopes: some of
its scopes are empty for good, and a name means there what it means in the scope around. Each other scope
of the first run has a twin in the second one, which binds the same names to the same values, functions
being compared by their numbers, their code and their scopes. `Simulation.collapsing` says that code runs
alike in such stores.
-/

namespace Treewalk

/-- How scopes of two runs correspond. -/
structure Collapse where
  /-- Names mean in the one scope what they mean in the other. -/
  reads : ScopeId → ScopeId → Prop
  /-- The two scopes bind the same names themselves. -/
  twins : ScopeId → ScopeId → Prop
  reads_of_twins : ∀ {i j}, twins i j → reads i j

/-- The same code in the same place. -/
def sameCode (k : Int) (_ : Stmt) : Prop := k = 0

/-- Two stores that correspond: every scope of the first that has a counterpart is a twin of it, or is empty
and lies inside a scope with the same counterpart. -/
structure Collapse.Holds (c : Collapse) (s s' : Store) : Prop where
  nested : ∀ {id outer}, s.enclosing? id = some outer → outer < id
  nested' : ∀ {id outer}, s'.enclosing? id = some outer → outer < id
  present : ∀ {i j}, c.reads i j → i < s.next ∧ j < s'.next
  functional : ∀ {i j j'}, c.reads i j → c.reads i j' → j' = j
  injective : ∀ {i i' j}, c.twins i j → c.twins i' j → i' = i
  twins_or_empty : ∀ {i j}, c.reads i j → c.twins i j ∨
    (∀ j', ¬ c.twins i j') ∧ s.bindings i = [] ∧ ∃ outer, s.enclosing? i = some outer ∧ c.reads outer j
  bindings : ∀ {i j}, c.twins i j →
    Bindings.Like (Value.Like sameCode c.reads) (s.bindings i) (s'.bindings j)
  enclosing : ∀ {i j}, c.twins i j → Option.Rel c.reads (s.enclosing? i) (s'.enclosing? j)

namespace Collapse

variable {c : Collapse} {s s' : Store} {i j : ScopeId} {name : String}

/-- Two more scopes that are twins. -/
def withTwins (c : Collapse) (x y : ScopeId) : Collapse :=
  ⟨fun i j => c.reads i j ∨ i = x ∧ j = y, fun i j => c.twins i j ∨ i = x ∧ j = y,
    Or.imp_left c.reads_of_twins⟩

/-- One more scope of the first run, which is empty. -/
def withEmpty (c : Collapse) (x y : ScopeId) : Collapse :=
  ⟨fun i j => c.reads i j ∨ i = x ∧ j = y, c.twins, fun twins => .inl (c.reads_of_twins twins)⟩

/-- What corresponded goes on to do so. -/
structure Later (c d : Collapse) : Prop where
  reads : ∀ {i j}, c.reads i j → d.reads i j
  twins : ∀ {i j}, c.twins i j → d.twins i j

/-- Bindings stay alike when more scopes correspond, since their values only need the correspondence of the
scopes they live in. -/
theorem Later.bindings {d : Collapse} (later : c.Later d) {b b' : Bindings}
    (same : Bindings.Like (Value.Like sameCode c.reads) b b') :
    Bindings.Like (Value.Like sameCode d.reads) b b' :=
  same.mono fun _ _ like => like.mono fun _ _ => later.reads

theorem Later.enclosing {d : Collapse} (later : c.Later d) {o o' : Option ScopeId}
    (same : Option.Rel c.reads o o') : Option.Rel d.reads o o' := by
  cases same with
  | none => exact .none
  | some inside => exact .some (later.reads inside)

/-- A new pair of corresponding scopes changes nothing about those before. -/
theorem later_withTwins (c : Collapse) (x y : ScopeId) : c.Later (c.withTwins x y) := ⟨.inl, .inl⟩

theorem later_withEmpty (c : Collapse) (x y : ScopeId) : c.Later (c.withEmpty x y) := ⟨.inl, id⟩

namespace Holds

variable (holds : c.Holds s s')

include holds

/-- Stores stay in correspondence when scopes are added inside corresponding ones; the new ones are twins. -/
theorem add (inside : c.reads i j) :
    (c.withTwins s.next s'.next).Holds (s.add (some i)) (s'.add (some j)) := by
  have old {i j} (reads : c.reads i j) : i ≠ s.next ∧ j ≠ s'.next :=
    ⟨Nat.ne_of_lt (holds.present reads).1, Nat.ne_of_lt (holds.present reads).2⟩
  have oldTwins {i j} (twins : c.twins i j) := old (c.reads_of_twins twins)
  constructor
  · exact Store.nested_add holds.nested (holds.present inside).1
  · exact Store.nested_add holds.nested' (holds.present inside).2
  · rintro i j (before | ⟨rfl, rfl⟩)
    · simp only [Store.next_add]
      exact ⟨Nat.lt_succ_of_lt (holds.present before).1, Nat.lt_succ_of_lt (holds.present before).2⟩
    · simp
  · rintro i j j' (before | ⟨rfl, rfl⟩) (before' | ⟨new, rfl⟩)
    · exact holds.functional before before'
    · exact absurd new (old before).1
    · exact absurd rfl (old before').1
    · rfl
  · rintro i i' j (before | ⟨rfl, rfl⟩) (before' | ⟨rfl, new⟩)
    · exact holds.injective before before'
    · exact absurd new (oldTwins before).2
    · exact absurd rfl (oldTwins before').2
    · rfl
  · rintro i j (before | new)
    · rcases holds.twins_or_empty before with twins | ⟨alone, none, outer, around, inside'⟩
      · exact .inl (.inl twins)
      · refine .inr ⟨?_, ?_, outer, ?_, .inl inside'⟩
        · rintro j' (twins | ⟨new, -⟩)
          · exact alone j' twins
          · exact (old before).1 new
        · rwa [Store.bindings_add]
        · rwa [Store.enclosing?_add, if_neg (old before).1]
    · exact .inl (.inr new)
  · rintro i j (before | ⟨rfl, rfl⟩)
    · rw [Store.bindings_add, Store.bindings_add]
      exact (c.later_withTwins _ _).bindings (holds.bindings before)
    · rw [Store.bindings_add, Store.bindings_add, Store.bindings_next, Store.bindings_next]
      exact .nil
  · rintro i' j' (before | ⟨rfl, rfl⟩)
    · rw [Store.enclosing?_add, Store.enclosing?_add, if_neg (oldTwins before).1, if_neg (oldTwins before).2]
      exact (c.later_withTwins _ _).enclosing (holds.enclosing before)
    · rw [Store.enclosing?_add, Store.enclosing?_add, if_pos rfl, if_pos rfl]
      exact .some (.inl inside)

/-- The first store may have one more scope, as long as nothing is bound in it: looking outwards passes
over it. -/
theorem addEmpty (inside : c.reads i j) : (c.withEmpty s.next j).Holds (s.add (some i)) s' := by
  have old {i j} (reads : c.reads i j) : i ≠ s.next := Nat.ne_of_lt (holds.present reads).1
  constructor
  · exact Store.nested_add holds.nested (holds.present inside).1
  · exact holds.nested'
  · rintro i' j' (before | ⟨rfl, rfl⟩)
    · simp only [Store.next_add]
      exact ⟨Nat.lt_succ_of_lt (holds.present before).1, (holds.present before).2⟩
    · simpa using (holds.present inside).2
  · rintro i' j₁ j₂ (before | ⟨rfl, rfl⟩) (before' | ⟨new, rfl⟩)
    · exact holds.functional before before'
    · exact absurd new (old before)
    · exact absurd rfl (old before')
    · rfl
  · exact holds.injective
  · rintro i' j' (before | ⟨rfl, rfl⟩)
    · refine (holds.twins_or_empty before).imp_right ?_
      rintro ⟨alone, none, outer, around, inside'⟩
      refine ⟨alone, ?_, outer, ?_, .inl inside'⟩
      · rwa [Store.bindings_add]
      · rwa [Store.enclosing?_add, if_neg (old before)]
    · refine .inr ⟨fun j₁ twins => old (c.reads_of_twins twins) rfl, ?_, i, ?_, .inl inside⟩
      · rw [Store.bindings_add, Store.bindings_next]
      · rw [Store.enclosing?_add, if_pos rfl]
  · intro i' j' twins
    rw [Store.bindings_add]
    exact (c.later_withEmpty _ _).bindings (holds.bindings twins)
  · intro i' j' twins
    rw [Store.enclosing?_add, if_neg (old (c.reads_of_twins twins))]
    exact (c.later_withEmpty _ _).enclosing (holds.enclosing twins)

/-- Names are bound in twins only, so the additional scopes stay empty. What was alike stays so in every other
pair of twins. -/
theorem define (name : String) {v v' : Value} (twins : c.twins i j) (held : Value.Like sameCode c.reads v v') :
    c.Holds (s.define i name v) (s'.define j name v') := by
  have inside := c.reads_of_twins twins
  obtain ⟨present, present'⟩ := holds.present inside
  constructor
  · intro id outer around
    rw [Store.enclosing?_define] at around
    exact holds.nested around
  · intro id outer around
    rw [Store.enclosing?_define] at around
    exact holds.nested' around
  · intro i' j' reads
    rw [Store.next_define, Store.next_define]
    exact holds.present reads
  · exact holds.functional
  · exact holds.injective
  · intro i' j' reads
    refine (holds.twins_or_empty reads).imp_right ?_
    rintro ⟨alone, none, around⟩
    refine ⟨alone, ?_, by simpa using around⟩
    rwa [Store.bindings_define_ne]
    rintro rfl
    exact alone j twins
  · intro i' j' twins'
    by_cases here : i' = i
    · subst here
      obtain rfl := holds.functional inside (c.reads_of_twins twins')
      rw [Store.bindings_define_self present, Store.bindings_define_self present']
      exact (holds.bindings twins).set name held
    · have there : j' ≠ j := by
        rintro rfl
        exact here (holds.injective twins twins')
      rw [Store.bindings_define_ne here, Store.bindings_define_ne there]
      exact holds.bindings twins'
  · intro i' j' twins'
    rw [Store.enclosing?_define, Store.enclosing?_define]
    exact holds.enclosing twins'

/-- Induction outwards along the two chains. The first chain may have empty scopes that the second one lacks,
and passes over them while the second one waits. -/
theorem outwards_induction {P : ScopeId → ScopeId → Prop}
    (twin : ∀ i j, c.twins i j → Option.Rel P (s.enclosing? i) (s'.enclosing? j) → P i j)
    (empty : ∀ i j outer, s.bindings i = [] → s.enclosing? i = some outer → P outer j → P i j)
    (inside : c.reads i j) : P i j := by
  induction i using Nat.strongRecOn generalizing j with
  | ind i ih =>
      rcases holds.twins_or_empty inside with twins | ⟨-, none, outer, around, inside'⟩
      · apply twin i j twins
        have further {outer} (around : s.enclosing? i = some outer) {outer'} :
            c.reads outer outer' → P outer outer' := ih outer (holds.nested around)
        have outwards := holds.enclosing twins
        generalize s.enclosing? i = o, s'.enclosing? j = o' at outwards further
        cases outwards with
        | none => exact .none
        | some inside' => exact .some (further rfl inside')
      · exact empty i j outer none around (ih outer (holds.nested around) inside')

/-- A name means the same in scopes that correspond: corresponding values, or nothing in both. By induction
outwards, where empty scopes bind nothing. -/
theorem get?_like (name : String) (inside : c.reads i j) :
    Option.Rel (Value.Like sameCode c.reads) (s.get? i name) (s'.get? j name) := by
  apply holds.outwards_induction (P := fun i j => Option.Rel _ (s.get? i name) (s'.get? j name)) _ _ inside
  · intro i j twins outwards
    rw [Store.get?_eq holds.nested, Store.get?_eq holds.nested']
    have found := (holds.bindings twins).find? name
    generalize (s.bindings i).find? name = o, (s'.bindings j).find? name = o' at found
    generalize s.enclosing? i = a, s'.enclosing? j = b at outwards
    cases found with
    | some held => exact .some held
    | none =>
        cases outwards with
        | none => exact .none
        | some same => exact same
  · intro i j outer none around same
    rw [Store.get?_eq holds.nested, none, around]
    exact same

/-- A name is owned by twins, since empty scopes own no name. So an assignment changes corresponding scopes. -/
theorem owner?_twins (name : String) (inside : c.reads i j) :
    Option.Rel c.twins (s.owner? i name) (s'.owner? j name) := by
  apply holds.outwards_induction (P := fun i j => Option.Rel _ (s.owner? i name) (s'.owner? j name)) _ _ inside
  · intro i j twins outwards
    rw [Store.owner?_eq holds.nested, Store.owner?_eq holds.nested']
    have found := (holds.bindings twins).find? name
    generalize (s.bindings i).find? name = o, (s'.bindings j).find? name = o' at found
    generalize s.enclosing? i = a, s'.enclosing? j = b at outwards
    cases found with
    | some held => exact .some twins
    | none =>
        cases outwards with
        | none => exact .none
        | some same => exact same
  · intro i j outer none around same
    rw [Store.owner?_eq holds.nested, none, around]
    exact same

end Holds

/-- Every scope is its own twin. -/
def identity (n : Nat) : Collapse := ⟨fun i j => i < n ∧ j = i, fun i j => i < n ∧ j = i, id⟩

/-- A well-scoped store corresponds to itself, each scope being its own twin. Two runs begin in
this correspondence. -/
theorem identity_holds (proper : s.WellScoped) : (identity s.next).Holds s s where
  nested := proper.enclosing
  nested' := proper.enclosing
  present := by
    rintro i _ ⟨present, rfl⟩
    exact ⟨present, present⟩
  functional := by
    rintro i _ _ ⟨-, rfl⟩ ⟨-, rfl⟩
    rfl
  injective := by
    rintro i i' _ ⟨-, rfl⟩ ⟨-, same⟩
    exact same.symm
  twins_or_empty reads := .inl reads
  bindings := by
    rintro i _ ⟨present, rfl⟩
    apply List.forall₂_same.mpr
    rintro ⟨name, v⟩ listed
    refine ⟨rfl, .self ?_⟩
    rintro c rfl
    exact ⟨rfl, proper.closures listed, rfl⟩
  enclosing := by
    rintro _ i ⟨present, rfl⟩
    cases around : s.enclosing? i with
    | none => exact .none
    | some outer => exact .some ⟨Nat.lt_trans (proper.enclosing around) present, rfl⟩

end Collapse

/-- Running the same code in stores that correspond. -/
def Simulation.collapsing (cut cut' : Prop) : Simulation where
  Stage := Collapse
  later := Collapse.Later
  code := sameCode
  scope := Collapse.reads
  binds := Collapse.twins
  store := Collapse.Holds
  earlier := []
  cut := cut
  cut' := cut'
  later_refl _ := ⟨id, id⟩
  later_trans first second := ⟨fun reads => second.reads (first.reads reads),
    fun twins => second.twins (first.twins twins)⟩
  scope_mono later reads := later.reads reads
  binds_mono later twins := later.twins twins
  scope_of_binds {c} _ _ twins := c.reads_of_twins twins
  code_part same _ := same
  store_add {c s s' _ _} holds inside :=
    ⟨c.withTwins s.next s'.next, c.later_withTwins _ _, holds.add inside, .inr ⟨rfl, rfl⟩⟩
  store_define name holds twins held := holds.define name twins held
  get_like name holds inside := holds.get?_like name inside
  owner_binds name holds inside := holds.owner?_twins name inside

theorem Simulation.collapsing_shifts (cut cut' : Prop) : (collapsing cut cut').Shifts 0 := ⟨.block [], rfl⟩

/-- The first run makes one more scope, and nothing is ever bound there. It is read as the scope around it, and
has no twin, so no declaration may run in it. -/
theorem Simulation.enterEmpty_simulates {α β : Type} {cut cut' : Prop} {like : Collapse → α → β → Prop}
    {c : Collapse} {i j : ScopeId} (inside : c.reads i j) {q : ScopeId → Run α} {p' : Run β}
    (next : ∀ d inner, c.Later d → d.reads inner j → (collapsing cut cut').Simulates like d (q inner) p') :
    (collapsing cut cut').Simulates like c (Run.enter i >>= q) p' := by
  intro c₁ w w' later related
  rw [Run.bind_apply]
  have wider := c₁.later_withEmpty w.store.next j
  have stored := related.store.addEmpty (later.reads inside)
  have onwards := (collapsing cut cut').later_trans later wider
  have agrees := next _ w.store.next onwards (.inr ⟨rfl, rfl⟩) _ { w with store := w.store.add (some i) } w'
    ((collapsing cut cut').later_refl _) { related with store := stored }
  exact agrees.mono wider

end Treewalk

import Treewalk.Proofs.Run.Discipline

/-!
What a run can reach. From the scope that it starts in, code gets to the scopes around it and to those of
the functions stored in any of these, and to nothing else: all other scopes are the same after the run as
before it, and every function that the run stores or gives back lives in a scope within its reach or in one
that it made. So two functions can affect each other only through scopes that both can reach.
-/

namespace Treewalk

/-- The scopes that can be reached from some scopes, through the scopes around them and the functions
stored in them. -/
inductive Store.Reaches (s : Store) (start : ScopeId → Prop) : ScopeId → Prop where
  | start {id} : start id → Reaches s start id
  | enclosing {id outer} : Reaches s start id → s.enclosing? id = some outer → Reaches s start outer
  | closure {id name c} : Reaches s start id → (name, .function (.closure c)) ∈ s.bindings id →
      Reaches s start c.scope

/-- A value that is no function of the program, or one whose scope is among `P`. -/
def Value.LivesIn (P : ScopeId → Prop) : Value → Prop
  | .function (.closure c) => P c.scope
  | .const _ | .function (.native _) => True

/-- The scopes of a run: those that it could reach at its start, and those made since. -/
def Store.Own (start : Store) (R : ScopeId → Prop) (n : Nat) (id : ScopeId) : Prop :=
  R id ∨ (start.next ≤ id ∧ id < n)

/-- Since `start`, only scopes of the run have changed, and from them one gets to scopes of the run only. -/
structure Store.Confined (start : Store) (R : ScopeId → Prop) (s : Store) : Prop where
  later : start.next ≤ s.next
  unchanged : ∀ id < start.next, ¬ R id → s.scopes[id]? = start.scopes[id]?
  enclosing : ∀ id outer, start.Own R s.next id → s.enclosing? id = some outer →
    start.Own R s.next outer
  stored : ∀ id name v, start.Own R s.next id → (name, v) ∈ s.bindings id →
    v.LivesIn (start.Own R s.next)

section

variable {start s : Store} {R : ScopeId → Prop} {n m : Nat} {id : ScopeId}

/-- A scope of the run stays one while the run makes more, since what it made before stays made. -/
theorem Store.Own.mono (own : start.Own R n id) (later : n ≤ m) : start.Own R m id :=
  own.imp_right fun made => ⟨made.1, Nat.lt_of_lt_of_le made.2 later⟩

/-- A value that lives in some scopes lives in any larger set of them. -/
theorem Value.LivesIn.mono {P Q : ScopeId → Prop} {v : Value} (lives : v.LivesIn P)
    (wider : ∀ id, P id → Q id) : v.LivesIn Q := by
  match v with
  | .const _ => trivial
  | .function (.native _) => trivial
  | .function (.closure c) => exact wider c.scope lives

namespace Store.Confined

/-- Before its first step, a run has changed nothing, and every scope that it can reach is its own. -/
theorem refl (start : Store) (from' : ScopeId → Prop) :
    start.Confined (start.Reaches from') start where
  later := Nat.le_refl _
  unchanged _ _ _ := rfl
  enclosing := by
    intro id outer own around
    rcases own with reached | made
    · exact .inl (reached.enclosing around)
    · exact absurd made.2 (Nat.not_lt.mpr made.1)
  stored := by
    intro id name v own bound
    rcases own with reached | made
    · match v with
      | .const _ => trivial
      | .function (.native _) => trivial
      | .function (.closure c) => exact .inl (reached.closure bound)
    · exact absurd made.2 (Nat.not_lt.mpr made.1)

/-- Opening a scope inside a scope of the run keeps the run confined. -/
theorem add (confined : start.Confined R s) {outer : ScopeId} (own : start.Own R s.next outer) :
    start.Confined R (s.add (some outer)) := by
  have wider : ∀ id, start.Own R s.next id → start.Own R (s.add (some outer)).next id := by
    intro id inside
    rw [next_add]
    exact inside.mono (Nat.le_succ _)
  have before : ∀ id, start.Own R (s.add (some outer)).next id → id = s.next ∨ start.Own R s.next id := by
    intro id inside
    rw [next_add] at inside
    rcases inside with reached | made
    · exact .inr (.inl reached)
    · by_cases new : id = s.next
      · exact .inl new
      · exact .inr (.inr ⟨made.1, Nat.lt_of_le_of_ne (Nat.le_of_lt_succ made.2) new⟩)
  refine ⟨?_, fun id old outside => ?_, fun id around inside nested => ?_, fun id name v inside bound => ?_⟩
  · rw [next_add]
    exact Nat.le_succ_of_le confined.later
  · have different : id ≠ s.next := Nat.ne_of_lt (Nat.lt_of_lt_of_le old confined.later)
    rw [getElem?_add, if_neg different]
    exact confined.unchanged id old outside
  · rw [enclosing?_add] at nested
    by_cases new : id = s.next
    · rw [if_pos new] at nested
      cases nested
      exact wider _ own
    · rw [if_neg new] at nested
      exact wider _ (confined.enclosing id around ((before id inside).resolve_left new) nested)
  · rw [bindings_add] at bound
    rcases before id inside with rfl | inside'
    · rw [bindings_next] at bound
      cases bound
    · exact (confined.stored id name v inside' bound).mono wider

/-- Binding a name in a scope of the run, to a value that lives there, keeps the run confined. -/
theorem define (confined : start.Confined R s) (own : start.Own R s.next id) (name : String) {v : Value}
    (lives : v.LivesIn (start.Own R s.next)) : start.Confined R (s.define id name v) where
  later := by
    rw [next_define]
    exact confined.later
  unchanged := by
    intro k old outside
    have different : k ≠ id := by
      rintro rfl
      rcases own with reached | made
      · exact outside reached
      · exact Nat.not_lt.mpr made.1 old
    rw [getElem?_define_ne different]
    exact confined.unchanged k old outside
  enclosing := by
    intro k outer inside around
    rw [next_define] at inside ⊢
    rw [enclosing?_define] at around
    exact confined.enclosing k outer inside around
  stored := by
    intro k other u inside bound
    rw [next_define] at inside ⊢
    rcases mem_bindings_define bound with ⟨-, rfl⟩ | before
    · exact lives
    · exact confined.stored k other u inside before

/-- The scopes that a lookup visits are scopes of the run. What a name means is therefore a value of the run
as well. -/
theorem chain (confined : start.Confined R s) (own : start.Own R s.next id) :
    ∀ k ∈ s.chain id, start.Own R s.next k :=
  chain_induction own fun k outer inside around => confined.enclosing k outer inside around

end Store.Confined

end

/-- Runs that stay within the scopes reached from some scopes of `start`. -/
def Discipline.confinement (start : Store) (R : ScopeId → Prop) : Discipline where
  store := start.Confined R
  scope := start.Own R
  value n v := v.LivesIn (start.Own R n)
  binds _ _ := True
  expr _ := True
  stmt _ _ := True
  stop _ := True
  scope_mono later own := own.mono later
  value_mono later lives := lives.mono fun _ own => own.mono later
  value_const _ := trivial
  store_add confined own := ⟨confined.add own, .inr ⟨confined.later, Nat.lt_succ_self _⟩, fun _ => trivial⟩
  store_define confined own _ lives := confined.define own _ lives
  store_assign confined own owned lives :=
    confined.define (confined.chain own _ (Store.owner?_some owned).1) _ lives
  value_get := fun confined own found => by
    obtain ⟨k, visited, bound⟩ := Store.get?_some found
    exact confined.stored k _ _ (confined.chain own k visited) bound
  expr_child _ _ := trivial
  stmt_expression _ _ := trivial
  stmt_branch _ _ := trivial
  stmt_loop _ := trivial
  stmt_block _ _ _ := trivial
  stmt_var _ := trivial
  stmt_function _ := trivial
  value_closure _ _ own := own
  scope_closure lives := lives
  stmt_closure _ _ _ := trivial
  stop_raised _ _ := trivial
  stop_misplaced _ := trivial
  stop_tooDeep := trivial
  stop_endless := trivial

/-- Where a call starts from: the scope of the function, and those of the functions among its
arguments. -/
def Closure.Given (c : Closure) (arguments : List Value) (id : ScopeId) : Prop :=
  id = c.scope ∨ ∃ d, Value.function (.closure d) ∈ arguments ∧ id = d.scope

namespace Run

variable (turns depth : Nat) (w : World)

/-- Running a statement touches only scopes that are reached from the scope it runs in, and new ones; what it
returns lives there too. -/
theorem execute_confined (s : Stmt) (id : ScopeId) :
    w.store.Confined (w.store.Reaches (· = id)) ((execute turns depth s id).after w).store ∧
      ∀ v w', execute turns depth s id w = .ok (.returning v) w' →
        v.LivesIn (w.store.Own (w.store.Reaches (· = id)) w'.store.next) := by
  have start := Store.Confined.refl w.store (· = id)
  have ends := (Discipline.confinement _ _).execute_keeps turns depth id start (s := s) trivial
    (.inl (.start rfl))
  exact ⟨ends.after.2, fun v w' returned => ends.result returned⟩

/-- Evaluating an expression touches only scopes that are reached from the scope it is evaluated in, and new
ones; its value lives there too. -/
theorem evaluate_confined (e : Expr) (id : ScopeId) :
    w.store.Confined (w.store.Reaches (· = id)) ((evaluate turns depth e id).after w).store ∧
      ∀ v w', evaluate turns depth e id w = .ok v w' →
        v.LivesIn (w.store.Own (w.store.Reaches (· = id)) w'.store.next) := by
  have start := Store.Confined.refl w.store (· = id)
  have ends := (Discipline.confinement _ _).evaluate_keeps turns depth id start (e := e) trivial
    (.inl (.start rfl))
  exact ⟨ends.after.2, fun v w' result => ends.result result⟩

/-- A call touches only scopes that are reached from the function and its arguments, and new ones. The scope of
the caller is not among them unless one of these reaches it. -/
theorem callClosure_confined (c : Closure) (arguments : List Value) :
    w.store.Confined (w.store.Reaches (c.Given arguments))
        ((callClosure (execute turns depth) c arguments).after w).store ∧
      ∀ v w', callClosure (execute turns depth) c arguments w = .ok v w' →
        v.LivesIn (w.store.Own (w.store.Reaches (c.Given arguments)) w'.store.next) := by
  have start := Store.Confined.refl w.store (c.Given arguments)
  have given : ∀ v ∈ arguments,
      v.LivesIn (w.store.Own (w.store.Reaches (c.Given arguments)) w.store.next) := by
    intro v listed
    match v with
    | .const _ => trivial
    | .function (.native _) => trivial
    | .function (.closure d) => exact .inl (.start (.inr ⟨d, listed, rfl⟩))
  have ends := (Discipline.confinement _ _).closure_keeps turns depth start (c := c)
    (.inl (.start (.inl rfl))) given
  exact ⟨ends.after.2, fun v w' result => ends.result result⟩

/-- **A run changes only what it reaches.** The scopes it changes are those that it could reach at its start or
made itself, and what it stores or gives back lives in such scopes. A call therefore changes no name that is
bound, as seen by any other function, in a scope out of reach of the call. -/
theorem changes_only_reached_scopes :
    (∀ s id, let R := w.store.Reaches (· = id)
      w.store.Confined R ((execute turns depth s id).after w).store ∧
      ∀ v w', execute turns depth s id w = .ok (.returning v) w' →
        v.LivesIn (w.store.Own R w'.store.next)) ∧
    (∀ e id, let R := w.store.Reaches (· = id)
      w.store.Confined R ((evaluate turns depth e id).after w).store ∧
      ∀ v w', evaluate turns depth e id w = .ok v w' → v.LivesIn (w.store.Own R w'.store.next)) ∧
    (∀ c arguments, let R := w.store.Reaches (c.Given arguments)
      let call := callClosure (execute turns depth) c arguments
      (w.store.Confined R (call.after w).store ∧
        ∀ v w', call w = .ok v w' → v.LivesIn (w.store.Own R w'.store.next)) ∧
      ∀ (d : Closure) name owner, w.store.owner? d.scope name = some owner → ¬ R owner →
        (call.after w).store.get? d.scope name = w.store.get? d.scope name) := by
  refine ⟨execute_confined turns depth w, evaluate_confined turns depth w, fun c arguments => ?_⟩
  have confined := callClosure_confined turns depth w c arguments
  refine ⟨confined, fun d name owner owned outside => ?_⟩
  have outwards : ∀ k outer, w.store.Reaches (c.Given arguments) k → w.store.enclosing? k = some outer →
      w.store.Reaches (c.Given arguments) outer := fun k outer reached around => reached.enclosing around
  exact Store.get?_eq_of_owner? outwards confined.1.unchanged owned outside

end Run

end Treewalk

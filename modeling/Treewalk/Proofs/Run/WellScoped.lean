import Treewalk.Proofs.Run.Encapsulation

/-!
Well-scoped stores. In every world that a run gets to from the initial one, each scope lies inside an older
one or inside none, and each function lives in a scope that exists.
-/

namespace Treewalk

namespace Store.WellScoped

variable {s : Store} {id : ScopeId}

/-- Values that are bound live in scopes that exist, so a function that is found can be called. -/
theorem livesIn (proper : s.WellScoped) {name : String} {v : Value} (bound : (name, v) ∈ s.bindings id) :
    v.LivesIn (· < s.next) := by
  match v with
  | .const _ => trivial
  | .function (.native _) => trivial
  | .function (.closure c) => exact proper.closures bound

/-- A scope that is added inside one that exists keeps the store well scoped: it is the youngest one, so what it
lies inside is older. -/
theorem add (proper : s.WellScoped) (present : id < s.next) : (s.add (some id)).WellScoped where
  enclosing := nested_add proper.enclosing present
  closures bound := by
    rw [bindings_add] at bound
    rw [next_add]
    exact Nat.lt_succ_of_lt (proper.closures bound)

/-- A value that lives in a scope that exists may be bound anywhere. -/
theorem define (proper : s.WellScoped) (id : ScopeId) (name : String) {v : Value}
    (lives : v.LivesIn (· < s.next)) : (s.define id name v).WellScoped where
  enclosing around := by
    rw [enclosing?_define] at around
    exact proper.enclosing around
  closures bound := by
    rw [next_define]
    rcases mem_bindings_define bound with ⟨-, rfl⟩ | before
    · exact lives
    · exact proper.closures before

end Store.WellScoped

/-- Runs in well-scoped stores. -/
def Discipline.wellScoped : Discipline where
  store := Store.WellScoped
  scope n id := id < n
  value n v := v.LivesIn (· < n)
  binds _ _ := True
  expr _ := True
  stmt _ _ := True
  stop _ := True
  scope_mono later present := Nat.lt_of_lt_of_le present later
  value_mono later lives := lives.mono fun _ present => Nat.lt_of_lt_of_le present later
  value_const _ := trivial
  store_add proper present := ⟨proper.add present, Nat.lt_succ_self _, fun _ => trivial⟩
  store_define proper _ _ lives := proper.define _ _ lives
  store_assign proper _ _ lives := proper.define _ _ lives
  value_get := fun proper _ found => by
    obtain ⟨k, -, bound⟩ := Store.get?_some found
    exact proper.livesIn bound
  expr_child _ _ := trivial
  stmt_expression _ _ := trivial
  stmt_branch _ _ := trivial
  stmt_loop _ := trivial
  stmt_block _ _ _ := trivial
  stmt_var _ := trivial
  stmt_function _ := trivial
  value_closure _ _ present := present
  scope_closure lives := lives
  stmt_closure _ _ _ := trivial
  stop_raised _ _ := trivial
  stop_misplaced _ := trivial
  stop_tooDeep := trivial
  stop_endless := trivial

theorem World.initial_wellScoped (clock : Clock) : (World.initial clock).store.WellScoped := by
  have bare : (Store.empty.add none).WellScoped := by
    constructor
    · intro id outer around
      rw [Store.enclosing?_add] at around
      simp [Store.enclosing?, Store.empty] at around
    · intro id name c bound
      rw [Store.bindings_add] at bound
      simp [Store.bindings, Store.empty] at bound
  exact bare.define globals Native.clock.name trivial

/-- A run leaves a well-scoped store well scoped, however it ends. -/
theorem Run.execute_wellScoped (turns depth : Nat) (s : Stmt) {id : ScopeId} {w : World}
    (proper : w.store.WellScoped) (present : id < w.store.next) :
    ((execute turns depth s id).after w).store.WellScoped :=
  (Discipline.wellScoped.execute_keeps turns depth id proper (s := s) trivial present).after.2

end Treewalk

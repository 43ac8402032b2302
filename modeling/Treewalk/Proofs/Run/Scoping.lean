import Treewalk.Proofs.Run.Safety

/-!
Where names are bound. Evaluating an expression binds nothing in any scope that exists already, and a
statement binds there only the names that it declares, in the scope that it runs in. Nothing is ever
unbound. All this holds however the run ends.
-/

namespace Treewalk

/-- A statement declares a name in the scope that it runs in: by a declaration that is the statement
itself or is reached through branches and loops. -/
inductive Stmt.Declares (name : String) : Stmt → Prop where
  | var {t initial} : t.lexeme = name → Declares name (.var t initial)
  | function {t parameters body} : t.lexeme = name → Declares name (.function t parameters body)
  | yes {condition yes no} : Declares name yes → Declares name (.branch condition yes no)
  | no {condition yes no} : Declares name no → Declares name (.branch condition yes (some no))
  | body {condition body} : Declares name body → Declares name (.loop condition body)

/-- In a tree that was read, only declarations declare anything. A branch or a loop in a tree that was not read
could hold one directly. -/
theorem Stmt.Declares.isDeclaration {name : String} {s : Stmt} (declares : s.Declares name)
    (read : s.Read) : s.isDeclaration = true := by
  induction declares with
  | var | function => rfl
  | yes _ ih =>
      have alone := read.fitting.1
      rw [ih (read.part (by simp [Stmt.parts]))] at alone
      cases alone
  | @no condition yes no _ ih =>
      have alone := read.fitting.2 no rfl
      rw [ih (read.part (by simp [Stmt.parts]))] at alone
      cases alone
  | @body condition body _ ih =>
      have alone : body.isDeclaration = false := read.fitting
      rw [ih (read.part (by simp [Stmt.parts]))] at alone
      cases alone

/-- Since `start`, the scopes that existed then lost no name and gained only names that were free. -/
structure Store.Gained (start : Store) (free : ScopeId → String → Prop) (s : Store) : Prop where
  later : start.next ≤ s.next
  keeps : ∀ id < start.next, ∀ name, start.Binds id name → s.Binds id name
  gains : ∀ id < start.next, ∀ name, s.Binds id name → start.Binds id name ∨ free id name

namespace Store.Gained

variable {start s : Store} {free : ScopeId → String → Prop}

/-- Before its first step, a run has bound nothing. -/
theorem refl (start : Store) (free : ScopeId → String → Prop) : start.Gained free start :=
  ⟨Nat.le_refl _, fun _ _ _ bound => bound, fun _ _ _ bound => .inl bound⟩

theorem add (gained : start.Gained free s) (outer : Option ScopeId) : start.Gained free (s.add outer) where
  later := by
    rw [next_add]
    exact Nat.le_succ_of_le gained.later
  keeps id old name bound := binds_add.mpr (gained.keeps id old name bound)
  gains id old name bound := gained.gains id old name (binds_add.mp bound)

/-- A name may be bound that was bound before, in a scope that is new, or where the statement declares it. -/
theorem define (gained : start.Gained free s) {id : ScopeId} {name : String} (value : Value)
    (allowed : s.Binds id name ∨ start.next ≤ id ∨ free id name) :
    start.Gained free (s.define id name value) where
  later := by
    rw [next_define]
    exact gained.later
  keeps k old other bound := binds_define.mpr (.inl (gained.keeps k old other bound))
  gains := by
    intro k old other bound
    rcases binds_define.mp bound with before | ⟨rfl, -, rfl⟩
    · exact gained.gains k old other before
    · rcases allowed with already | new | listed
      · exact gained.gains k old other already
      · exact absurd old (Nat.not_lt.mpr new)
      · exact .inr listed

/-- With no name free, the names stay as they are: none is lost, and none is gained in a scope that
existed before. -/
theorem binds_iff (gained : start.Gained (fun _ _ => False) s) {id : ScopeId} (old : id < start.next)
    (name : String) : s.Binds id name ↔ start.Binds id name := by
  constructor
  · intro bound
    rcases gained.gains id old name bound with before | free
    · exact before
    · exact free.elim
  · exact gained.keeps id old name

end Store.Gained

/-- Runs that bind, in the scopes of `start`, only names that are free there. -/
def Discipline.binding (start : Store) (free : ScopeId → String → Prop) : Discipline where
  store := start.Gained free
  scope _ _ := True
  value _ _ := True
  binds id name := start.next ≤ id ∨ free id name
  expr _ := True
  stmt id s := ∀ name, s.Declares name → start.next ≤ id ∨ free id name
  stop _ := True
  scope_mono _ inside := inside
  value_mono _ held := held
  value_const _ := trivial
  store_add gained _ := ⟨gained.add _, trivial, fun _ => .inl gained.later⟩
  store_define gained _ allowed _ := gained.define _ (.inr allowed)
  store_assign gained _ owned _ := gained.define _ (.inl (Store.owner?_some owned).2)
  value_get _ _ _ := trivial
  expr_child _ _ := trivial
  stmt_expression _ _ := trivial
  stmt_branch := fun allowed listed name declares => by
    rcases List.mem_cons.mp listed with rfl | other
    · exact allowed name (.yes declares)
    · obtain rfl := Option.mem_toList.mp other
      exact allowed name (.no declares)
  stmt_loop allowed name declares := allowed name (.body declares)
  stmt_block _ free' _ name _ := free' name
  stmt_var allowed := allowed _ (.var rfl)
  stmt_function allowed := allowed _ (.function rfl)
  value_closure _ _ _ := trivial
  scope_closure _ := trivial
  stmt_closure _ free' _ name _ := free' name
  stop_raised _ _ := trivial
  stop_misplaced _ := trivial
  stop_tooDeep := trivial
  stop_endless := trivial

namespace Run

variable (turns depth : Nat) (w : World) (id : ScopeId)

/-- Evaluating binds no new name in the scopes that existed before. -/
theorem evaluate_gained (e : Expr) :
    w.store.Gained (fun _ _ => False) ((evaluate turns depth e id).after w).store := by
  have start := Store.Gained.refl w.store fun _ _ => False
  have ends := (Discipline.binding _ _).evaluate_keeps turns depth id start (e := e) trivial trivial
  exact ends.after.2

/-- Running a statement binds new names in the scope it runs in only, and only those that it declares. This
holds however the run ends, so also after a fault in the middle. -/
theorem execute_gained (s : Stmt) :
    w.store.Gained (fun k name => k = id ∧ s.Declares name) ((execute turns depth s id).after w).store := by
  have start := Store.Gained.refl w.store fun k name => k = id ∧ s.Declares name
  have allowed : ∀ name, s.Declares name → w.store.next ≤ id ∨ id = id ∧ s.Declares name :=
    fun name declares => .inr ⟨rfl, declares⟩
  have ends := (Discipline.binding _ _).execute_keeps turns depth id start allowed trivial
  exact ends.after.2

/-- A call binds no new name in the scopes that existed before: its parameters and its body have scopes of their
own. -/
theorem callClosure_gained (c : Closure) (arguments : List Value) :
    w.store.Gained (fun _ _ => False) ((callClosure (execute turns depth) c arguments).after w).store := by
  have start := Store.Gained.refl w.store fun _ _ => False
  have ends := (Discipline.binding _ _).closure_keeps turns depth start (c := c) trivial
    (fun v (_ : v ∈ arguments) => trivial)
  exact ends.after.2

/-- A statement that declares nothing binds nothing in the scopes that existed before, whatever it calls. -/
theorem execute_gained_none {s : Stmt} (silent : ∀ name, ¬ s.Declares name) :
    w.store.Gained (fun _ _ => False) ((execute turns depth s id).after w).store := by
  have gained := execute_gained turns depth w id s
  refine ⟨gained.later, gained.keeps, fun k old name bound => ?_⟩
  rcases gained.gains k old name bound with before | ⟨-, declares⟩
  · exact .inl before
  · exact absurd declares (silent name)

/-- An assignment changes what names mean, and never which names are bound. -/
theorem assign_binds_iff (target : Token) (value : Value) (k : ScopeId) (name : String) :
    ((assign id target value).after w).store.Binds k name ↔ w.store.Binds k name := by
  unfold after assign
  cases owned : w.store.owner? id target.lexeme with
  | none => rfl
  | some owner =>
      have bound := (Store.owner?_some owned).2
      refine Store.binds_define.trans ⟨?_, .inl⟩
      rintro (before | ⟨rfl, -, rfl⟩)
      · exact before
      · exact bound

/-- **Only declared names are bound.** However a run ends, the scopes that existed before keep their names, and
only the scope that a statement ran in can have new ones, which the statement declares. Blocks, calls, and all
statements of programs that are no declarations bind nothing outside the scopes that they make, and an
assignment binds nothing at all. -/
theorem binds_only_declared_names :
    (∀ e, ∀ k < w.store.next, ∀ name,
      ((evaluate turns depth e id).after w).store.Binds k name ↔ w.store.Binds k name) ∧
    (∀ s, ∀ k < w.store.next, ∀ name,
      (w.store.Binds k name → ((execute turns depth s id).after w).store.Binds k name) ∧
      (((execute turns depth s id).after w).store.Binds k name →
        w.store.Binds k name ∨ (k = id ∧ s.Declares name))) ∧
    (∀ c arguments, ∀ k < w.store.next, ∀ name,
      ((callClosure (execute turns depth) c arguments).after w).store.Binds k name ↔
        w.store.Binds k name) ∧
    (∀ s, (∃ body, s = .block body) ∨ (s.Read ∧ s.isDeclaration = false) →
      ∀ k < w.store.next, ∀ name,
        ((execute turns depth s id).after w).store.Binds k name ↔ w.store.Binds k name) ∧
    (∀ target value k name,
      ((assign id target value).after w).store.Binds k name ↔ w.store.Binds k name) := by
  refine ⟨fun e k old name => ?_, fun s k old name => ?_, fun c arguments k old name => ?_, ?_,
    assign_binds_iff w id⟩
  · exact (evaluate_gained turns depth w id e).binds_iff old name
  · have gained := execute_gained turns depth w id s
    exact ⟨gained.keeps k old name, gained.gains k old name⟩
  · exact (callClosure_gained turns depth w c arguments).binds_iff old name
  · intro s inner k old name
    have silent : ∀ name, ¬ s.Declares name := by
      rcases inner with ⟨body, rfl⟩ | ⟨read, alone⟩
      · intro name declares
        cases declares
      · intro name declares
        rw [declares.isDeclaration read] at alone
        cases alone
    exact (execute_gained_none turns depth w id silent).binds_iff old name

end Run

end Treewalk

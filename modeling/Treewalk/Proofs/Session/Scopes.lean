import Treewalk.Proofs.Session.Report
import Treewalk.Proofs.Store.Rooted

/-!
The scopes of a session. Whatever runs, the store only ever takes single steps, and they keep the tree of
scopes. So in all states of a session each scope lies inside an older one and stays where it is, and every
search outwards ends, also from the scope of a function that is stored in that same scope.
-/

namespace Treewalk

/-- Runs that take a store from `start` by single steps. Scopes and values are as in well-scoped runs. -/
def Discipline.stepping (start : Store) : Discipline :=
  { Discipline.wellScoped with
    store := fun t => start.Steps t ∧ t.Rooted
    store_add := fun held present =>
      ⟨⟨held.1.tail (.add present), held.2.step (.add present)⟩, Nat.lt_succ_self _, fun _ => trivial⟩
    store_define := fun held present _ lives =>
      ⟨held.1.tail (.define present lives), held.2.step (.define present lives)⟩
    store_assign := fun held _ owned lives => by
      have present := Store.lt_next_of_owner? owned
      exact ⟨held.1.tail (.define present lives), held.2.step (.define present lives)⟩
    value_get := fun held _ found => by
      obtain ⟨k, -, bound⟩ := Store.get?_some found
      exact held.2.livesIn bound }

/-- A world begins with the globals alone, in which only natives are bound. -/
theorem World.initial_rooted (clock : Clock) : (World.initial clock).store.Rooted := by
  have one : (World.initial clock).store.next = 1 := rfl
  refine ⟨World.initial_wellScoped clock, ?_, fun id present _ => ?_⟩
  · rw [one]
    exact Nat.zero_lt_one
  · rw [one] at present
    exact Nat.lt_one_iff.mp present

namespace Run

section Steps

variable (turns depth : Nat) {id : ScopeId} {w : World} (rooted : w.store.Rooted) (present : id < w.store.next)

include rooted present

/-- Evaluating an expression takes single steps, however it ends. The discipline of steps is that of the store,
with every allowed value living in a scope that exists. -/
theorem evaluate_steps (e : Expr) : w.store.Steps ((evaluate turns depth e id).after w).store :=
  ((Discipline.stepping w.store).evaluate_keeps turns depth id ⟨.refl, rooted⟩ (e := e) trivial
    present).after.2.1

/-- Running a statement takes single steps, however it ends. -/
theorem execute_steps (stmt : Stmt) : w.store.Steps ((execute turns depth stmt id).after w).store :=
  ((Discipline.stepping w.store).execute_keeps turns depth id ⟨.refl, rooted⟩ (s := stmt) trivial
    present).after.2.1

end Steps

end Run

/-- Whether a value is a function that lives in a scope. -/
def Value.livesAt (id : ScopeId) : Value → Bool
  | .function (.closure c) => c.scope == id
  | .const _ | .function (.native _) => false

/-- Only functions of programs live in scopes, so a value that lives in one is such a function and names
the scope. -/
theorem Value.exists_closure_of_livesAt {id : ScopeId} {v : Value} (lived : v.livesAt id = true) :
    ∃ c, v = .function (.closure c) ∧ c.scope = id := by
  cases v with
  | const c => cases lived
  | function f =>
      cases f with
      | native n => cases lived
      | closure c => exact ⟨c, rfl, eq_of_beq lived⟩

namespace Session

variable {s : Session}

/-- A run changes the store by single steps, whatever it prints and however it ends. A source that is rejected
takes none. -/
theorem run_steps (limits : Limits) (source : String) (rooted : s.world.store.Rooted) :
    s.world.store.Steps (s.run limits source).session.world.store := by
  rw [store_run]
  rcases outcome_cases limits s source s.start with ⟨-, same⟩ | ⟨p, -, static | ⟨-, w, same, ran⟩⟩
  · rw [same]
    exact .refl
  · rw [static]
    exact .refl
  · rw [ran, Session.world_interpret]
    obtain same : w.store = s.world.store := same
    rw [← same] at rooted ⊢
    have allowed : ∀ stmt ∈ p.statements, (Discipline.stepping w.store).stmt World.globals stmt :=
      fun _ _ => trivial
    have ends := Discipline.executeProgram_keeps limits allowed rooted.globals w (Nat.le_refl _) ⟨.refl, rooted⟩
    exact ends.after.2.1

/-- So do several runs. By induction over the sources. -/
theorem runAll_steps (limits : Limits) (sources : List String) (rooted : s.world.store.Rooted) :
    s.world.store.Steps (s.runAll limits sources).world.store := by
  induction sources generalizing s with
  | nil => exact .refl
  | cons source sources ih =>
      have first := run_steps limits source rooted
      rw [runAll_cons]
      exact first.trans (ih (rooted.steps first))

/-- **Every chain of scopes ends at the globals.** Every state of a session comes from its first one by single
steps of the store. In each store that such steps lead to, a scope lies inside an older one or is the globals,
and stays so; every function in it lives in a scope that exists; from every scope that exists the way outwards
ends at the globals, and the search for any name ends. Running any code takes such steps again. -/
theorem scope_chains_end {guard : Guard} {path : String} {interactive showOutlines : Bool} {clock : Clock}
    (opened : Session.open guard path interactive showOutlines clock = .ok s) :
    (∀ limits sources, s.world.store.Steps (s.runAll limits sources).world.store) ∧
    ∀ t, s.world.store.Steps t →
      (∀ id outer, t.enclosing? id = some outer → outer < id) ∧
      (∀ later, t.Steps later → ∀ id < t.next, id < later.next ∧ later.enclosing? id = t.enclosing? id) ∧
      (∀ id name c, (name, .function (.closure c)) ∈ t.bindings id → c.scope < t.next) ∧
      (∀ id < t.next,
        (∀ way, t.Path id way ↔ way = t.chain id) ∧ (t.chain id).getLast? = some World.globals ∧
        ∀ name, (∀ owner, t.Finds name id owner ↔ owner = t.owner? id name) ∧
          t.get? id name = (t.owner? id name).bind fun k => (t.bindings k).find? name) ∧
      ∀ turns depth id (w : World), w.store = t → id < t.next →
        (∀ e, t.Steps ((Run.evaluate turns depth e id).after w).store) ∧
        ∀ stmt, t.Steps ((Run.execute turns depth stmt id).after w).store := by
  have rooted : s.world.store.Rooted := by
    rw [(open_eq opened).2]
    exact World.initial_rooted clock
  refine ⟨fun limits sources => runAll_steps limits sources rooted, fun t steps => ?_⟩
  replace rooted := rooted.steps steps
  refine ⟨fun _ _ => rooted.enclosing, ?_, fun _ _ _ => rooted.closures, ?_, ?_⟩
  · intro later steps id present
    obtain ⟨grown, same⟩ := steps.stays
    exact ⟨Nat.lt_of_lt_of_le present grown, same id present⟩
  · intro id present
    have climbs := Store.path_chain rooted.enclosing id
    refine ⟨fun way => ⟨fun other => other.unique climbs, fun same => same ▸ climbs⟩,
      rooted.getLast?_path climbs present, fun name => ⟨fun owner => ?_, ?_⟩⟩
    · have finds := Store.finds_owner? rooted.enclosing name id
      exact ⟨fun other => other.unique finds, fun same => same ▸ finds⟩
    · exact Store.get?_eq_bind_owner? rooted.enclosing name id
  · rintro turns depth id w rfl present
    exact ⟨Run.evaluate_steps turns depth rooted present, Run.execute_steps turns depth rooted present⟩

/-- Stores a function in the scope that it lives in, the scope of a call. -/
def innerSource : String :=
  "fun make() \x7b fun inner() \x7b return inner; \x7d return inner; \x7d var g = make();"

/-- A function made inside a call lives in the scope of that call, from which the globals are one step away. A
name that is bound nowhere is looked for in both, and found in none. -/
theorem scope_chains_end_inner :
    let s : Session := ⟨⟨true, .plain⟩, "program", false, .initial .stopped⟩
    let t := (s.runAll ⟨40, 9⟩ [innerSource]).world.store
    Session.open ⟨true, .plain⟩ "program" false false .stopped = .ok s ∧
      ∃ c, ("inner", .function (.closure c)) ∈ t.bindings 1 ∧ c.scope = 1 ∧ c.scope < t.next ∧
        t.Path c.scope [1, World.globals] ∧ t.Finds "missing" c.scope none := by
  intro s t
  have opened : Session.open ⟨true, .plain⟩ "program" false false .stopped = .ok s := rfl
  obtain ⟨steps, trees⟩ := scope_chains_end opened
  obtain ⟨-, -, lives, ends, -⟩ := trees t (steps ⟨40, 9⟩ [innerSource])
  have held : (t.bindings 1).any (fun b => b.1 == "inner" && b.2.livesAt 1) = true := by decide +kernel
  obtain ⟨⟨name, v⟩, bound, inner⟩ := List.any_eq_true.mp held
  obtain ⟨same, lived⟩ := Bool.and_eq_true_iff.mp inner
  obtain rfl : name = "inner" := eq_of_beq same
  obtain ⟨c, rfl, scope⟩ := Value.exists_closure_of_livesAt lived
  have present := lives 1 "inner" c bound
  obtain ⟨paths, -, searches⟩ := ends c.scope present
  refine ⟨opened, c, bound, scope, present, (paths _).mpr ?_, ((searches "missing").1 none).mpr ?_⟩
  · rw [scope]
    decide +kernel
  · rw [scope]
    decide +kernel

end Session

end Treewalk

import Treewalk.Program
import Treewalk.Proofs.Reading
import Treewalk.Proofs.Run.EmptyScopes
import Treewalk.Proofs.Run.WellScoped

/-!
What a `for` loop does. It is read as a `while` loop with its clauses around and inside it, and running that
tree does what the clauses ask for directly: the first clause once, in a scope of its own; then, as long as
the condition holds, the body and the increment, all in that one scope. The tree makes a further scope in
every turn. A statement declares nothing in the scope that it runs in; so that scope stays empty and is
never seen.
-/

namespace Treewalk

/-! ### Statements declare nothing where they run -/

namespace Stmt

/-- A statement binds no name in the scope that it runs in. -/
def DeclaresNothing (s : Stmt) : Prop := ∀ name, ¬ s.Declares name

theorem DeclaresNothing.loop {condition : Expr} {body : Stmt} (none : body.DeclaresNothing) :
    (Stmt.loop condition body).DeclaresNothing := by
  intro name declares
  cases declares with
  | body inner => exact none name inner

/-- A branch declares nothing around it when its arms do not. -/
theorem DeclaresNothing.branch {condition : Expr} {yes : Stmt} {no : Option Stmt} (first : yes.DeclaresNothing)
    (second : ∀ s ∈ no, s.DeclaresNothing) : (Stmt.branch condition yes no).DeclaresNothing := by
  intro name declares
  cases declares with
  | yes inner => exact first name inner
  | no inner => exact second _ rfl name inner

/-- What a block declares stays inside it, whatever the statements of the block are. -/
theorem DeclaresNothing.block (body : List Stmt) : (Stmt.block body).DeclaresNothing := by
  intro name declares
  cases declares

/-- A loop with clauses declares nothing around it: a declared counter lives in a block of its own. -/
theorem DeclaresNothing.forLoop (initial : Option Stmt) (condition increment : Option Expr) {body : Stmt}
    (none : body.DeclaresNothing) : (Stmt.forLoop initial condition increment body).DeclaresNothing := by
  cases initial with
  | some s => exact .block _
  | none =>
      cases increment with
      | none => exact none.loop
      | some e => exact (DeclaresNothing.block _).loop

end Stmt

/-- The clauses and the body of a `for` loop. -/
structure ForClauses where
  initial : Option Stmt
  condition : Option Expr
  increment : Option Expr
  body : Stmt

namespace ForClauses

/-- The tree that stands for the loop. -/
def tree (c : ForClauses) : Stmt := .forLoop c.initial c.condition c.increment c.body

/-- The part of the tree that is one turn. -/
def turnTree (c : ForClauses) : Stmt :=
  match c.increment with
  | none => c.body
  | some e => .block [c.body, .expression e]

/-- The part of the tree after the first clause. -/
def loopTree (c : ForClauses) : Stmt := .loop (c.condition.getD (.literal (.bool true))) c.turnTree

/-- The tree of a `for` loop has a block around it exactly when there is a first clause. -/
theorem tree_eq (c : ForClauses) :
    c.tree = match c.initial with
      | none => c.loopTree
      | some s => .block [s, c.loopTree] := rfl

end ForClauses

namespace Parse

variable {α β : Type} {P : α → Prop} {Q : β → Prop} {p : Parse α} {q : α → Parse β}

/-- Whatever a reader gives satisfies `P`. -/
def Gives (P : α → Prop) (p : Parse α) : Prop := ∀ c a d, p c = .ok a d → P a

/-- Sequencing. The second reader may rely on what the first one gave. -/
theorem Gives.bind (first : Gives P p) (next : ∀ a, P a → Gives Q (q a)) : Gives Q (p >>= q) := by
  intro c b e read
  rw [bind_apply] at read
  cases computed : p c with
  | error stop d => simp [computed] at read
  | ok a d =>
      rw [computed] at read
      exact next a (first c a d computed) d b e read

/-- What is given does not depend on what was read before. This is the law for a reader whose last
step decides. -/
theorem Gives.behind (next : ∀ a, Gives Q (q a)) : Gives Q (p >>= q) :=
  Gives.bind (P := fun _ => True) (fun _ _ _ _ => trivial) fun a _ => next a

theorem Gives.pure {a : α} (holds : P a) : Gives P (Pure.pure a) := by
  rintro c b d ⟨⟩
  exact holds

/-- What is built from a result has what the result brings along. -/
theorem Gives.map {f : α → β} (gives : Gives P p) (mapped : ∀ a, P a → Q (f a)) : Gives Q (f <$> p) := by
  rw [map_eq_pure_bind]
  exact gives.bind fun a holds => .pure (mapped a holds)

theorem tooDeep_gives : Gives P tooDeep := by
  rintro c a d ⟨⟩

/-- A part behind a sign, where there is one, is what its reader gives. -/
theorem afterSign_gives {kind : TokenKind} (gives : Gives P p) :
    Gives (fun o => ∀ a ∈ o, P a) (afterSign kind p) := by
  apply Gives.behind
  intro sign
  cases sign with
  | none => exact .pure (by simp)
  | some t => exact gives.map fun a holds => by simpa using holds

/-- Reads the clauses and the body of a `for` loop after its keyword. -/
def forClauses (expr : Parse Expr) (body : Parse Stmt) : Parse ForClauses := do
  let _ ← expect .leftParen .parenAfterFor
  let initial ← forInitial expr
  let condition ← unlessNext .semicolon expr
  let _ ← expect .semicolon .semicolonAfterCondition
  let increment ← unlessNext .rightParen expr
  let _ ← expect .rightParen .parenAfterClauses
  return ⟨initial, condition, increment, ← body⟩

/-- Reading a `for` loop is reading its clauses and then building the tree, so that both sides of the comparison
come from one reading. -/
theorem forRest_eq_map (expr : Parse Expr) (body : Parse Stmt) :
    forRest expr body = ForClauses.tree <$> forClauses expr body := by
  simp [forRest, forClauses, ForClauses.tree]

/-- The body of a `for` loop is a statement, and so declares nothing around it. -/
theorem forClauses_gives {expr : Parse Expr} {body : Parse Stmt} (gives : Gives Stmt.DeclaresNothing body) :
    Gives (fun c : ForClauses => c.body.DeclaresNothing) (forClauses expr body) := by
  iterate 6
    apply Gives.behind
    intro _
  exact gives.map fun s none => none

/-- No statement is a declaration, or a branch or loop around one. Declarations are read in blocks and in the
first clause of a `for` loop, which stands in a block of its own. By induction over the depth. -/
theorem statement_gives (depth : Nat) (f : Bool) : Gives Stmt.DeclaresNothing (statement depth f) := by
  induction depth with
  | zero => exact tooDeep_gives
  | succ depth ih =>
      unfold statement
      apply Gives.behind
      intro o
      cases o with
      | none => exact .behind fun e => .behind fun _ => .pure nofun
      | some t =>
          dsimp only
          split
          · rw [forRest_eq_map]
            exact (forClauses_gives ih).map fun c none => none.forLoop _ _ _
          · refine .behind fun _ => .behind fun condition => .behind fun _ => ih.bind fun yes first => ?_
            exact (afterSign_gives ih).bind fun no second => .pure (first.branch second)
          · exact .behind fun e => .behind fun _ => .pure nofun
          · exact .behind fun _ => .behind fun value => .behind fun _ => .pure nofun
          · refine .behind fun _ => .behind fun condition => .behind fun _ => ?_
            exact ih.map fun body none => none.loop
          · exact .map (P := fun _ => True) (fun _ _ _ _ => trivial) fun body _ => .block body

end Parse

/-! ### The direct loop -/

namespace ForClauses

open Run

variable (turns depth : Nat) (c : ForClauses)

/-- Evaluates the condition, which holds when it is left out. -/
def test (scope : ScopeId) : Run Value :=
  match c.condition with
  | none => return .bool true
  | some e => evaluate turns depth e scope

/-- Evaluates the increment, if there is one, and drops its value. -/
def increase (scope : ScopeId) : Run Unit :=
  match c.increment with
  | none => return ()
  | some e => do
    let _ ← evaluate turns depth e scope
    return ()

/-- The loop after its first clause, with so many turns left: while the condition holds, the body and then the
increment. A body that returns ends the loop, and the increment of that turn is left out. -/
def repeated (scope : ScopeId) : Nat → Run Flow
  | 0 => stop .endless
  | left + 1 => do
    if (← c.test turns depth scope).isTruthy then
      match ← execute turns depth c.body scope with
      | .normal =>
        c.increase turns depth scope
        repeated scope left
      | .returning v => return .returning v
    else return .normal

/-- The whole loop. The first clause runs in a new scope, and the loop goes on there; without a first
clause there is no new scope. -/
def run (scope : ScopeId) : Run Flow :=
  match c.initial with
  | none => c.repeated turns depth scope turns
  | some s => do
    let inner ← enter scope
    match ← execute turns depth s inner with
    | .normal => c.repeated turns depth inner turns
    | .returning v => return .returning v

end ForClauses

namespace Run

/-- Passing on what a step gives, unchanged, is the step. -/
theorem bind_returning (p : Run Flow) :
    (p >>= fun | .normal => pure .normal | .returning v => pure (.returning v)) = p := by
  have same : (fun | .normal => pure .normal | .returning v => pure (.returning v) : Flow → Run Flow) = pure := by
    funext flow
    cases flow <;> rfl
  rw [same, bind_pure]

/-- A block of two statements: the second one runs unless the first one returns. -/
theorem executeAll_pair (execute : Stmt → Run Flow) (s t : Stmt) :
    executeAll execute [s, t] =
      execute s >>= fun | .normal => execute t | .returning v => pure (.returning v) := by
  have last : executeAll execute [t] = execute t := bind_returning (execute t)
  rw [← last]
  rfl

end Run

/-! ### The tree does what the direct loop does -/

namespace Simulation

/-- The simulation of the direct loop by the tree. The tree nests one to four levels deeper than the direct
loop, so it may be cut short unless it has four levels more, and the direct loop only if the tree has more
than one. -/
abbrev treeOverDirect (depth direct : Nat) : Simulation :=
  .collapsing (depth < direct + 4) (direct + 1 < depth)

/-- Code inside the loop runs alike in the tree and in the direct loop, although the tree has more scopes around
it and less depth left. -/
theorem code_simulates (turns depth direct x : Nat) (least : depth ≤ x + 4) (most : x + 1 ≤ depth) :
    (∀ (r : Collapse) e i j, r.reads i j → (treeOverDirect depth direct).Simulates
      (treeOverDirect depth direct).value r (Run.evaluate turns x e i) (Run.evaluate turns direct e j)) ∧
    ∀ r s i j, (treeOverDirect depth direct).Runs r i j s → (treeOverDirect depth direct).Simulates
      (treeOverDirect depth direct).flow r (Run.execute turns x s i) (Run.execute turns direct s j) := by
  have cut : x < direct → (treeOverDirect depth direct).cut := fun less =>
    Nat.lt_of_le_of_lt least (Nat.add_lt_add_right less 4)
  have cut' : direct < x → (treeOverDirect depth direct).cut' := fun less =>
    Nat.lt_of_lt_of_le (Nat.add_lt_add_right less 1) most
  have simulates := evaluate_execute_simulates turns cut cut'
  constructor
  · intro r e i j inside
    have alike := simulates.1 r 0 e i j (collapsing_shifts _ _) inside
    rwa [Expr.moved_zero] at alike
  · intro r s i j runs
    have alike := simulates.2 r 0 s i j rfl runs
    rwa [Stmt.moved_zero] at alike

/-- Where the tree goes too deep at once it had fewer than four levels, so it may be cut short there. -/
theorem tooDeep_simulates {α β : Type} {like : Collapse → α → β → Prop} {depth direct : Nat} {r : Collapse}
    (short : depth < 4) {p : Run β} :
    (treeOverDirect depth direct).Simulates like r (Run.stop .tooDeep) p :=
  fun _ _ _ _ _ => .cut (Nat.lt_of_lt_of_le short (Nat.le_add_left 4 direct))

end Simulation

namespace ForClauses

open Simulation

variable {turns depth direct x : Nat} {r : Collapse} {i j : ScopeId} (c : ForClauses)

/-- One turn of the direct loop after its condition: the body, and then the increment unless the body returned. -/
def turn (c : ForClauses) (turns depth : Nat) (scope : ScopeId) : Run Flow := do
  match ← Run.execute turns depth c.body scope with
  | .normal =>
    c.increase turns depth scope
    return .normal
  | .returning v => return .returning v

/-- Turn by turn, the direct loop is a loop over its condition and its turns, so what is known of loops in runs
can be used for it. -/
theorem repeated_eq_turning (scope : ScopeId) (left : Nat) :
    c.repeated turns depth scope left =
      Run.turning (c.test turns depth scope) (c.turn turns depth scope) left := by
  induction left with
  | zero => rfl
  | succ left ih =>
      unfold repeated Run.turning
      rw [← ih]
      congr 1
      funext v
      split
      · rw [turn, bind_assoc]
        congr 1
        funext flow
        cases flow with
        | normal => simp only [bind_assoc, pure_bind]
        | returning v => rw [pure_bind]
      · rfl

/-- The condition is tested alike. A missing one is the constant true in the tree. -/
theorem test_simulates (least : depth ≤ x + 2) (most : x + 1 ≤ depth) (inside : r.reads i j) :
    (treeOverDirect depth direct).Simulates (treeOverDirect depth direct).value r
      (Run.evaluate turns x (c.condition.getD (.literal (.bool true))) i) (c.test turns direct j) := by
  unfold test
  cases c.condition with
  | some e => exact (code_simulates turns depth direct x (by omega) most).1 r e i j inside
  | none =>
      cases x with
      | zero => exact tooDeep_simulates (by omega)
      | succ x => exact .pure fun _ _ => .const _

/-- One turn. With an increment, the tree makes a scope around the body and the increment. Neither declares
anything, so the scope stays empty. -/
theorem turn_simulates (silent : c.body.DeclaresNothing) (least : depth ≤ x + 2) (most : x + 1 ≤ depth)
    (inside : r.reads i j) :
    (treeOverDirect depth direct).Simulates (treeOverDirect depth direct).flow r
      (Run.execute turns x c.turnTree i) (c.turn turns direct j) := by
  unfold turn increase turnTree
  cases c.increment with
  | none =>
      have body := (code_simulates turns depth direct x (by omega) most).2 r c.body i j ⟨inside, .inr silent⟩
      rw [← Run.bind_returning (Run.execute turns direct c.body j)] at body
      exact body
  | some e =>
      cases x with
      | zero => exact tooDeep_simulates (by omega)
      | succ x =>
          apply enterEmpty_simulates inside
          intro r₁ inner later inside'
          rw [Run.executeAll_pair]
          have body := (code_simulates turns depth direct x (by omega) (by omega)).2 r₁ c.body inner j
            ⟨inside', .inr silent⟩
          apply body.unlessReturned
          intro r₂ later'
          cases x with
          | zero => exact tooDeep_simulates (by omega)
          | succ x =>
              have step := (code_simulates turns depth direct x (by omega) (by omega)).1 r₂ e inner j
                (later'.reads inside')
              rw [bind_assoc]
              apply step.bind
              intro r₃ _ _ _ _
              exact .pure fun _ _ => .normal

/-- The turns of the loop run alike, each one starting where the last one ended. As `repeated_eq_turning` makes
the direct loop a loop of runs, both sides are loops over their conditions and turns. -/
theorem repeated_simulates (silent : c.body.DeclaresNothing) (least : depth ≤ x + 1) (most : x ≤ depth)
    (inside : r.reads i j) :
    (treeOverDirect depth direct).Simulates (treeOverDirect depth direct).flow r
      (Run.execute turns x c.loopTree i) (c.repeated turns direct j turns) := by
  cases x with
  | zero => exact tooDeep_simulates (by omega)
  | succ x =>
      rw [repeated_eq_turning]
      exact turning_simulates (collapsing_shifts _ _) (test_simulates c (by omega) (by omega) inside)
        (turn_simulates c silent (by omega) (by omega) inside) turns

/-- **The tree and the direct loop run alike.** With a first clause both open a scope for it, and these two
scopes are twins, so the clause may declare a counter. -/
theorem tree_simulates (silent : c.body.DeclaresNothing) (inside : r.reads i j) :
    (treeOverDirect depth direct).Simulates (treeOverDirect depth direct).flow r
      (Run.execute turns depth c.tree i) (c.run turns direct j) := by
  rw [c.tree_eq]
  unfold run
  cases c.initial with
  | none => exact repeated_simulates c silent (Nat.le_succ _) (Nat.le_refl _) inside
  | some s =>
      cases depth with
      | zero => exact tooDeep_simulates (by omega)
      | succ depth =>
          apply (enter_simulates inside).bind
          intro r₁ inner inner' later twins
          rw [Run.executeAll_pair]
          have first := (code_simulates turns (depth + 1) direct depth (by omega) (Nat.le_refl _)).2 r₁ s inner
            inner' (.of_binds twins s)
          apply first.unlessReturned
          intro r₂ later'
          exact repeated_simulates c silent (Nat.le_refl _) (Nat.le_succ _)
            (later'.reads (r₁.reads_of_twins twins))

end ForClauses

/-- Worlds that are alike up to empty scopes. The scopes below `n` are their own twins: each of them binds
the same names in both worlds, to values that are alike. -/
structure World.Collapses (n : Nat) (c : Collapse) (w w' : World) : Prop where
  store : c.Holds w.store w'.store
  old : ∀ id < n, c.twins id id
  printed : w'.printed = w.printed
  functions : w'.functions = w.functions
  clock : w'.clock = w.clock

/-- Runs that end alike up to empty scopes: both normally, both with a value that they return, or both with
the same stop. -/
inductive Run.Alike (n : Nat) : Run.Outcome Flow → Run.Outcome Flow → Prop where
  | ended {c flow flow' w w'} : World.Collapses n c w w' → Flow.Like (Value.Like sameCode c.reads) flow flow' →
      Alike n (.ok flow w) (.ok flow' w')
  | stopped {c e w w'} : World.Collapses n c w w' → Alike n (.error e w) (.error e w')

/-- Worlds that a simulation relates are the same apart from scopes in which nothing is bound. They have printed
the same lines, and count functions and read the clock alike. -/
theorem Simulation.Related.collapses {cut cut' : Prop} {n : Nat} {c : Collapse} {w w' : World}
    (later : (Collapse.identity n).Later c) (related : (collapsing cut cut').Related c w w') :
    World.Collapses n c w w' where
  store := related.store
  old _ present := later.twins ⟨present, rfl⟩
  printed := Array.toList_inj.mp related.printed
  functions := related.functions
  clock := related.clock

/-- **A `for` loop is its clauses.** Running the tree that a `for` loop is read as is running its clauses
directly, in every well-scoped world; runs get to no others (`Run.execute_wellScoped`). Only where one of the
two has not enough depth left can it be cut short. -/
theorem Parse.forRest_runs_clauses (n : Nat) (f : Bool) {start stop : Cursor} {tree : Stmt}
    (read : forRest (expression n .assignment) (statement n f) start = .ok tree stop) :
    ∃ clauses, forClauses (expression n .assignment) (statement n f) start = .ok clauses stop ∧
      ∀ (turns depth direct : Nat) (scope : ScopeId) (w : World), w.store.WellScoped → scope < w.store.next →
        Run.Alike w.store.next (Run.execute turns depth tree scope w) (clauses.run turns direct scope w) ∨
        depth < direct + 4 ∧ (∃ w', Run.execute turns depth tree scope w = .error .tooDeep w') ∨
        direct + 1 < depth ∧ ∃ w', clauses.run turns direct scope w = .error .tooDeep w' := by
  rw [forRest_eq_map, map_apply] at read
  cases found : forClauses (expression n .assignment) (statement n f) start with
  | error e d => simp [found] at read
  | ok clauses d =>
      rw [found] at read
      cases read
      refine ⟨clauses, rfl, fun turns depth direct scope w proper present => ?_⟩
      have silent := forClauses_gives (statement_gives n f) start clauses _ found
      have inside : (Collapse.identity w.store.next).reads scope scope := ⟨present, rfl⟩
      have agrees : (Simulation.treeOverDirect depth direct).Agrees (Simulation.treeOverDirect depth direct).flow _
          (Run.execute turns depth clauses.tree scope w) (clauses.run turns direct scope w) :=
        clauses.tree_simulates silent inside _ w w ⟨id, id⟩ ⟨Collapse.identity_holds proper, rfl, rfl, rfl⟩
      generalize Run.execute turns depth clauses.tree scope w = o, clauses.run turns direct scope w = o' at agrees
      cases agrees with
      | ok later ended related => exact .inl (.ended (related.collapses later) ended)
      | stop later shifts related =>
          obtain ⟨_, rfl⟩ := shifts
          rw [Stop.moved_zero]
          exact .inl (.stopped (related.collapses later))
      | cut allowed => exact .inr (.inl ⟨allowed, _, rfl⟩)
      | cut' allowed => exact .inr (.inr ⟨allowed, _, rfl⟩)

/-- The rest of a loop whose turns make functions that remember the scope of their turn, and keep them
outside. -/
def Parse.keepingLoop : Cursor :=
  Program.cursor (Scan.ofSource
    "(var f; !f; f = clock) \x7b fun g() \x7b return f; \x7d clock = g; \x7d").tokens

/-- A loop whose body makes a function that keeps the scope of its turn, with the counter outside of it. Both
ways of running the loop end alike. -/
theorem Parse.forRest_runs_keepingLoop : ∃ (tree : Stmt) (stop : Cursor) (clauses : ForClauses),
    forRest (expression 30 .assignment) (statement 30 false) keepingLoop = .ok tree stop ∧
    forClauses (expression 30 .assignment) (statement 30 false) keepingLoop = .ok clauses stop ∧
    Run.Alike 1 (Run.execute 9 40 tree World.globals (.initial .stopped))
      (clauses.run 9 30 World.globals (.initial .stopped)) := by
  have reads : (match forRest (expression 30 .assignment) (statement 30 false) keepingLoop with
      | .ok _ _ => true
      | .error _ _ => false) = true := by decide +kernel
  have ends : (match forClauses (expression 30 .assignment) (statement 30 false) keepingLoop with
      | .ok clauses _ =>
        match clauses.run 9 30 World.globals (.initial .stopped) with
        | .ok _ _ => true
        | .error _ _ => false
      | .error _ _ => false) = true := by decide +kernel
  cases read : forRest (expression 30 .assignment) (statement 30 false) keepingLoop with
  | error e d => simp [read] at reads
  | ok tree stop =>
      obtain ⟨clauses, found, alike⟩ := forRest_runs_clauses 30 false read
      refine ⟨tree, stop, clauses, rfl, found, ?_⟩
      rw [found] at ends
      rcases alike 9 40 30 World.globals (.initial .stopped) (World.initial_wellScoped _) (by decide) with
        same | ⟨short, -⟩ | ⟨-, w', stopped⟩
      · exact same
      · exact absurd short (by decide)
      · simp [stopped] at ends

end Treewalk

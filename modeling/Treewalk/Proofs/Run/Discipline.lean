import Treewalk.Proofs.Store
import Treewalk.Proofs.Tree.WellFormed
import Treewalk.Run.Evaluate

/-!
Invariants of running programs. A discipline says what may hold of the store at all times, which scopes
code may run in, which values may be held, and which expressions, statements and stops may occur. Its
laws speak of single steps only: making a scope, binding a name, finding a value, declaring and calling a
function. `Discipline.execute_keeps` and `Discipline.evaluate_keeps` say that a run of any length then
keeps to the discipline, whether it ends normally, returns or stops.

What is allowed may grow with the number of scopes that exist, `n` below, but never shrinks.
-/

namespace Treewalk

/-- The stops that an expression can cause itself, apart from those of the expressions under it. -/
inductive Expr.Raises : Expr → Stop → Prop where
  | operand {op e} : Raises (.unary op e) (.fault (.operandNotNumber op))
  | operands {left op right} : Raises (.binary left op right) (.fault (.operandsNotNumbers op))
  | addends {left op right} : Raises (.binary left op right) (.fault (.operandsNotAddable op))
  | division {left op right} : Raises (.binary left op right) (.fault (.divisionByZero op))
  | operator {left op right} : op.kind ∉ binaryOperators →
      Raises (.binary left op right) (.unknownOperator op)
  | name {name} : Raises (.variable name) (.fault (.undefinedVariable name))
  | target {name value} : Raises (.assign name value) (.fault (.undefinedVariable name))
  | arity {callee paren arguments expected got} :
      Raises (.call callee paren arguments) (.fault (.arityMismatch paren expected got))
  | callee {callee paren arguments} : Raises (.call callee paren arguments) (.fault (.notCallable paren))
  | misplaced {found} : Raises (.misplaced found) (.unknownExpression (Expr.misplaced found).form)

namespace Run

variable {α β : Type}

/-- What a step of a run gives back. -/
abbrev Outcome (α : Type) := EStateM.Result Stop World α

/-- The world after a step, however the step ends. -/
def after (p : Run α) (w : World) : World :=
  match p w with
  | .ok _ w' => w'
  | .error _ w' => w'

/-- Two steps in a row, run from a world: the second one starts from the world that the first one leaves, and a
stop ends both. -/
theorem bind_apply (p : Run α) (q : α → Run β) (w : World) :
    (p >>= q) w = match p w with
      | .ok a w' => q a w'
      | .error e w' => .error e w' := by
  change EStateM.bind p q w = _
  unfold EStateM.bind
  cases p w <;> rfl

/-! ### Operators leave the world alone -/

/-- A step that gives a constant or stops with one of the stops in `S`, and changes nothing. -/
def Computes (S : Stop → Prop) (p : Run Value) : Prop :=
  ∀ w, (∃ c, p w = .ok (.const c) w) ∨ ∃ stop, S stop ∧ p w = .error stop w

/-- A constant is computed without a look at the world. -/
theorem Computes.pure {S : Stop → Prop} (c : Constant) : Computes S (Pure.pure (.const c)) :=
  fun _ => .inl ⟨c, rfl⟩

/-- A fault that the expression may raise is one of the two ways in which a computation may end. -/
theorem Computes.fault {S : Stop → Prop} {f : RuntimeFault} (raised : S (.fault f)) :
    Computes S (Run.fault f) :=
  fun _ => .inr ⟨_, raised, rfl⟩

/-- An operator with one operand gives a constant, or raises a fault that its expression may raise. -/
theorem unary_computes (op : Token) (e : Expr) (v : Value) :
    Computes (Expr.unary op e).Raises (unary op v) := by
  unfold unary
  split
  · exact .pure _
  · split
    · exact .pure _
    · exact .fault .operand

/-- Adding gives a number or a text, or complains about its operands. It has no other way to end, and does not
look at the world. -/
theorem add_computes (left right : Expr) (op : Token) (l r : Value) :
    Computes (Expr.binary left op right).Raises (add op l r) := by
  unfold add
  split
  · exact .pure _
  · exact .pure _
  · exact .pure _
  · exact .fault .addends

/-- With division by zero met before, arithmetic fails on unknown operators only. -/
theorem arithmetic_computes (left right : Expr) {op : Token} (x : Float) {y : Float}
    (others : op.kind ∉ [.equalEqual, .bangEqual, .plus])
    (nonzero : ¬ (op.kind = .slash ∧ (y == 0.0) = true)) :
    Computes (Expr.binary left op right).Raises (arithmetic op x y) := by
  unfold arithmetic
  split
  · exact .pure _
  · exact .pure _
  next kind =>
    have divisible : ¬ (y == 0.0) = true := fun zero => nonzero ⟨kind, zero⟩
    rw [if_neg divisible]
    exact .pure _
  · exact .pure _
  · exact .pure _
  · exact .pure _
  · exact .pure _
  next minus star slash greater greaterEqual less lessEqual =>
    have unknown : op.kind ∉ binaryOperators := by
      intro listed
      simp only [binaryOperators, Level.operators, List.cons_append, List.nil_append, List.mem_cons,
        List.not_mem_nil, or_false] at listed others
      grind
    exact fun _ => .inr ⟨_, .operator unknown, rfl⟩

/-- An operator with two operands gives a constant, or raises a fault that its expression may raise. Division by
zero is asked for before anything is computed. -/
theorem binary_computes (left right : Expr) (op : Token) (l r : Value) :
    Computes (Expr.binary left op right).Raises (binary op l r) := by
  unfold binary
  split
  · exact .pure _
  · exact .pure _
  · exact add_computes left right op l r
  next equal unequal plus =>
    split
    next x y =>
      split
      · exact .fault .division
      next nonzero =>
        have others : op.kind ∉ [.equalEqual, .bangEqual, .plus] := by
          simpa using ⟨equal, unequal, plus⟩
        exact arithmetic_computes left right x others nonzero
    · exact .fault .operands

end Run

/-- What runs keep to, with the laws that single steps have to obey. -/
structure Discipline where
  /-- Holds of the store at all times. -/
  store : Store → Prop
  /-- Scopes that code may run in. -/
  scope : Nat → ScopeId → Prop
  /-- Values that code may hold. -/
  value : Nat → Value → Prop
  /-- Names that declarations may bind in a scope. -/
  binds : ScopeId → String → Prop
  expr : Expr → Prop
  /-- Statements that may run in a scope. -/
  stmt : ScopeId → Stmt → Prop
  stop : Stop → Prop
  scope_mono {n m id} : n ≤ m → scope n id → scope m id
  value_mono {n m v} : n ≤ m → value n v → value m v
  value_const {n} (c : Constant) : value n (.const c)
  /-- A new scope may be run in and may bind any name. -/
  store_add {s outer} : store s → scope s.next outer →
    store (s.add (some outer)) ∧ scope (s.next + 1) s.next ∧ ∀ name, binds s.next name
  store_define {s id name v} : store s → scope s.next id → binds id name → value s.next v →
    store (s.define id name v)
  store_assign {s id name owner v} : store s → scope s.next id → s.owner? id name = some owner →
    value s.next v → store (s.define owner name v)
  value_get {s id name v} : store s → scope s.next id → s.get? id name = some v → value s.next v
  expr_child {e c} : expr e → c ∈ e.children → expr c
  stmt_expression {id s e} : stmt id s → e ∈ s.expressions → expr e
  stmt_branch {id condition yes no s} : stmt id (.branch condition yes no) → s ∈ yes :: no.toList →
    stmt id s
  stmt_loop {id condition body} : stmt id (.loop condition body) → stmt id body
  /-- The statements of a block may run in a scope that may bind any name. -/
  stmt_block {id body inner s} : stmt id (.block body) → (∀ name, binds inner name) → s ∈ body →
    stmt inner s
  stmt_var {id name initial} : stmt id (.var name initial) → binds id name.lexeme
  stmt_function {id name parameters body} : stmt id (.function name parameters body) →
    binds id name.lexeme
  value_closure {n id name parameters body} (number : Nat) :
    stmt id (.function name parameters body) → scope n id →
      value n (.function (.closure ⟨number, name, parameters, body, id⟩))
  scope_closure {n c} : value n (.function (.closure c)) → scope n c.scope
  stmt_closure {n c inner s} : value n (.function (.closure c)) → (∀ name, binds inner name) →
    s ∈ c.body → stmt inner s
  stop_raised {e st} : expr e → e.Raises st → stop st
  stop_misplaced {id found} : stmt id (.misplaced found) →
    stop (.unknownStatement (Stmt.misplaced found).form)
  stop_tooDeep : stop .tooDeep
  stop_endless : stop .endless

namespace Discipline

variable {α β : Type} (D : Discipline)

/-- An outcome that keeps to the discipline: at least `n` scopes exist, and a result satisfies `post`. -/
def Ends (n : Nat) (post : Nat → α → Prop) : Run.Outcome α → Prop
  | .ok a w => n ≤ w.store.next ∧ D.store w.store ∧ post w.store.next a
  | .error e w => n ≤ w.store.next ∧ D.store w.store ∧ D.stop e

/-- A step that keeps to the discipline wherever at least `n` scopes exist. -/
def Keeps (n : Nat) (post : Nat → α → Prop) (p : Run α) : Prop :=
  ∀ w, n ≤ w.store.next → D.store w.store → D.Ends w.store.next post (p w)

/-- How a statement may end. -/
def flow (n : Nat) : Flow → Prop
  | .normal => True
  | .returning v => D.value n v

variable {D} {n m : Nat} {post : Nat → α → Prop} {post' : Nat → β → Prop}

/-- What ends after a later count of scopes ends after every earlier one, as scopes are never taken away. -/
theorem Ends.mono {r : Run.Outcome α} (ends : D.Ends m post r) (later : n ≤ m) : D.Ends n post r := by
  cases r with
  | ok a w => exact ⟨Nat.le_trans later ends.1, ends.2⟩
  | error e w => exact ⟨Nat.le_trans later ends.1, ends.2⟩

/-- A step that keeps to the discipline does so wherever more scopes exist, since scopes and values that are
allowed stay so. -/
theorem Keeps.mono {p : Run α} (keeps : D.Keeps n post p) (later : n ≤ m) : D.Keeps m post p :=
  fun w enough => keeps w (Nat.le_trans later enough)

/-- Sequencing. The second step runs where at least as many scopes exist, with a result of which `post` is
known. -/
theorem Keeps.bind {p : Run α} {q : α → Run β} (first : D.Keeps n post p)
    (next : ∀ m a, n ≤ m → post m a → D.Keeps m post' (q a)) : D.Keeps n post' (p >>= q) := by
  intro w enough holds
  rw [Run.bind_apply]
  have started := first w enough holds
  cases computed : p w with
  | error e w' =>
      rw [computed] at started
      exact started
  | ok a w' =>
      rw [computed] at started
      obtain ⟨later, holds', result⟩ := started
      have continued := next _ a (Nat.le_trans enough later) result w' (Nat.le_refl _) holds'
      exact continued.mono later

/-- Giving a result changes nothing, so the result has to be right for every later count of scopes. -/
theorem Keeps.pure {a : α} (result : ∀ m, n ≤ m → post m a) : D.Keeps n post (Pure.pure a) :=
  fun w enough holds => ⟨Nat.le_refl _, holds, result w.store.next enough⟩

/-! ### Single steps -/

/-- A stop that the discipline allows keeps to it. The store is as it was, so nothing else has to be shown. -/
theorem stop_keeps {st : Stop} (allowed : D.stop st) : D.Keeps n post (Run.stop st) :=
  fun _ _ holds => ⟨Nat.le_refl _, holds, allowed⟩

theorem fault_keeps {f : RuntimeFault} (allowed : D.stop (.fault f)) : D.Keeps n post (Run.fault f) :=
  stop_keeps allowed

/-- Computing with values in hand keeps to any discipline that allows the expression: it makes no scope, and its
stops are those that the expression may raise. -/
theorem computes_keeps {e : Expr} {p : Run Value} (computes : Run.Computes e.Raises p)
    (allowed : D.expr e) : D.Keeps n D.value p := by
  intro w enough holds
  rcases computes w with ⟨c, result⟩ | ⟨st, raised, result⟩
  · rw [result]
    exact ⟨Nat.le_refl _, holds, D.value_const c⟩
  · rw [result]
    exact ⟨Nat.le_refl _, holds, D.stop_raised allowed raised⟩

/-- Printing touches no scope, and no discipline is about printed lines. -/
theorem print_keeps (line : String) : D.Keeps n (fun _ _ => True) (Run.print line) :=
  fun _ _ holds => ⟨Nat.le_refl _, holds, trivial⟩

theorem freshFunction_keeps : D.Keeps n (fun _ _ => True) Run.freshFunction :=
  fun _ _ holds => ⟨Nat.le_refl _, holds, trivial⟩

theorem readClock_keeps : D.Keeps n D.value Run.readClock :=
  fun _ _ holds => ⟨Nat.le_refl _, holds, D.value_const _⟩

section Scopes

variable {id : ScopeId} (allowed : D.scope n id)

include allowed

/-- Opening a scope is allowed inside any scope that code may run in. The new one may bind any name. -/
theorem enter_keeps : D.Keeps n (fun m inner => D.scope m inner ∧ ∀ name, D.binds inner name)
    (Run.enter id) := by
  intro w enough holds
  obtain ⟨kept, inside, free⟩ := D.store_add holds (D.scope_mono enough allowed)
  have grown : (w.store.add (some id)).next = w.store.next + 1 := Store.next_add
  exact ⟨by simp [grown], kept, by simpa [grown] using inside, free⟩

/-- A name may be bound where the discipline leaves it free, to a value that may be held. Declarations and
parameters are the two places where this happens. -/
theorem define_keeps {name : String} {v : Value} (free : D.binds id name) (held : D.value n v) :
    D.Keeps n (fun _ _ => True) (Run.define id name v) := by
  intro w enough holds
  have kept := D.store_define holds (D.scope_mono enough allowed) free (D.value_mono enough held)
  exact ⟨by simp, kept, trivial⟩

/-- Whatever a name means is a value that may be held, since the store holds no others. If the name is not
bound, the discipline has to allow that fault. -/
theorem lookup_keeps {name : Token} (raised : D.stop (.fault (.undefinedVariable name))) :
    D.Keeps n D.value (Run.lookup id name) := by
  intro w enough holds
  unfold Run.lookup
  split
  next v found =>
    exact ⟨Nat.le_refl _, holds, D.value_get holds (D.scope_mono enough allowed) found⟩
  · exact ⟨Nat.le_refl _, holds, raised⟩

/-- Assigning replaces a value by one that may be held, in the scope that binds the name. -/
theorem assign_keeps {name : Token} {v : Value} (held : D.value n v)
    (raised : D.stop (.fault (.undefinedVariable name))) :
    D.Keeps n (fun _ _ => True) (Run.assign id name v) := by
  intro w enough holds
  unfold Run.assign
  split
  next owner owned =>
    have kept := D.store_assign holds (D.scope_mono enough allowed) owned (D.value_mono enough held)
    exact ⟨by simp, kept, trivial⟩
  · exact ⟨Nat.le_refl _, holds, raised⟩

/-- Parameters are bound one after another in a scope where every name is free. By induction over the
parameters. -/
theorem bindParameters_keeps (free : ∀ name, D.binds id name) (parameters : List Token)
    {arguments : List Value} (held : ∀ v ∈ arguments, D.value n v) :
    D.Keeps n (fun _ _ => True) (Run.bindParameters id parameters arguments) := by
  induction parameters generalizing n arguments with
  | nil => exact .pure fun _ _ => trivial
  | cons p ps ih =>
      cases arguments with
      | nil => exact .pure fun _ _ => trivial
      | cons v vs =>
          refine .bind (define_keeps allowed (free _) (held v (by simp))) fun m _ later _ => ?_
          exact ih (D.scope_mono later allowed) fun u listed =>
            D.value_mono later (held u (by simp [listed]))

end Scopes

/-! ### Sequences and loops -/

/-- All arguments are values that may be held, even after later ones were evaluated, because what may be held
stays so. -/
theorem evaluateAll_keeps {evaluate : Expr → Run Value} {es : List Expr}
    (each : ∀ e ∈ es, D.Keeps n D.value (evaluate e)) :
    D.Keeps n (fun m vs => ∀ v ∈ vs, D.value m v) (Run.evaluateAll evaluate es) := by
  induction es generalizing n with
  | nil => exact .pure fun _ _ => by simp
  | cons e es ih =>
      refine .bind (each e (by simp)) fun m v later held => ?_
      have rest := ih fun d listed => (each d (by simp [listed])).mono later
      refine .bind rest fun k vs later' helds => .pure fun j latest u listed => ?_
      rcases List.mem_cons.mp listed with rfl | more
      · exact D.value_mono (Nat.le_trans later' latest) held
      · exact D.value_mono latest (helds u more)

theorem evaluateOr_keeps {evaluate : Expr → Run Value} {o : Option Expr}
    (each : ∀ e ∈ o, D.Keeps n D.value (evaluate e)) : D.Keeps n D.value (Run.evaluateOr evaluate o) := by
  cases o with
  | none => exact .pure fun _ _ => D.value_const _
  | some e => exact each e rfl

/-- Statements in a row keep to the discipline when each of them does. By induction over the list; the scopes
that exist after one statement exist for the next. -/
theorem executeAll_keeps {execute : Stmt → Run Flow} {ss : List Stmt}
    (each : ∀ s ∈ ss, D.Keeps n D.flow (execute s)) : D.Keeps n D.flow (Run.executeAll execute ss) := by
  induction ss generalizing n with
  | nil => exact .pure fun _ _ => trivial
  | cons s ss ih =>
      refine .bind (each s (by simp)) fun m flow later ended => ?_
      cases flow with
      | normal => exact ih fun t listed => (each t (by simp [listed])).mono later
      | returning v => exact .pure fun k latest => D.value_mono latest ended

/-- A loop keeps to the discipline when its condition and its body do. By induction over the turns, with the
bound on them as one more way to stop. -/
theorem turning_keeps {condition : Run Value} {body : Run Flow} (tested : D.Keeps n D.value condition)
    (repeated : D.Keeps n D.flow body) (turns : Nat) :
    D.Keeps n D.flow (Run.turning condition body turns) := by
  induction turns with
  | zero => exact stop_keeps D.stop_endless
  | succ turns ih =>
      refine .bind tested fun m v later _ => ?_
      split
      · refine .bind (repeated.mono later) fun k flow later' ended => ?_
        cases flow with
        | normal => exact ih.mono (Nat.le_trans later later')
        | returning u => exact .pure fun j latest => D.value_mono latest ended
      · exact .pure fun _ _ => trivial

/-! ### Calls -/

section Calls

variable {execute : Stmt → ScopeId → Run Flow}
  (keeps : ∀ n s id, D.stmt id s → D.scope n id → D.Keeps n D.flow (execute s id))

include keeps

/-- A call runs the body of the function in a new scope inside the one that the function was made in, and its
result may be held. -/
theorem callClosure_keeps {c : Closure} {arguments : List Value}
    (callable : D.value n (.function (.closure c))) (held : ∀ v ∈ arguments, D.value n v) :
    D.Keeps n D.value (Run.callClosure execute c arguments) := by
  refine .bind (enter_keeps (D.scope_closure callable)) fun m inner later entered => ?_
  obtain ⟨inside, free⟩ := entered
  have bound := bindParameters_keeps inside free c.parameters fun v listed =>
    D.value_mono later (held v listed)
  refine .bind bound fun k _ later' _ => ?_
  have body : D.Keeps k D.flow (Run.executeAll (fun s => execute s inner) c.body) :=
    executeAll_keeps fun s listed =>
      keeps k s inner (D.stmt_closure callable free listed) (D.scope_mono later' inside)
  refine .bind body fun j flow _ ended => ?_
  cases flow with
  | normal => exact .pure fun _ _ => D.value_const _
  | returning v => exact .pure fun i latest => D.value_mono latest ended

/-- A call keeps to the discipline, the complaints about what is called and about the number of arguments
included. -/
theorem call_keeps {callee : Expr} {paren : Token} {arguments : List Expr} {f : Value}
    {vs : List Value} (allowed : D.expr (.call callee paren arguments)) (callable : D.value n f)
    (held : ∀ v ∈ vs, D.value n v) : D.Keeps n D.value (Run.call execute paren f vs) := by
  unfold Run.call
  split
  · exact fault_keeps (D.stop_raised allowed .callee)
  · split
    · exact fault_keeps (D.stop_raised allowed .arity)
    · split
      · exact readClock_keeps
      · exact callClosure_keeps keeps callable held

end Calls

/-! ### Whole runs -/

section Step

variable {turns depth : Nat}
  (evaluated : ∀ n e id, D.expr e → D.scope n id → D.Keeps n D.value (Run.evaluate turns depth e id))
  (executed : ∀ n s id, D.stmt id s → D.scope n id → D.Keeps n D.flow (Run.execute turns depth s id))

include evaluated executed

/-- One level of evaluation, given that all lower levels keep to the discipline. One case for each form of
expression. -/
theorem evaluate_keeps_succ {e : Expr} {id : ScopeId} (allowed : D.expr e) (inside : D.scope n id) :
    D.Keeps n D.value (Run.evaluate turns (depth + 1) e id) := by
  have under {m} (later : n ≤ m) {c : Expr} (child : c ∈ e.children) :
      D.Keeps m D.value (Run.evaluate turns depth c id) :=
    evaluated m c id (D.expr_child allowed child) (D.scope_mono later inside)
  have here := Nat.le_refl n
  unfold Run.evaluate
  cases e with
  | literal c => exact .pure fun _ _ => D.value_const c
  | grouping inner => exact under here (by simp [Expr.children])
  | unary op operand =>
      refine .bind (under here (by simp [Expr.children])) fun m v _ _ => ?_
      exact computes_keeps (Run.unary_computes op operand v) allowed
  | binary left op right =>
      refine .bind (under here (by simp [Expr.children])) fun m l later _ => ?_
      refine .bind (under later (by simp [Expr.children])) fun k r _ _ => ?_
      exact computes_keeps (Run.binary_computes left right op l r) allowed
  | logical left op right =>
      refine .bind (under here (by simp [Expr.children])) fun m l later held => ?_
      split
      · exact .pure fun k latest => D.value_mono latest held
      · exact under later (by simp [Expr.children])
  | ternary condition yes no =>
      refine .bind (under here (by simp [Expr.children])) fun m c later _ => ?_
      split
      · exact under later (by simp [Expr.children])
      · exact under later (by simp [Expr.children])
  | «variable» name => exact lookup_keeps inside (D.stop_raised allowed .name)
  | assign name value =>
      refine .bind (under here (by simp [Expr.children])) fun m v later held => ?_
      have stored := assign_keeps (D.scope_mono later inside) held (D.stop_raised allowed .target)
      exact .bind stored fun k _ later' _ => .pure fun j latest =>
        D.value_mono (Nat.le_trans later' latest) held
  | call callee paren arguments =>
      refine .bind (under here (by simp [Expr.children])) fun m f later callable => ?_
      have each : ∀ e ∈ arguments, D.Keeps m D.value (Run.evaluate turns depth e id) :=
        fun e listed => under later (by simp [Expr.children, listed])
      refine .bind (evaluateAll_keeps each) fun k vs later' held => ?_
      exact call_keeps executed allowed (D.value_mono later' callable) held
  | misplaced found => exact stop_keeps (D.stop_raised allowed .misplaced)

/-- One level of execution, given that all lower levels keep to the discipline. One case for each form of
statement. -/
theorem execute_keeps_succ {s : Stmt} {id : ScopeId} (allowed : D.stmt id s) (inside : D.scope n id) :
    D.Keeps n D.flow (Run.execute turns (depth + 1) s id) := by
  have under {e : Expr} (listed : e ∈ s.expressions) :
      D.Keeps n D.value (Run.evaluate turns depth e id) :=
    evaluated n e id (D.stmt_expression allowed listed) inside
  unfold Run.execute
  cases s with
  | expression e =>
      exact .bind (under (by simp [Stmt.expressions])) fun _ _ _ _ => .pure fun _ _ => trivial
  | print e =>
      refine .bind (under (by simp [Stmt.expressions])) fun _ v _ _ => ?_
      exact .bind (print_keeps v.display) fun _ _ _ _ => .pure fun _ _ => trivial
  | var name initial =>
      have each : ∀ e ∈ initial, D.Keeps n D.value (Run.evaluate turns depth e id) :=
        fun e listed => under (by simpa [Stmt.expressions] using listed)
      refine .bind (evaluateOr_keeps each) fun m v later held => ?_
      have bound := define_keeps (D.scope_mono later inside) (D.stmt_var allowed) held
      exact .bind bound fun _ _ _ _ => .pure fun _ _ => trivial
  | block body =>
      refine .bind (enter_keeps inside) fun m inner _ entered => ?_
      obtain ⟨inside', free⟩ := entered
      exact executeAll_keeps fun t listed =>
        executed m t inner (D.stmt_block allowed free listed) inside'
  | branch condition yes no =>
      refine .bind (under (by simp [Stmt.expressions])) fun m c later _ => ?_
      have inside' := D.scope_mono later inside
      split
      · exact executed m yes id (D.stmt_branch allowed (by simp)) inside'
      · cases no with
        | none => exact .pure fun _ _ => trivial
        | some other => exact executed m other id (D.stmt_branch allowed (by simp)) inside'
  | loop condition body =>
      have repeated := executed n body id (D.stmt_loop allowed) inside
      exact turning_keeps (under (by simp [Stmt.expressions])) repeated turns
  | function name parameters body =>
      refine .bind freshFunction_keeps fun m number later _ => ?_
      have inside' := D.scope_mono later inside
      have bound := define_keeps inside' (D.stmt_function allowed)
        (D.value_closure number allowed inside')
      exact .bind bound fun _ _ _ _ => .pure fun _ _ => trivial
  | «return» keyword value =>
      have each : ∀ e ∈ value, D.Keeps n D.value (Run.evaluate turns depth e id) :=
        fun e listed => under (by simpa [Stmt.expressions] using listed)
      exact .bind (evaluateOr_keeps each) fun m v _ held => .pure fun k latest => D.value_mono latest held
  | misplaced found => exact stop_keeps (D.stop_misplaced allowed)

end Step

/-- **Runs keep to their discipline.** Expressions and statements keep to the discipline at every depth. By
induction over the depth, which falls with every level of the tree and every call. -/
theorem evaluate_execute_keeps (turns depth : Nat) :
    (∀ n e id, D.expr e → D.scope n id → D.Keeps n D.value (Run.evaluate turns depth e id)) ∧
      ∀ n s id, D.stmt id s → D.scope n id → D.Keeps n D.flow (Run.execute turns depth s id) := by
  induction depth with
  | zero =>
      constructor
      · intro n e id _ _
        unfold Run.evaluate
        exact stop_keeps D.stop_tooDeep
      · intro n s id _ _
        unfold Run.execute
        exact stop_keeps D.stop_tooDeep
  | succ depth ih =>
      obtain ⟨evaluated, executed⟩ := ih
      constructor
      · intro n e id allowed inside
        exact evaluate_keeps_succ evaluated executed allowed inside
      · intro n s id allowed inside
        exact execute_keeps_succ evaluated executed allowed inside

/-- A program keeps to the discipline when each of its statements may run in the global scope. What one
statement binds is there for the next one. -/
theorem executeProgram_keeps (limits : Limits) {ss : List Stmt}
    (allowed : ∀ s ∈ ss, D.stmt World.globals s) (inside : D.scope n World.globals) :
    D.Keeps n (fun _ _ => True) (Run.executeProgram limits ss) := by
  induction ss generalizing n with
  | nil => exact .pure fun _ _ => trivial
  | cons s ss ih =>
      have first := (evaluate_execute_keeps limits.turns limits.depth).2 n s World.globals
        (allowed s (by simp)) inside
      exact .bind first fun m _ later _ =>
        ih (fun t listed => allowed t (by simp [listed])) (D.scope_mono later inside)

section Runs

variable (turns depth : Nat) (id : ScopeId) {w : World} (holds : D.store w.store)

include holds

/-- Evaluating an expression from a given world keeps to the discipline: the count of scopes is that of the
world itself. -/
theorem evaluate_keeps {e : Expr} (allowed : D.expr e) (inside : D.scope w.store.next id) :
    D.Ends w.store.next D.value (Run.evaluate turns depth e id w) :=
  (evaluate_execute_keeps turns depth).1 _ e id allowed inside w (Nat.le_refl _) holds

/-- Running a statement from a given world keeps to the discipline. Every invariant of runs is an instance of
this, for a discipline of its own. -/
theorem execute_keeps {s : Stmt} (allowed : D.stmt id s) (inside : D.scope w.store.next id) :
    D.Ends w.store.next D.flow (Run.execute turns depth s id w) :=
  (evaluate_execute_keeps turns depth).2 _ s id allowed inside w (Nat.le_refl _) holds

/-- Calling a function from a given world keeps to the discipline, if the function and its arguments are values
that may be held. -/
theorem closure_keeps {c : Closure} {arguments : List Value}
    (callable : D.value w.store.next (.function (.closure c)))
    (held : ∀ v ∈ arguments, D.value w.store.next v) :
    D.Ends w.store.next D.value (Run.callClosure (Run.execute turns depth) c arguments w) :=
  callClosure_keeps (evaluate_execute_keeps turns depth).2 callable held w (Nat.le_refl _) holds

end Runs

/-- However a run ends, no scope is lost and the store obeys the discipline. -/
theorem Ends.after {p : Run α} {w : World} (ends : D.Ends n post (p w)) :
    n ≤ (p.after w).store.next ∧ D.store (p.after w).store := by
  unfold Run.after
  cases result : p w with
  | ok a w' =>
      rw [result] at ends
      exact ⟨ends.1, ends.2.1⟩
  | error e w' =>
      rw [result] at ends
      exact ⟨ends.1, ends.2.1⟩

theorem Ends.result {p : Run α} {w w' : World} {a : α} (ends : D.Ends n post (p w))
    (result : p w = .ok a w') : post w'.store.next a := by
  rw [result] at ends
  exact ends.2.2

end Discipline

end Treewalk

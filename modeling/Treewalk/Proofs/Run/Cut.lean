import Treewalk.Proofs.Run.Discipline

/-!
Runs under a smaller limit on depth. Such a run does exactly what the run under a larger limit does, up to
the place where it goes too deep, if it does: what it has printed by then is printed by the other run as well,
before anything else. `Cuts` says so of two steps, and has one law for every way steps are put together.
-/

namespace Treewalk

/-- What was printed in `v` was printed in `w` first. -/
def World.Precedes (v w : World) : Prop := v.printed.toList <+: w.printed.toList

/-- What is printed at first stays in front however long a run goes on. -/
theorem World.Precedes.trans {u v w : World} (first : u.Precedes v) (second : v.Precedes w) : u.Precedes w :=
  List.IsPrefix.trans first second

theorem World.precedes_of_eq {v w : World} (same : w.printed = v.printed) : v.Precedes w :=
  ⟨[], by rw [List.append_nil, same]⟩

namespace Run

variable {α β : Type} {p p' : Run α} {q q' : α → Run β}

/-- `p` does what `p'` does or goes too deep on the way, and `p'` takes back nothing that was printed. -/
def Cuts (p p' : Run α) : Prop :=
  ∀ w, (p w = p' w ∨ ∃ v, p w = .error .tooDeep v ∧ v.Precedes (p'.after w)) ∧ w.Precedes (p'.after w)

/-- The world after two steps is that after the second one, or that after the first one if it stops. -/
theorem after_bind (p : Run α) (q : α → Run β) (w : World) :
    (p >>= q).after w = match p w with
      | .ok a w' => (q a).after w'
      | .error _ w' => w' := by
  unfold after
  rw [bind_apply]
  cases p w <;> rfl

/-- Sequencing. Once the first step is cut, both steps are, and what the uncut run prints later comes behind. If
the first step is not cut, both runs go on from the same world. -/
theorem Cuts.bind (first : Cuts p p') (next : ∀ a, Cuts (q a) (q' a)) : Cuts (p >>= q) (p' >>= q') := by
  intro w
  obtain ⟨agrees, grows⟩ := first w
  -- whatever follows comes behind what the first step printed
  have later : (p'.after w).Precedes ((p' >>= q').after w) := by
    rw [after_bind]
    unfold after
    cases p' w with
    | ok a w' => exact (next a w').2
    | error e w' => exact World.precedes_of_eq rfl
  refine ⟨?_, grows.trans later⟩
  rcases agrees with same | ⟨v, deep, printed⟩
  · rw [bind_apply, bind_apply, after_bind, same]
    cases p' w with
    | ok a w' => exact (next a w').1
    | error e w' => exact .inl rfl
  · rw [bind_apply, deep]
    exact .inr ⟨v, rfl, printed.trans later⟩

/-- A step without levels below it is not cut, and only has to leave what was printed in front. -/
theorem cuts_self (grows : ∀ w : World, w.Precedes (p.after w)) : Cuts p p := fun w => ⟨.inl rfl, grows w⟩

/-- Giving a result prints nothing and takes no depth. -/
theorem Cuts.pure (a : α) : Cuts (Pure.pure a) (Pure.pure a) := cuts_self fun _ => World.precedes_of_eq rfl

/-- Going too deep at once cuts every run, with nothing printed. This is the case in which the smaller limit is
used up. -/
theorem tooDeep_cuts (grows : ∀ w : World, w.Precedes (p'.after w)) : Cuts (stop .tooDeep) p' :=
  fun w => ⟨.inr ⟨w, rfl, grows w⟩, grows w⟩

/-! ### Single steps -/

/-- A run that stops by itself stops so under either limit, in the same world. -/
theorem stop_cuts (st : Stop) : Cuts (stop st : Run α) (stop st) := cuts_self fun _ => World.precedes_of_eq rfl

theorem fault_cuts (f : RuntimeFault) : Cuts (fault f : Run α) (fault f) := stop_cuts (.fault f)

theorem print_cuts (line : String) : Cuts (print line) (print line) :=
  cuts_self fun w => ⟨[line], by simp [after, print]⟩

theorem enter_cuts (id : ScopeId) : Cuts (enter id) (enter id) := cuts_self fun _ => World.precedes_of_eq rfl

theorem define_cuts (id : ScopeId) (name : String) (v : Value) : Cuts (define id name v) (define id name v) :=
  cuts_self fun _ => World.precedes_of_eq rfl

theorem freshFunction_cuts : Cuts freshFunction freshFunction := cuts_self fun _ => World.precedes_of_eq rfl

theorem readClock_cuts : Cuts readClock readClock := cuts_self fun _ => World.precedes_of_eq rfl

/-- Looking a name up takes no depth, whether or not it is bound. -/
theorem lookup_cuts (id : ScopeId) (name : Token) : Cuts (lookup id name) (lookup id name) := by
  refine cuts_self fun w => World.precedes_of_eq ?_
  unfold after lookup
  cases w.store.get? id name.lexeme <;> rfl

/-- Assigning takes no depth, whether or not the name is bound. -/
theorem assign_cuts (id : ScopeId) (name : Token) (v : Value) : Cuts (assign id name v) (assign id name v) := by
  refine cuts_self fun w => World.precedes_of_eq ?_
  unfold after assign
  cases w.store.owner? id name.lexeme <;> rfl

/-- Computing with values in hand is the same under all limits. -/
theorem computes_cuts {S : Stop → Prop} {p : Run Value} (computes : Computes S p) : Cuts p p := by
  refine cuts_self fun w => World.precedes_of_eq ?_
  unfold after
  rcases computes w with ⟨c, result⟩ | ⟨st, -, result⟩
  · rw [result]
  · rw [result]

/-! ### Steps put together -/

section Levels

variable {evaluate evaluate' : Expr → Run Value} {execute execute' : Stmt → Run Flow}

/-- Arguments are cut one by one. By induction over the list. -/
theorem evaluateAll_cuts (each : ∀ e, Cuts (evaluate e) (evaluate' e)) (es : List Expr) :
    Cuts (evaluateAll evaluate es) (evaluateAll evaluate' es) := by
  induction es with
  | nil => exact .pure []
  | cons e es ih => exact (each e).bind fun v => ih.bind fun vs => .pure (v :: vs)

theorem evaluateOr_cuts (each : ∀ e, Cuts (evaluate e) (evaluate' e)) (e : Option Expr) :
    Cuts (evaluateOr evaluate e) (evaluateOr evaluate' e) := by
  cases e with
  | none => exact .pure Value.nil
  | some e => exact each e

/-- Statements in a row are cut at the first one that goes too deep, and the lines printed before stay. By
induction over the list. -/
theorem executeAll_cuts (each : ∀ s, Cuts (execute s) (execute' s)) (ss : List Stmt) :
    Cuts (executeAll execute ss) (executeAll execute' ss) := by
  induction ss with
  | nil => exact .pure Flow.normal
  | cons s ss ih =>
      refine (each s).bind fun flow => ?_
      cases flow with
      | normal => exact ih
      | returning v => exact .pure (Flow.returning v)

/-- A loop is cut in the turn that goes too deep. The turns before it are the same under both limits. By
induction over the turns. -/
theorem turning_cuts {condition condition' : Run Value} {body body' : Run Flow}
    (tested : Cuts condition condition') (repeated : Cuts body body') (turns : Nat) :
    Cuts (turning condition body turns) (turning condition' body' turns) := by
  induction turns with
  | zero => exact stop_cuts .endless
  | succ turns ih =>
      refine tested.bind fun v => ?_
      cases v.isTruthy with
      | false => exact .pure Flow.normal
      | true =>
          refine repeated.bind fun flow => ?_
          cases flow with
          | normal => exact ih
          | returning v => exact .pure (Flow.returning v)

theorem bindParameters_cuts (id : ScopeId) (parameters : List Token) (arguments : List Value) :
    Cuts (bindParameters id parameters arguments) (bindParameters id parameters arguments) := by
  induction parameters generalizing arguments with
  | nil => exact .pure ()
  | cons p ps ih =>
      cases arguments with
      | nil => exact .pure ()
      | cons v vs => exact (define_cuts id p.lexeme v).bind fun _ => ih vs

end Levels

section Calls

variable {execute execute' : Stmt → ScopeId → Run Flow}

/-- A call is cut where the body of the function is. Opening its scope and binding its parameters take
no depth. -/
theorem callClosure_cuts (each : ∀ s id, Cuts (execute s id) (execute' s id)) (c : Closure)
    (arguments : List Value) : Cuts (callClosure execute c arguments) (callClosure execute' c arguments) := by
  refine (enter_cuts c.scope).bind fun scope => ?_
  refine (bindParameters_cuts scope c.parameters arguments).bind fun _ => ?_
  refine (executeAll_cuts (fun s => each s scope) c.body).bind fun flow => ?_
  cases flow with
  | normal => exact .pure Value.nil
  | returning v => exact .pure v

/-- A call is cut only inside the function. The checks before it are the same under all limits. -/
theorem call_cuts (each : ∀ s id, Cuts (execute s id) (execute' s id)) (paren : Token) (callee : Value)
    (arguments : List Value) :
    Cuts (call execute paren callee arguments) (call execute' paren callee arguments) := by
  cases callee with
  | const c => exact fault_cuts _
  | function f =>
      unfold call
      by_cases mismatch : arguments.length ≠ f.arity
      · simp only [if_pos mismatch]
        exact fault_cuts _
      · simp only [if_neg mismatch]
        cases f with
        | native n => exact readClock_cuts
        | closure c => exact callClosure_cuts each c arguments

end Calls

/-! ### Whole runs -/

section Step

variable {turns depth depth' : Nat}
  (evaluated : ∀ e id, Cuts (evaluate turns depth e id) (evaluate turns depth' e id))
  (executed : ∀ s id, Cuts (execute turns depth s id) (execute turns depth' s id))

include evaluated executed

/-- One level of evaluation, given that lower levels are only cut. One case for each form of expression. -/
theorem evaluate_cuts_succ (e : Expr) (id : ScopeId) :
    Cuts (evaluate turns (depth + 1) e id) (evaluate turns (depth' + 1) e id) := by
  cases e with
  | literal c => exact .pure (Value.const c)
  | grouping inner => exact evaluated inner id
  | unary op operand => exact (evaluated operand id).bind fun v => computes_cuts (unary_computes op operand v)
  | binary left op right =>
      refine (evaluated left id).bind fun l => (evaluated right id).bind fun r => ?_
      exact computes_cuts (binary_computes left right op l r)
  | logical left op right =>
      refine (evaluated left id).bind fun l => ?_
      by_cases decided : l.isTruthy = decide (op.kind = .orWord)
      · simp only [if_pos decided]
        exact .pure l
      · simp only [if_neg decided]
        exact evaluated right id
  | ternary condition yes no =>
      refine (evaluated condition id).bind fun v => ?_
      cases v.isTruthy with
      | true => exact evaluated yes id
      | false => exact evaluated no id
  | «variable» name => exact lookup_cuts id name
  | assign name value =>
      refine (evaluated value id).bind fun v => ?_
      exact (assign_cuts id name v).bind fun _ => .pure v
  | call callee paren arguments =>
      refine (evaluated callee id).bind fun f => ?_
      refine (evaluateAll_cuts (fun e => evaluated e id) arguments).bind fun vs => ?_
      exact call_cuts executed paren f vs
  | misplaced found => exact stop_cuts _

/-- One level of execution, given that lower levels are only cut. One case for each form of statement. -/
theorem execute_cuts_succ (s : Stmt) (id : ScopeId) :
    Cuts (execute turns (depth + 1) s id) (execute turns (depth' + 1) s id) := by
  cases s with
  | expression e => exact (evaluated e id).bind fun _ => .pure Flow.normal
  | print e => exact (evaluated e id).bind fun v => (print_cuts v.display).bind fun _ => .pure Flow.normal
  | var name initial =>
      refine (evaluateOr_cuts (fun e => evaluated e id) initial).bind fun v => ?_
      exact (define_cuts id name.lexeme v).bind fun _ => .pure Flow.normal
  | block body =>
      exact (enter_cuts id).bind fun inner => executeAll_cuts (fun s => executed s inner) body
  | branch condition yes no =>
      refine (evaluated condition id).bind fun v => ?_
      cases v.isTruthy with
      | true => exact executed yes id
      | false =>
          cases no with
          | none => exact .pure Flow.normal
          | some s => exact executed s id
  | loop condition body => exact turning_cuts (evaluated condition id) (executed body id) turns
  | function name parameters body =>
      refine freshFunction_cuts.bind fun number => ?_
      exact (define_cuts id name.lexeme _).bind fun _ => .pure Flow.normal
  | «return» keyword value =>
      exact (evaluateOr_cuts (fun e => evaluated e id) value).bind fun v => .pure (Flow.returning v)
  | misplaced found => exact stop_cuts _

end Step

/-- Under one and the same limit there is nothing to cut, and what was printed stays. -/
theorem evaluate_execute_cuts_self (turns depth : Nat) :
    (∀ e id, Cuts (evaluate turns depth e id) (evaluate turns depth e id)) ∧
      ∀ s id, Cuts (execute turns depth s id) (execute turns depth s id) := by
  induction depth with
  | zero => exact ⟨fun _ _ => stop_cuts .tooDeep, fun _ _ => stop_cuts .tooDeep⟩
  | succ depth ih => exact ⟨evaluate_cuts_succ ih.1 ih.2, execute_cuts_succ ih.1 ih.2⟩

/-- **A smaller limit only cuts a run short.** The run ends as it does under the larger limit, or goes too deep
after a part of the same lines. By induction over the smaller limit. -/
theorem evaluate_execute_cuts (turns : Nat) {depth depth' : Nat} (enough : depth ≤ depth') :
    (∀ e id, Cuts (evaluate turns depth e id) (evaluate turns depth' e id)) ∧
      ∀ s id, Cuts (execute turns depth s id) (execute turns depth' s id) := by
  induction depth generalizing depth' with
  | zero =>
      obtain ⟨evaluated, executed⟩ := evaluate_execute_cuts_self turns depth'
      exact ⟨fun e id => tooDeep_cuts fun w => (evaluated e id w).2,
        fun s id => tooDeep_cuts fun w => (executed s id w).2⟩
  | succ depth ih =>
      obtain ⟨depth', rfl⟩ : ∃ k, depth' = k + 1 := ⟨depth' - 1, by omega⟩
      obtain ⟨evaluated, executed⟩ := ih (Nat.le_of_succ_le_succ enough)
      exact ⟨evaluate_cuts_succ evaluated executed, execute_cuts_succ evaluated executed⟩

/-- A program under a smaller limit does what it does under a larger one, or stops for depth having printed a
part of the same lines. It never prints anything else. -/
theorem executeProgram_cuts (turns : Nat) {depth depth' : Nat} (enough : depth ≤ depth') (ss : List Stmt) :
    Cuts (executeProgram ⟨depth, turns⟩ ss) (executeProgram ⟨depth', turns⟩ ss) := by
  induction ss with
  | nil => exact .pure ()
  | cons s ss ih => exact ((evaluate_execute_cuts turns enough).2 s World.globals).bind fun _ => ih

end Run

end Treewalk

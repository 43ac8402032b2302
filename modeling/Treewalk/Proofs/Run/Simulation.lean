import Mathlib.Data.List.Forall2
import Treewalk.Proofs.Run.Scoping
import Treewalk.Proofs.Tree.Moved

/-!
Two runs side by side. The second one runs the code of the first, perhaps moved by some lines, in scopes
that correspond to the scopes of the first. A simulation says which code and which scopes correspond, and
how two stores do; its laws speak of single steps only: making a scope, binding a name, finding a value
and finding the owner of a name. `Simulation.evaluate_execute_simulates` says that whole runs then agree:
they print the same, they end alike, with values and stores that correspond.

Where the two runs have different depth left, the one with less may be cut short, and nothing else may
differ.
-/

namespace Treewalk

/-! ### Moved faults -/

/-- The fault with its token moved down by `k` lines. -/
def RuntimeFault.moved (k : Int) : RuntimeFault → RuntimeFault
  | .undefinedVariable name => .undefinedVariable (name.moved k)
  | .operandNotNumber op => .operandNotNumber (op.moved k)
  | .operandsNotNumbers op => .operandsNotNumbers (op.moved k)
  | .operandsNotAddable op => .operandsNotAddable (op.moved k)
  | .divisionByZero op => .divisionByZero (op.moved k)
  | .arityMismatch paren expected got => .arityMismatch (paren.moved k) expected got
  | .notCallable paren => .notCallable (paren.moved k)

/-- The stop with its token moved down by `k` lines, if it has one. -/
def Stop.moved (k : Int) : Stop → Stop
  | .fault f => .fault (f.moved k)
  | .unknownOperator op => .unknownOperator (op.moved k)
  | .zeroDivision op => .zeroDivision (op.moved k)
  | e => e

/-- Moving by no line is no change; the corresponding runs then have the very same faults. -/
theorem RuntimeFault.moved_zero (f : RuntimeFault) : f.moved 0 = f := by
  cases f <;> simp [moved, Token.moved_zero]

theorem Stop.moved_zero (e : Stop) : e.moved 0 = e := by
  cases e <;> simp [moved, Token.moved_zero, RuntimeFault.moved_zero]

mutual

/-- The form by which a misplaced part is described does not tell its line. -/
theorem Expr.form_moved (k : Int) : ∀ e : Expr, (e.moved k).form = e.form
  | .literal _ | .grouping _ | .unary _ _ | .binary _ _ _ | .logical _ _ _ | .ternary _ _ _ => rfl
  | .variable _ | .assign _ _ | .call _ _ _ | .misplaced none => rfl
  | .misplaced (some s) => by
    rw [Expr.moved, Expr.form, Expr.form, Stmt.form_moved k s]

theorem Stmt.form_moved (k : Int) : ∀ s : Stmt, (s.moved k).form = s.form
  | .expression _ | .print _ | .var _ none | .var _ (some _) | .block _ | .loop _ _ => rfl
  | .branch _ _ none | .branch _ _ (some _) | .function _ _ _ => rfl
  | .return _ none | .return _ (some _) | .misplaced none => rfl
  | .misplaced (some e) => by
    rw [Stmt.moved, Stmt.form, Stmt.form, Expr.form_moved k e]

end

/-! ### Values that correspond -/

/-- The declaration that a function was made from. -/
def Closure.declaration (c : Closure) : Stmt := .function c.name c.parameters c.body

/-- The function with its declaration moved and with another scope around it. -/
def Closure.moved (k : Int) (scope : ScopeId) (c : Closure) : Closure :=
  ⟨c.id, c.name.moved k, c.parameters.map (Token.moved k), c.body.map (Stmt.moved k), scope⟩

theorem Closure.moved_zero (c : Closure) : c.moved 0 c.scope = c := by
  simp [Closure.moved, Token.moved_zero, List.map_id'' Token.moved_zero, List.map_id'' Stmt.moved_zero]

/-- Values that correspond: constants and native functions to themselves, a function of the program to one
with the same number whose code and whose scope correspond. -/
inductive Value.Like (code : Int → Stmt → Prop) (scope : ScopeId → ScopeId → Prop) : Value → Value → Prop where
  | const (c : Constant) : Like code scope (.const c) (.const c)
  | native (f : Native) : Like code scope (.function (.native f)) (.function (.native f))
  | closure {c : Closure} {k : Int} {outer : ScopeId} : code k c.declaration → scope c.scope outer →
      Like code scope (.function (.closure c)) (.function (.closure (c.moved k outer)))

namespace Value.Like

variable {code : Int → Stmt → Prop} {scope scope' : ScopeId → ScopeId → Prop} {v v' u u' : Value}

/-- A value stays like another one when more scopes correspond, as they do when a run goes on. -/
theorem mono (like : Like code scope v v') (wider : ∀ i j, scope i j → scope' i j) :
    Like code scope' v v' := by
  cases like with
  | const c => exact .const c
  | native f => exact .native f
  | closure same around => exact .closure same (wider _ _ around)

/-- A value corresponds to itself when its code and its scope do. -/
theorem self (closures : ∀ c, v = .function (.closure c) → code 0 c.declaration ∧ scope c.scope c.scope) :
    Like code scope v v := by
  cases v with
  | const c => exact .const c
  | function f =>
      cases f with
      | native f => exact .native f
      | closure c =>
          obtain ⟨same, around⟩ := closures c rfl
          have like : Like code scope (.function (.closure c)) (.function (.closure (c.moved 0 c.scope))) :=
            .closure same around
          rwa [c.moved_zero] at like

/-- Corresponding values are true alike, so corresponding conditions take the same branch. Functions are true in
any case. -/
theorem isTruthy (like : Like code scope v v') : v'.isTruthy = v.isTruthy := by
  cases like <;> rfl

/-- Corresponding values have one display. What is printed is therefore the same text on both sides. -/
theorem display (like : Like code scope v v') : v'.display = v.display := by
  cases like <;> rfl

/-- Equality of values carries over. For functions this rests on their numbers, which correspond exactly. -/
theorem same (like : Like code scope v v') (like' : Like code scope u u') : v'.same u' = v.same u := by
  cases like <;> cases like' <;> rfl

end Value.Like

/-- Bindings of the same names, in the same order, to values that correspond. -/
def Bindings.Like (like : Value → Value → Prop) (b b' : Bindings) : Prop :=
  List.Forall₂ (fun x y => y.1 = x.1 ∧ like x.2 y.2) b b'

namespace Bindings.Like

variable {like like' : Value → Value → Prop} {b b' : Bindings}

/-- Scopes stay alike when more values do: their names are the same, in the same order. -/
theorem mono (same : Like like b b') (wider : ∀ v v', like v v' → like' v v') : Like like' b b' :=
  List.Forall₂.imp (fun _ _ entry => ⟨entry.1, wider _ _ entry.2⟩) same

/-- Looking a name up in corresponding scopes finds corresponding values, or none in both. By induction over
the bindings. -/
theorem find? (same : Like like b b') (name : String) : Option.Rel like (b.find? name) (b'.find? name) := by
  induction same with
  | nil => exact .none
  | @cons x y rest rest' entry _ ih =>
      simp only [Bindings.find?, entry.1]
      by_cases here : x.1 = name
      · rw [if_pos here, if_pos here]
        exact .some entry.2
      · rw [if_neg here, if_neg here]
        exact ih

/-- Binding a name to corresponding values keeps scopes alike, whether the name is new or bound again. -/
theorem set (same : Like like b b') (name : String) {v v' : Value} (held : like v v') :
    Like like (b.set name v) (b'.set name v') := by
  induction same with
  | nil => exact .cons ⟨rfl, held⟩ .nil
  | @cons x y rest rest' entry more ih =>
      simp only [Bindings.set, entry.1]
      by_cases here : x.1 = name
      · rw [if_pos here, if_pos here]
        exact .cons ⟨rfl, held⟩ more
      · rw [if_neg here, if_neg here]
        exact .cons ⟨rfl, entry.2⟩ ih

end Bindings.Like

/-- Statements that end alike. -/
inductive Flow.Like (like : Value → Value → Prop) : Flow → Flow → Prop where
  | normal : Like like .normal .normal
  | returning {v v'} : like v v' → Like like (.returning v) (.returning v')

/-! ### Operators on values that correspond -/

namespace Run

/-- Both steps give the same constant, or both stop, the second one `k` lines further down. The worlds stay
as they are. -/
def Mirrors (k : Int) (p p' : Run Value) : Prop :=
  ∀ w w', (∃ c, p w = .ok (.const c) w ∧ p' w' = .ok (.const c) w') ∨
    ∃ e, p w = .error e w ∧ p' w' = .error (e.moved k) w'

variable {k : Int}

theorem Mirrors.pure (c : Constant) : Mirrors k (Pure.pure (.const c)) (Pure.pure (.const c)) :=
  fun _ _ => .inl ⟨c, rfl, rfl⟩

/-- A run that stops is mirrored by one that stops in the same way, with its fault on the moved line. Where
there is no token in a stop, nothing is moved. -/
theorem Mirrors.stop (e : Stop) : Mirrors k (Run.stop e) (Run.stop (e.moved k)) :=
  fun _ _ => .inr ⟨e, rfl, rfl⟩

/-- Numbers are computed alike, and a division by zero is reported at the moved operator. -/
theorem arithmetic_mirrors (op : Token) (x y : Float) :
    Mirrors k (arithmetic op x y) (arithmetic (op.moved k) x y) := by
  unfold arithmetic
  rw [Token.kind_moved]
  split
  · exact .pure _
  · exact .pure _
  · split
    · exact .stop (.zeroDivision op)
    · exact .pure _
  · exact .pure _
  · exact .pure _
  · exact .pure _
  · exact .pure _
  · exact .stop (.unknownOperator op)

section

variable {code : Int → Stmt → Prop} {scope : ScopeId → ScopeId → Prop} {v v' u u' : Value}
  (like : Value.Like code scope v v') (like' : Value.Like code scope u u')

include like

/-- An operator with one operand gives corresponding values, or the same fault at the moved operator. -/
theorem unary_mirrors (op : Token) : Mirrors k (unary op v) (unary (op.moved k) v') := by
  unfold unary
  by_cases bang : op.kind = .bang
  · have bang' : (op.moved k).kind = .bang := bang
    rw [if_pos bang, if_pos bang', like.isTruthy]
    exact .pure _
  · have bang' : ¬ (op.moved k).kind = .bang := bang
    rw [if_neg bang, if_neg bang']
    cases like with
    | const c =>
        cases c with
        | number x => exact .pure _
        | nil | bool | text => exact .stop (.fault (.operandNotNumber op))
    | native | closure => exact .stop (.fault (.operandNotNumber op))

include like'

theorem add_mirrors (op : Token) : Mirrors k (add op v u) (add (op.moved k) v' u') := by
  have unfit := Mirrors.stop (k := k) (.fault (.operandsNotAddable op))
  cases like with
  | const c =>
      cases like' with
      | const d => cases c <;> cases d <;> first | exact .pure _ | exact unfit
      | native | closure => cases c <;> first | exact .pure _ | exact unfit
  | native | closure =>
      cases like' with
      | const d => cases d <;> first | exact .pure _ | exact unfit
      | native | closure => exact unfit

/-- An operator with two operands gives corresponding values, or the same fault at the moved operator. -/
theorem binary_mirrors (op : Token) : Mirrors k (binary op v u) (binary (op.moved k) v' u') := by
  unfold binary
  rw [Token.kind_moved]
  split
  · rw [like.same like']
    exact .pure _
  · rw [like.same like']
    exact .pure _
  · exact add_mirrors like like' op
  · have unfit := Mirrors.stop (k := k) (.fault (.operandsNotNumbers op))
    cases like with
    | native | closure => exact unfit
    | const c =>
        cases like' with
        | native | closure => cases c <;> exact unfit
        | const d =>
            cases c <;> cases d <;> try exact unfit
            dsimp only
            split
            · exact .stop (.fault (.divisionByZero op))
            · exact arithmetic_mirrors op _ _

end

end Run

/-! ### Simulations -/

/-- How two runs correspond, with the laws that single steps have to obey. -/
structure Simulation where
  /-- What is known about the scopes at some time of the two runs. -/
  Stage : Type
  later : Stage → Stage → Prop
  /-- Code of the first run that stands moved by so many lines in the second one. -/
  code : Int → Stmt → Prop
  /-- Scopes that correspond. -/
  scope : Stage → ScopeId → ScopeId → Prop
  /-- Scopes that correspond and may bind names. -/
  binds : Stage → ScopeId → ScopeId → Prop
  store : Stage → Store → Store → Prop
  /-- What the second run had printed before the first one began. -/
  earlier : List String
  /-- Whether the first run may be cut short, and whether the second one may. -/
  cut : Prop
  cut' : Prop
  later_refl (r) : later r r
  later_trans {r₁ r₂ r₃} : later r₁ r₂ → later r₂ r₃ → later r₁ r₃
  scope_mono {r₁ r₂ i j} : later r₁ r₂ → scope r₁ i j → scope r₂ i j
  binds_mono {r₁ r₂ i j} : later r₁ r₂ → binds r₁ i j → binds r₂ i j
  scope_of_binds {r i j} : binds r i j → scope r i j
  code_part {k s u} : code k s → u ∈ s.parts → code k u
  /-- New scopes inside scopes that correspond do so too. -/
  store_add {r s s' i j} : store r s s' → scope r i j →
    ∃ r', later r r' ∧ store r' (s.add (some i)) (s'.add (some j)) ∧ binds r' s.next s'.next
  store_define {r s s' i j v v'} (name : String) : store r s s' → binds r i j →
    Value.Like code (scope r) v v' → store r (s.define i name v) (s'.define j name v')
  get_like {r s s' i j} (name : String) : store r s s' → scope r i j →
    Option.Rel (Value.Like code (scope r)) (s.get? i name) (s'.get? j name)
  owner_binds {r s s' i j} (name : String) : store r s s' → scope r i j →
    Option.Rel (binds r) (s.owner? i name) (s'.owner? j name)

namespace Simulation

variable {α β γ δ : Type} (S : Simulation)

/-- Code stands moved by `k` lines. -/
def Shifts (k : Int) : Prop := ∃ s, S.code k s

/-- Values that correspond at a stage. -/
abbrev value (r : S.Stage) : Value → Value → Prop := Value.Like S.code (S.scope r)

/-- Statements that end alike at a stage. -/
abbrev flow (r : S.Stage) : Flow → Flow → Prop := Flow.Like (S.value r)

/-- Worlds that correspond at a stage. -/
structure Related (r : S.Stage) (w w' : World) : Prop where
  store : S.store r w.store w'.store
  printed : w'.printed.toList = S.earlier ++ w.printed.toList
  functions : w'.functions = w.functions
  clock : w'.clock = w.clock

/-- Outcomes that correspond, reached from stage `r`. -/
inductive Agrees (like : S.Stage → α → β → Prop) (r : S.Stage) : Run.Outcome α → Run.Outcome β → Prop where
  | ok {r' a b w w'} : S.later r r' → like r' a b → S.Related r' w w' → Agrees like r (.ok a w) (.ok b w')
  | stop {r' k e w w'} : S.later r r' → S.Shifts k → S.Related r' w w' →
      Agrees like r (.error e w) (.error (e.moved k) w')
  | cut {w o} : S.cut → Agrees like r (.error .tooDeep w) o
  | cut' {w' o} : S.cut' → Agrees like r o (.error .tooDeep w')

/-- Steps that agree in worlds that correspond, from stage `r` on. -/
def Simulates (like : S.Stage → α → β → Prop) (r : S.Stage) (p : Run α) (p' : Run β) : Prop :=
  ∀ r₁ w w', S.later r r₁ → S.Related r₁ w w' → S.Agrees like r₁ (p w) (p' w')

variable {S} {r r₁ : S.Stage} {like : S.Stage → α → β → Prop} {like' : S.Stage → γ → δ → Prop} {p : Run α}
  {p' : Run β} {q : α → Run γ} {q' : β → Run δ} {k : Int} {i j : ScopeId}

/-- Values correspond at all later stages, since scopes keep corresponding. -/
theorem value_mono {v v' : Value} (later : S.later r r₁) (held : S.value r v v') : S.value r₁ v v' :=
  held.mono fun _ _ => S.scope_mono later

/-- Outcomes that agree at a stage agree at every stage before it. -/
theorem Agrees.mono {o : Run.Outcome α} {o' : Run.Outcome β} (later : S.later r r₁)
    (agrees : S.Agrees like r₁ o o') : S.Agrees like r o o' := by
  cases agrees with
  | ok later' result related => exact .ok (S.later_trans later later') result related
  | stop later' shifts related => exact .stop (S.later_trans later later') shifts related
  | cut allowed => exact .cut allowed
  | cut' allowed => exact .cut' allowed

/-- A simulation can be used at any later stage, where more scopes correspond. Runs inside of runs start at
such stages. -/
theorem Simulates.mono (simulates : S.Simulates like r p p') (later : S.later r r₁) :
    S.Simulates like r₁ p p' :=
  fun r₂ w w' later' => simulates r₂ w w' (S.later_trans later later')

/-- Sequencing. The second runs start from the later stage that the first ones lead to, with results that
correspond there. -/
theorem Simulates.bind (first : S.Simulates like r p p')
    (next : ∀ r₁ a b, S.later r r₁ → like r₁ a b → S.Simulates like' r₁ (q a) (q' b)) :
    S.Simulates like' r (p >>= q) (p' >>= q') := by
  intro r₁ w w' later related
  rw [Run.bind_apply, Run.bind_apply]
  have started := first r₁ w w' later related
  generalize p w = o, p' w' = o' at started
  cases started with
  | ok later' result related' =>
      have onwards := S.later_trans later later'
      exact (next _ _ _ onwards result _ _ _ (S.later_refl _) related').mono later'
  | stop later' shifts related' => exact .stop later' shifts related'
  | cut allowed => exact .cut allowed
  | cut' allowed => exact .cut' allowed

/-- Giving a result changes neither world, so the results have to correspond at every later stage. -/
theorem Simulates.pure {a : α} {b : β} (result : ∀ r₁, S.later r r₁ → like r₁ a b) :
    S.Simulates like r (Pure.pure a) (Pure.pure b) :=
  fun r₁ _ _ later related => .ok (S.later_refl r₁) (result r₁ later) related

/-! ### Single steps -/

/-- Stops correspond when one fault is the other one, moved. -/
theorem stop_simulates (shifts : S.Shifts k) {e e' : Stop} (same : e' = e.moved k) :
    S.Simulates like r (Run.stop e) (Run.stop e') := by
  intro r₁ w w' _ related
  subst same
  exact .stop (S.later_refl r₁) shifts related

/-- A pair of runs that does not look at the world simulates in every world. -/
theorem mirrors_simulates (shifts : S.Shifts k) {p p' : Run Value} (mirrors : Run.Mirrors k p p') :
    S.Simulates S.value r p p' := by
  intro r₁ w w' _ related
  rcases mirrors w w' with ⟨c, result, result'⟩ | ⟨e, result, result'⟩
  · rw [result, result']
    exact .ok (S.later_refl r₁) (.const c) related
  · rw [result, result']
    exact .stop (S.later_refl r₁) shifts related

/-- Printing one line on both sides keeps the printed lines the same. That the line is the same is up
to `Value.Like.display`. -/
theorem print_simulates (line : String) :
    S.Simulates (fun _ _ _ => True) r (Run.print line) (Run.print line) := by
  intro r₁ w w' _ related
  refine .ok (S.later_refl r₁) trivial { related with printed := ?_ }
  simp [related.printed]

/-- Both sides number the next function alike, so functions correspond by their numbers. -/
theorem freshFunction_simulates :
    S.Simulates (fun _ a b => b = a) r Run.freshFunction Run.freshFunction :=
  fun r₁ _ _ _ related => .ok (S.later_refl r₁) related.functions
    { related with functions := congrArg (· + 1) related.functions }

/-- Both sides are at the same reading of one clock, and each reading moves both on by one. -/
theorem readClock_simulates : S.Simulates S.value r Run.readClock Run.readClock := by
  intro r₁ w w' _ related
  unfold Run.readClock
  rw [related.clock]
  exact .ok (S.later_refl r₁) (.const _) { related with clock := rfl }

section Scopes

variable (inside : S.scope r i j)

include inside

/-- Opening scopes inside corresponding ones gives scopes that correspond from then on, and in which names may
be bound. -/
theorem enter_simulates : S.Simulates S.binds r (Run.enter i) (Run.enter j) := by
  intro r₁ w w' later related
  obtain ⟨r₂, later', stored, free⟩ := S.store_add related.store (S.scope_mono later inside)
  exact .ok later' free { related with store := stored }

/-- A variable means corresponding values in corresponding scopes, or is undefined in both. -/
theorem lookup_simulates (shifts : S.Shifts k) (name : Token) :
    S.Simulates S.value r (Run.lookup i name) (Run.lookup j (name.moved k)) := by
  intro r₁ w w' later related
  have found := S.get_like name.lexeme related.store (S.scope_mono later inside)
  unfold Run.lookup
  rw [Token.lexeme_moved]
  generalize w.store.get? i name.lexeme = o, w'.store.get? j name.lexeme = o' at found
  cases found with
  | some held => exact .ok (S.later_refl r₁) held related
  | none => exact .stop (S.later_refl r₁) shifts related

/-- Assigning reaches corresponding scopes, or fails in both at the same name. -/
theorem assign_simulates (shifts : S.Shifts k) (name : Token) {v v' : Value} (held : S.value r v v') :
    S.Simulates (fun _ _ _ => True) r (Run.assign i name v) (Run.assign j (name.moved k) v') := by
  intro r₁ w w' later related
  have owned := S.owner_binds name.lexeme related.store (S.scope_mono later inside)
  unfold Run.assign
  rw [Token.lexeme_moved]
  generalize w.store.owner? i name.lexeme = o, w'.store.owner? j name.lexeme = o' at owned
  cases owned with
  | some free =>
      have stored := S.store_define name.lexeme related.store free (value_mono later held)
      exact .ok (S.later_refl r₁) trivial { related with store := stored }
  | none => exact .stop (S.later_refl r₁) shifts related

end Scopes

section Bindings

variable (free : S.binds r i j)

include free

/-- Binding a name in corresponding scopes that may be bound in keeps the worlds in correspondence. Scopes that
only read alike are not enough for this. -/
theorem define_simulates (name : String) {v v' : Value} (held : S.value r v v') :
    S.Simulates (fun _ _ _ => True) r (Run.define i name v) (Run.define j name v') := by
  intro r₁ w w' later related
  have stored := S.store_define name related.store (S.binds_mono later free) (value_mono later held)
  exact .ok (S.later_refl r₁) trivial { related with store := stored }

/-- Parameters are bound to corresponding arguments, one after another, in the two scopes of a call. By
induction over the parameters. -/
theorem bindParameters_simulates (k : Int) (parameters : List Token) {arguments arguments' : List Value}
    (held : arguments.Forall₂ (S.value r) arguments') :
    S.Simulates (fun _ _ _ => True) r (Run.bindParameters i parameters arguments)
      (Run.bindParameters j (parameters.map (Token.moved k)) arguments') := by
  induction parameters generalizing r arguments arguments' with
  | nil => exact .pure fun _ _ => trivial
  | cons p ps ih =>
      cases held with
      | nil => exact .pure fun _ _ => trivial
      | cons first rest =>
          apply (define_simulates free p.lexeme first).bind
          intro r₁ _ _ later _
          exact ih (S.binds_mono later free) (rest.imp fun _ _ => value_mono later)

end Bindings

/-! ### Sequences and loops -/

/-- Arguments are evaluated from left to right on both sides. By induction over the list, from stage to later
stage. -/
theorem evaluateAll_simulates {evaluate evaluate' : Expr → Run Value} {es : List Expr} {f : Expr → Expr}
    (each : ∀ e ∈ es, S.Simulates S.value r (evaluate e) (evaluate' (f e))) :
    S.Simulates (fun r₁ vs vs' => vs.Forall₂ (S.value r₁) vs') r (Run.evaluateAll evaluate es)
      (Run.evaluateAll evaluate' (es.map f)) := by
  induction es generalizing r with
  | nil => exact .pure fun _ _ => .nil
  | cons e es ih =>
      apply (each e (by simp)).bind
      intro r₁ v v' later held
      apply (ih fun d listed => (each d (by simp [listed])).mono later).bind
      intro r₂ vs vs' later' helds
      exact .pure fun r₃ latest => .cons (value_mono (S.later_trans later' latest) held)
        (helds.imp fun _ _ => value_mono latest)

theorem evaluateOr_simulates {evaluate evaluate' : Expr → Run Value} {o : Option Expr} {f : Expr → Expr}
    (each : ∀ e ∈ o, S.Simulates S.value r (evaluate e) (evaluate' (f e))) :
    S.Simulates S.value r (Run.evaluateOr evaluate o) (Run.evaluateOr evaluate' (o.map f)) := by
  cases o with
  | none => exact .pure fun _ _ => .const _
  | some e => exact each e rfl

/-- Going on after a statement that ended normally, and passing on what it returned. Blocks and loops are made
of this. -/
theorem Simulates.unlessReturned {p p' q q' : Run Flow} (first : S.Simulates S.flow r p p')
    (next : ∀ r₁, S.later r r₁ → S.Simulates S.flow r₁ q q') :
    S.Simulates S.flow r
      (p >>= fun | .normal => q | .returning v => Pure.pure (.returning v))
      (p' >>= fun | .normal => q' | .returning v => Pure.pure (.returning v)) := by
  apply first.bind
  intro r₁ f f' later ended
  cases ended with
  | normal => exact next r₁ later
  | returning held => exact .pure fun r₂ later' => .returning (value_mono later' held)

/-- Statements are run one after another on both sides, until one of them returns. By induction over
the list. -/
theorem executeAll_simulates {execute execute' : Stmt → Run Flow} {ss : List Stmt} {f : Stmt → Stmt}
    (each : ∀ s ∈ ss, S.Simulates S.flow r (execute s) (execute' (f s))) :
    S.Simulates S.flow r (Run.executeAll execute ss) (Run.executeAll execute' (ss.map f)) := by
  induction ss generalizing r with
  | nil => exact .pure fun _ _ => .normal
  | cons s ss ih =>
      exact (each s (by simp)).unlessReturned fun r₁ later =>
        ih fun t listed => (each t (by simp [listed])).mono later

/-- A loop makes its turns in step on both sides. By induction over the turns that are left. -/
theorem turning_simulates (shifts : S.Shifts k) {condition condition' : Run Value} {body body' : Run Flow}
    (tested : S.Simulates S.value r condition condition') (repeated : S.Simulates S.flow r body body')
    (turns : Nat) :
    S.Simulates S.flow r (Run.turning condition body turns) (Run.turning condition' body' turns) := by
  induction turns generalizing r with
  | zero => exact stop_simulates shifts rfl
  | succ turns ih =>
      apply tested.bind
      intro r₁ v v' later held
      rw [held.isTruthy]
      split
      · apply (repeated.mono later).unlessReturned
        intro r₂ later'
        have onwards := S.later_trans later later'
        exact ih (tested.mono onwards) (repeated.mono onwards)
      · exact .pure fun _ _ => .normal

/-- A statement may run in these scopes: names can be bound there, or the statement binds none. -/
def Runs (S : Simulation) (r : S.Stage) (i j : ScopeId) (s : Stmt) : Prop :=
  S.scope r i j ∧ (S.binds r i j ∨ ∀ name, ¬ s.Declares name)

/-- In scopes where names may be bound, any statement may run, declarations included. -/
theorem Runs.of_binds (free : S.binds r i j) (s : Stmt) : S.Runs r i j s :=
  ⟨S.scope_of_binds free, .inl free⟩

theorem Runs.mono {s : Stmt} (later : S.later r r₁) (runs : S.Runs r i j s) : S.Runs r₁ i j s :=
  ⟨S.scope_mono later runs.1, runs.2.imp_left (S.binds_mono later)⟩

/-- What declares no more may run in the same scopes. -/
theorem Runs.under {s u : Stmt} (runs : S.Runs r i j s) (declares : ∀ name, u.Declares name → s.Declares name) :
    S.Runs r i j u :=
  ⟨runs.1, runs.2.imp_right fun none name bound => none name (declares name bound)⟩

/-- What binds a name must run where names can be bound. In all other scopes only statements that declare
nothing may run. -/
theorem Runs.binds {s : Stmt} (runs : S.Runs r i j s) {name : String} (declares : s.Declares name) :
    S.binds r i j :=
  runs.2.resolve_right fun none => none name declares

/-! ### Calls -/

section Calls

variable {execute execute' : Stmt → ScopeId → Run Flow}
  (simulates : ∀ r k s i j, S.code k s → S.Runs r i j s →
    S.Simulates S.flow r (execute s i) (execute' (s.moved k) j))

include simulates

/-- Calling corresponding functions opens corresponding scopes inside those that the functions were made in. The
new scopes are empty on both sides, so names may be bound there. -/
theorem callClosure_simulates {c : Closure} {outer : ScopeId} {arguments arguments' : List Value}
    (same : S.code k c.declaration) (around : S.scope r c.scope outer)
    (held : arguments.Forall₂ (S.value r) arguments') :
    S.Simulates S.value r (Run.callClosure execute c arguments)
      (Run.callClosure execute' (c.moved k outer) arguments') := by
  apply (enter_simulates around).bind
  intro r₁ inner inner' later free
  apply (bindParameters_simulates free k c.parameters (held.imp fun _ _ => value_mono later)).bind
  intro r₂ _ _ later' _
  have body : S.Simulates S.flow r₂ (Run.executeAll (fun s => execute s inner) c.body)
      (Run.executeAll (fun s => execute' s inner') (c.body.map (Stmt.moved k))) :=
    executeAll_simulates fun s listed =>
      simulates r₂ k s inner inner' (S.code_part same listed) (.of_binds (S.binds_mono later' free) s)
  apply body.bind
  intro r₃ f f' _ ended
  cases ended with
  | normal => exact .pure fun _ _ => .const _
  | returning held => exact .pure fun _ latest => value_mono latest held

/-- A call of corresponding values does the same on both sides, the checks of what is called and of the number
of arguments included. -/
theorem call_simulates (shifts : S.Shifts k) (paren : Token) {f f' : Value} {vs vs' : List Value}
    (callable : S.value r f f') (held : vs.Forall₂ (S.value r) vs') :
    S.Simulates S.value r (Run.call execute paren f vs) (Run.call execute' (paren.moved k) f' vs') := by
  have lengths : vs'.length = vs.length := held.length_eq.symm
  unfold Run.call
  cases callable with
  | const c => exact stop_simulates shifts rfl
  | native g =>
      dsimp only
      rw [lengths]
      split
      · exact stop_simulates shifts rfl
      · cases g
        exact readClock_simulates
  | @closure c l outer same around =>
      have arity : (Function.closure (c.moved l outer)).arity = (Function.closure c).arity := by
        simp [Function.arity, Closure.moved]
      dsimp only
      rw [lengths, arity]
      split
      · exact stop_simulates shifts rfl
      · exact callClosure_simulates simulates same around held

end Calls

/-! ### Whole runs -/

section Step

variable {turns depth depth' : Nat}
  (evaluated : ∀ r k e i j, S.Shifts k → S.scope r i j →
    S.Simulates S.value r (Run.evaluate turns depth e i) (Run.evaluate turns depth' (e.moved k) j))
  (executed : ∀ r k s i j, S.code k s → S.Runs r i j s →
    S.Simulates S.flow r (Run.execute turns depth s i) (Run.execute turns depth' (s.moved k) j))

include evaluated executed

/-- One level of evaluation, given that all lower levels simulate. One case for each form of expression. -/
theorem evaluate_simulates_succ (shifts : S.Shifts k) (inside : S.scope r i j) (e : Expr) :
    S.Simulates S.value r (Run.evaluate turns (depth + 1) e i)
      (Run.evaluate turns (depth' + 1) (e.moved k) j) := by
  have under {r₁} (later : S.later r r₁) (c : Expr) : S.Simulates S.value r₁
      (Run.evaluate turns depth c i) (Run.evaluate turns depth' (c.moved k) j) :=
    evaluated r₁ k c i j shifts (S.scope_mono later inside)
  have here := S.later_refl r
  cases e with
  | literal c => exact .pure fun _ _ => .const c
  | grouping inner => exact under here inner
  | unary op operand =>
      apply (under here operand).bind
      intro r₁ v v' _ held
      exact mirrors_simulates shifts (Run.unary_mirrors held op)
  | binary left op right =>
      apply (under here left).bind
      intro r₁ l l' later held
      apply (under later right).bind
      intro r₂ u u' later' held'
      exact mirrors_simulates shifts (Run.binary_mirrors (value_mono later' held) held' op)
  | logical left op right =>
      apply (under here left).bind
      intro r₁ l l' later held
      rw [held.isTruthy, Token.kind_moved]
      split
      · exact .pure fun _ latest => value_mono latest held
      · exact under later right
  | ternary condition yes no =>
      apply (under here condition).bind
      intro r₁ c c' later held
      rw [held.isTruthy]
      split
      · exact under later yes
      · exact under later no
  | «variable» name => exact lookup_simulates inside shifts name
  | assign name value =>
      apply (under here value).bind
      intro r₁ v v' later held
      apply (assign_simulates (S.scope_mono later inside) shifts name held).bind
      intro r₂ _ _ later' _
      exact .pure fun _ latest => value_mono (S.later_trans later' latest) held
  | call callee paren arguments =>
      rw [Expr.moved_call]
      apply (under here callee).bind
      intro r₁ f f' later callable
      apply (evaluateAll_simulates fun e _ => under later e).bind
      intro r₂ vs vs' later' held
      exact call_simulates executed shifts paren (value_mono later' callable) held
  | misplaced found =>
      cases found with
      | none => exact stop_simulates shifts rfl
      | some s =>
          have form := Expr.form_moved k (.misplaced (some s))
          exact stop_simulates shifts (congrArg Stop.unknownExpression form)

/-- One level of execution, given that all lower levels simulate. One case for each form of statement. -/
theorem execute_simulates_succ {s : Stmt} (same : S.code k s) (runs : S.Runs r i j s) :
    S.Simulates S.flow r (Run.execute turns (depth + 1) s i)
      (Run.execute turns (depth' + 1) (s.moved k) j) := by
  have shifts : S.Shifts k := ⟨s, same⟩
  have under (e : Expr) : S.Simulates S.value r (Run.evaluate turns depth e i)
      (Run.evaluate turns depth' (e.moved k) j) := evaluated r k e i j shifts runs.1
  cases s with
  | expression e =>
      apply (under e).bind
      intro _ _ _ _ _
      exact .pure fun _ _ => .normal
  | print e =>
      apply (under e).bind
      intro r₁ v v' _ held
      rw [held.display]
      apply (print_simulates v.display).bind
      intro _ _ _ _ _
      exact .pure fun _ _ => .normal
  | var name initial =>
      rw [Stmt.moved_var]
      apply (evaluateOr_simulates fun e _ => under e).bind
      intro r₁ v v' later held
      have free := S.binds_mono later (runs.binds (.var rfl))
      apply (define_simulates free name.lexeme held).bind
      intro _ _ _ _ _
      exact .pure fun _ _ => .normal
  | block body =>
      rw [Stmt.moved_block]
      apply (enter_simulates runs.1).bind
      intro r₁ inner inner' later free
      exact executeAll_simulates fun t listed =>
        executed r₁ k t inner inner' (S.code_part same listed) (.of_binds free t)
  | branch condition yes no =>
      rw [Stmt.moved_branch]
      apply (under condition).bind
      intro r₁ c c' later held
      have runs' := runs.mono later
      rw [held.isTruthy]
      split
      · exact executed r₁ k yes i j (S.code_part same (by simp [Stmt.parts]))
          (runs'.under fun _ => .yes)
      · cases no with
        | none => exact .pure fun _ _ => .normal
        | some other =>
            exact executed r₁ k other i j (S.code_part same (by simp [Stmt.parts]))
              (runs'.under fun _ => .no)
  | loop condition body =>
      have repeated := executed r k body i j (S.code_part same (by simp [Stmt.parts]))
        (runs.under fun _ => .body)
      exact turning_simulates shifts (under condition) repeated turns
  | function name parameters body =>
      rw [Stmt.moved_function]
      apply freshFunction_simulates.bind
      intro r₁ number number' later equal
      rw [equal]
      have free := S.binds_mono later (runs.binds (.function rfl))
      have made : S.value r₁ (.function (.closure ⟨number, name, parameters, body, i⟩))
          (.function (.closure (Closure.moved k j ⟨number, name, parameters, body, i⟩))) :=
        .closure same (S.scope_of_binds free)
      apply (define_simulates free name.lexeme made).bind
      intro _ _ _ _ _
      exact .pure fun _ _ => .normal
  | «return» keyword value =>
      rw [Stmt.moved_return]
      apply (evaluateOr_simulates fun e _ => under e).bind
      intro r₁ v v' _ held
      exact .pure fun _ latest => .returning (value_mono latest held)
  | misplaced found =>
      cases found with
      | none => exact stop_simulates shifts rfl
      | some e =>
          have form := Stmt.form_moved k (.misplaced (some e))
          exact stop_simulates shifts (congrArg Stop.unknownStatement form)

end Step

/-- **Corresponding code runs alike.** With the same depth left for both, or with leave to cut the one
that has less, all expressions and statements agree. By induction over the first depth, with the two step
lemmas above. -/
theorem evaluate_execute_simulates (turns : Nat) {depth depth' : Nat} (short : depth < depth' → S.cut)
    (short' : depth' < depth → S.cut') :
    (∀ r k e i j, S.Shifts k → S.scope r i j →
      S.Simulates S.value r (Run.evaluate turns depth e i) (Run.evaluate turns depth' (e.moved k) j)) ∧
    ∀ r k s i j, S.code k s → S.Runs r i j s →
      S.Simulates S.flow r (Run.execute turns depth s i) (Run.execute turns depth' (s.moved k) j) := by
  induction depth generalizing depth' with
  | zero =>
      cases depth' with
      | zero =>
          constructor
          · intro r k e i j shifts _
            exact stop_simulates shifts rfl
          · intro r k s i j same _
            exact stop_simulates ⟨s, same⟩ rfl
      | succ depth' =>
          have allowed := short (Nat.succ_pos depth')
          constructor
          · intro r k e i j _ _ r₁ w w' _ _
            exact .cut allowed
          · intro r k s i j _ _ r₁ w w' _ _
            exact .cut allowed
  | succ depth ih =>
      cases depth' with
      | zero =>
          have allowed := short' (Nat.succ_pos depth)
          constructor
          · intro r k e i j _ _ r₁ w w' _ _
            exact .cut' allowed
          · intro r k s i j _ _ r₁ w w' _ _
            exact .cut' allowed
      | succ depth' =>
          obtain ⟨evaluated, executed⟩ := ih (fun less => short (Nat.succ_lt_succ less))
            fun less => short' (Nat.succ_lt_succ less)
          constructor
          · intro r k e i j shifts inside
            exact evaluate_simulates_succ evaluated executed shifts inside e
          · intro r k s i j same runs
            exact execute_simulates_succ evaluated executed same runs

/-- Whole programs agree, when names can be bound in the global scopes and the depth left is the same. One code
is the other one, moved down by some lines. -/
theorem executeProgram_simulates (limits : Limits) (free : S.binds r World.globals World.globals)
    {ss : List Stmt} (same : ∀ s ∈ ss, S.code k s) :
    S.Simulates (fun _ _ _ => True) r (Run.executeProgram limits ss)
      (Run.executeProgram limits (ss.map (Stmt.moved k))) := by
  induction ss generalizing r with
  | nil => exact .pure fun _ _ => trivial
  | cons s ss ih =>
      have first := (evaluate_execute_simulates limits.turns (fun less => absurd less (Nat.lt_irrefl limits.depth))
        (fun less => absurd less (Nat.lt_irrefl limits.depth))).2 r k s World.globals World.globals
        (same s (by simp)) (.of_binds free s)
      apply first.bind
      intro r₁ _ _ later _
      exact ih (S.binds_mono later free) fun t listed => same t (by simp [listed])

end Simulation

end Treewalk

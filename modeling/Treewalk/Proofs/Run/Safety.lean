import Treewalk.Proofs.Reading.Trees
import Treewalk.Proofs.Run.Discipline

/-!
Trees that were read never fail for a reason of their own. Whatever the tokens were, the statements read
from them have outlines, and running them ends normally, returns, or stops with a runtime fault or at one
of the limits. Nothing is misplaced in such a tree, no operator is unknown, and no division by zero is
carried out. The functions met on the way have to come from trees that were read, too, and runs keep it so.
-/

namespace Treewalk

/-! ### What comes from a tree that was read -/

/-- A statement that lies in a statement read from some list of tokens. -/
def Stmt.Read (s : Stmt) : Prop :=
  ∃ depth tokens p, Program.ofTokens depth tokens = some p ∧ ∃ root ∈ p.statements, s.Within root

/-- An expression that lies in a statement read from some list of tokens. -/
def Expr.Read (e : Expr) : Prop :=
  ∃ depth tokens p, Program.ofTokens depth tokens = some p ∧ ∃ root ∈ p.statements, root.Mentions e

/-- A constant, a native function, or a function declared in a tree that was read. -/
def Value.Read : Value → Prop
  | .const _ | .function (.native _) => True
  | .function (.closure c) => (Stmt.function c.name c.parameters c.body).Read

/-- Every value in the store is one of those. -/
def Store.Read (s : Store) : Prop := ∀ id name v, (name, v) ∈ s.bindings id → v.Read

/-- A part of a statement that was read was read, so what is known of trees that were read holds all the
way down. -/
theorem Stmt.Read.part {s t : Stmt} (read : s.Read) (part : t ∈ s.parts) : t.Read := by
  obtain ⟨depth, tokens, p, parsed, root, listed, within⟩ := read
  exact ⟨depth, tokens, p, parsed, root, listed, within.part part⟩

theorem Stmt.Read.expression {s : Stmt} {e : Expr} (read : s.Read) (listed : e ∈ s.expressions) :
    e.Read := by
  obtain ⟨depth, tokens, p, parsed, root, member, within⟩ := read
  exact ⟨depth, tokens, p, parsed, root, member, within.mentions listed⟩

/-- A part of an expression that was read was read. -/
theorem Expr.Read.child {e c : Expr} (read : e.Read) (child : c ∈ e.children) : c.Read := by
  obtain ⟨depth, tokens, p, parsed, root, listed, mentions⟩ := read
  exact ⟨depth, tokens, p, parsed, root, listed, mentions.child child⟩

/-- What was read fits: operators have their kinds, and nothing is misplaced. Being read is all that a run has
to know of a tree. -/
theorem Stmt.Read.fitting {s : Stmt} (read : s.Read) : s.Fitting fun _ => True := by
  obtain ⟨depth, tokens, p, parsed, root, listed, within⟩ := read
  have formed := (Program.ofTokens_wellFormed parsed fun _ _ => trivial).1 root listed
  exact formed.statements s within

theorem Expr.Read.fitting {e : Expr} (read : e.Read) : e.Fitting fun _ => True := by
  obtain ⟨depth, tokens, p, parsed, root, listed, mentions⟩ := read
  have formed := (Program.ofTokens_wellFormed parsed fun _ _ => trivial).1 root listed
  exact formed.expressions e mentions

/-! ### Running it -/

/-- The stops that do not speak of a broken tree. -/
def Stop.Proper : Stop → Prop
  | .fault _ | .tooDeep | .endless => True
  | .unknownExpression _ | .unknownStatement _ | .unknownOperator _ | .zeroDivision _ => False

/-- An expression that was read raises runtime faults only. The other stops need a tree that reading does not
build: an operator of a wrong kind, or a misplaced part. -/
theorem Expr.Raises.proper {e : Expr} {st : Stop} (raised : e.Raises st) (read : e.Read) : st.Proper := by
  have fitting := read.fitting
  cases raised with
  | operand | operands | addends | division | name | target | arity | callee => trivial
  | operator unknown => exact absurd fitting.2 unknown
  | misplaced => exact fitting

/-- A store keeps to functions that were read when such a value is bound, whatever the scope and the name. -/
theorem Store.Read.define {s : Store} (read : s.Read) (id : ScopeId) (name : String) {v : Value}
    (readValue : v.Read) : (s.define id name v).Read := by
  intro k other found listed
  rcases Store.mem_bindings_define listed with ⟨-, rfl⟩ | before
  · exact readValue
  · exact read k other found before

/-- Runs in which every tree and every function was read. -/
def Discipline.reading : Discipline where
  store := Store.Read
  scope _ _ := True
  value _ := Value.Read
  binds _ _ := True
  expr := Expr.Read
  stmt _ := Stmt.Read
  stop := Stop.Proper
  scope_mono _ inside := inside
  value_mono _ held := held
  value_const _ := trivial
  store_add := fun read _ =>
    ⟨fun id name v listed => read id name v (by simpa using listed), trivial, fun _ => trivial⟩
  store_define := fun read _ _ held => read.define _ _ held
  store_assign := fun read _ _ held => read.define _ _ held
  value_get := fun read _ found => by
    obtain ⟨k, -, bound⟩ := Store.get?_some found
    exact read k _ _ bound
  expr_child := Expr.Read.child
  stmt_expression := Stmt.Read.expression
  stmt_branch := Stmt.Read.part
  stmt_loop read := read.part (by simp [Stmt.parts])
  stmt_block read _ listed := read.part listed
  stmt_var _ := trivial
  stmt_function _ := trivial
  value_closure _ read _ := read
  scope_closure _ := trivial
  stmt_closure read _ listed := Stmt.Read.part read listed
  stop_raised read raised := raised.proper read
  stop_misplaced read := read.fitting.elim
  stop_tooDeep := trivial
  stop_endless := trivial

/-- The natives that a world begins with were not read, but they are no closures either. -/
theorem World.initial_read (clock : Clock) : (World.initial clock).store.Read := by
  have bare : (Store.empty.add none).Read := by
    intro id name v listed
    rw [Store.bindings_add] at listed
    simp [Store.bindings, Store.empty] at listed
  exact bare.define globals Native.clock.name trivial

namespace Program

/-- **What was read runs properly.** Whatever the tokens are, each statement read from them has an outline, and
its runs end normally, by returning, with a runtime fault, too deep or not at all. -/
theorem statement_runs_properly (limit : Nat) (tokens : List Token) {p : Program} {s : Stmt}
    (parsed : ofTokens limit tokens = some p) (listed : s ∈ p.statements) :
    (∀ depth form, Outline.ofStmt depth s ≠ .error (.unprintable form)) ∧
    ∀ turns depth id w, w.store.Read →
      ((Run.execute turns depth s id).after w).store.Read ∧
      ((∃ w', Run.execute turns depth s id w = .ok .normal w') ∨
        (∃ v w', Run.execute turns depth s id w = .ok (.returning v) w' ∧ v.Read) ∨
        (∃ f w', Run.execute turns depth s id w = .error (.fault f) w') ∨
        (∃ w', Run.execute turns depth s id w = .error .tooDeep w') ∨
        ∃ w', Run.execute turns depth s id w = .error .endless w') := by
  constructor
  · intro depth form unprintable
    have formed := (ofTokens_wellFormed parsed fun _ _ => trivial).1 s listed
    have printable := Outline.ofStmt_printable (K := fun _ => True) formed depth
    rw [unprintable] at printable
    exact printable
  · intro turns depth id w read
    have root : s.Read := ⟨limit, tokens, p, parsed, s, listed, .here⟩
    have ends := Discipline.reading.execute_keeps turns depth id read root trivial
    refine ⟨ends.after.2, ?_⟩
    cases result : Run.execute turns depth s id w with
    | ok flow w' =>
        rw [result] at ends
        cases flow with
        | normal => exact .inl ⟨w', rfl⟩
        | returning v => exact .inr (.inl ⟨v, w', rfl, ends.2.2⟩)
    | error st w' =>
        rw [result] at ends
        cases st with
        | fault f => exact .inr (.inr (.inl ⟨f, w', rfl⟩))
        | tooDeep => exact .inr (.inr (.inr (.inl ⟨w', rfl⟩)))
        | endless => exact .inr (.inr (.inr (.inr ⟨w', rfl⟩)))
        | unknownExpression form => exact ends.2.2.elim
        | unknownStatement form => exact ends.2.2.elim
        | unknownOperator op => exact ends.2.2.elim
        | zeroDivision op => exact ends.2.2.elim

/-- The tokens of `(a) = b; )`, with an assignment to a group and a stray parenthesis. -/
def misassignment : List Token :=
  [sign .leftParen "(", sign .identifier "a", sign .rightParen ")", sign .equal "=",
    sign .identifier "b", sign .semicolon ";", sign .rightParen ")", sign .endOfInput ""]
where
  sign (kind : TokenKind) (lexeme : String) : Token := ⟨kind, lexeme, .nil, 1, none⟩

/-- Two faults are reported, and the value of the assignment is read as a statement all the same. -/
theorem misassignment_runs_properly :
    ∃ p, ofTokens 40 misassignment = some p ∧ p.faults.length = 2 ∧
      let s : Stmt := .expression (.variable ⟨.identifier, "b", .nil, 1, none⟩)
      let w := World.initial .stopped
      s ∈ p.statements ∧ (∀ depth form, Outline.ofStmt depth s ≠ .error (.unprintable form)) ∧
        w.store.Read ∧
        ((∃ w', Run.execute 9 9 s 0 w = .ok .normal w') ∨
          (∃ v w', Run.execute 9 9 s 0 w = .ok (.returning v) w' ∧ v.Read) ∨
          (∃ f w', Run.execute 9 9 s 0 w = .error (.fault f) w') ∨
          (∃ w', Run.execute 9 9 s 0 w = .error .tooDeep w') ∨
          ∃ w', Run.execute 9 9 s 0 w = .error .endless w') := by
  have properly := statement_runs_properly 40 misassignment rfl (.head _)
  refine ⟨_, rfl, rfl, .head _, properly.1, World.initial_read _, ?_⟩
  exact (properly.2 9 9 0 _ (World.initial_read _)).2

end Program

end Treewalk

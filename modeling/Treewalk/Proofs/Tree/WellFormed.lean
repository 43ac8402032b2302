import Treewalk.Proofs.Grammar
import Treewalk.Proofs.Tree
import Treewalk.Tree.Outline

/-!
Well-formed trees: every operator, name and keyword is a token of the right kind, taken from a given set
of tokens, the branches of an `if` and the body of a loop are no declarations, and nothing is misplaced.
A well-formed tree has an outline, unless it is nested too deeply.
-/

namespace Treewalk

/-- The operators that join two operands into a binary expression. -/
def binaryOperators : List TokenKind :=
  Level.operators .equality ++ Level.operators .comparison ++ Level.operators .sum ++
    Level.operators .product

namespace Expr

/-- What a well-formed tree asks of a single expression, its tokens being among `K`. -/
def Fitting (K : Token → Prop) : Expr → Prop
  | .literal c => c = .nil ∨ (∃ b, c = .bool b) ∨
      ∃ t, K t ∧ (t.kind = .number ∨ t.kind = .string) ∧ t.literal = c
  | .unary op _ => K op ∧ (op.kind = .bang ∨ op.kind = .minus)
  | .binary _ op _ => K op ∧ op.kind ∈ binaryOperators
  | .logical _ op _ => K op ∧ (op.kind = .andWord ∨ op.kind = .orWord)
  | .variable name | .assign name _ => K name ∧ name.kind = .identifier
  | .call _ paren _ => K paren ∧ paren.kind = .leftParen
  | .grouping _ | .ternary _ _ _ => True
  | .misplaced _ => False

/-- Every expression in a tree is fitting. -/
def WellFormed (K : Token → Prop) (e : Expr) : Prop := ∀ d : Expr, d.Within e → d.Fitting K

/-- A tree is well formed when its root fits and all its children are well formed. The cases below read this for
each form of expression. -/
theorem wellFormed_iff {K : Token → Prop} {e : Expr} :
    e.WellFormed K ↔ e.Fitting K ∧ ∀ c ∈ e.children, c.WellFormed K := by
  constructor
  · intro formed
    exact ⟨formed e .here, fun c child d within => formed d (.deeper child within)⟩
  · rintro ⟨fitting, formed⟩ d within
    rcases within_iff.mp within with rfl | ⟨c, child, inner⟩
    · exact fitting
    · exact formed c child d inner

section

variable {K : Token → Prop} {e left right : Expr} {op name : Token}

@[simp]
theorem wellFormed_bool {b : Bool} : (literal (.bool b)).WellFormed K := by
  rw [wellFormed_iff]; simp [Fitting, children]

@[simp]
theorem wellFormed_nil : (literal .nil).WellFormed K := by
  rw [wellFormed_iff]; simp [Fitting, children]

/-- The literal of a scanned number or string is well formed, as the token it comes from is known. -/
theorem wellFormed_constant {t : Token} (known : K t) (kind : t.kind = .number ∨ t.kind = .string) :
    (literal t.literal).WellFormed K := by
  rw [wellFormed_iff]
  exact ⟨.inr (.inr ⟨t, known, kind, rfl⟩), by simp [children]⟩

@[simp]
theorem wellFormed_grouping : (grouping e).WellFormed K ↔ e.WellFormed K := by
  rw [wellFormed_iff]; simp [Fitting, children]

/-- An operator with one operand keeps a token of the right kind, a minus or an exclamation mark. -/
@[simp]
theorem wellFormed_unary : (unary op e).WellFormed K ↔
    (K op ∧ (op.kind = .bang ∨ op.kind = .minus)) ∧ e.WellFormed K := by
  rw [wellFormed_iff]; simp [Fitting, children]

/-- An operator with two operands is one of the binary operators. -/
@[simp]
theorem wellFormed_binary : (binary left op right).WellFormed K ↔
    (K op ∧ op.kind ∈ binaryOperators) ∧ left.WellFormed K ∧ right.WellFormed K := by
  rw [wellFormed_iff]; simp [Fitting, children]

@[simp]
theorem wellFormed_logical : (logical left op right).WellFormed K ↔
    (K op ∧ (op.kind = .andWord ∨ op.kind = .orWord)) ∧ left.WellFormed K ∧ right.WellFormed K := by
  rw [wellFormed_iff]; simp [Fitting, children]

@[simp]
theorem wellFormed_ternary {condition yes no : Expr} : (ternary condition yes no).WellFormed K ↔
    condition.WellFormed K ∧ yes.WellFormed K ∧ no.WellFormed K := by
  rw [wellFormed_iff]; simp [Fitting, children]

@[simp]
theorem wellFormed_variable : (Expr.variable name).WellFormed K ↔ K name ∧ name.kind = .identifier := by
  rw [wellFormed_iff]; simp [Fitting, children]

/-- An assignment names its target by an identifier, which is the token that is blamed when no such name
is bound. -/
@[simp]
theorem wellFormed_assign : (assign name e).WellFormed K ↔
    (K name ∧ name.kind = .identifier) ∧ e.WellFormed K := by
  rw [wellFormed_iff]; simp [Fitting, children]

/-- A call keeps its opening parenthesis, at which its faults are reported. -/
@[simp]
theorem wellFormed_call {paren : Token} {arguments : List Expr} :
    (call e paren arguments).WellFormed K ↔
      (K paren ∧ paren.kind = .leftParen) ∧ e.WellFormed K ∧ ∀ d ∈ arguments, d.WellFormed K := by
  rw [wellFormed_iff]; simp [Fitting, children]

/-- A statement in place of an expression is never well formed. Reading builds no such tree. -/
@[simp]
theorem not_wellFormed_misplaced {found : Option Stmt} : ¬ (misplaced found).WellFormed K := by
  rw [wellFormed_iff]; simp [Fitting]

end

end Expr

namespace Stmt

/-- Whether a statement declares something, rather than being one that may stand alone in a branch. -/
def isDeclaration : Stmt → Bool
  | .var _ _ | .function _ _ _ => true
  | _ => false

/-- What a well-formed tree asks of a single statement. -/
def Fitting (K : Token → Prop) : Stmt → Prop
  | .expression _ | .print _ | .block _ => True
  | .var name _ => K name ∧ name.kind = .identifier
  | .branch _ yes no => yes.isDeclaration = false ∧ ∀ s ∈ no, s.isDeclaration = false
  | .loop _ body => body.isDeclaration = false
  | .function name parameters _ => (K name ∧ name.kind = .identifier) ∧
      ∀ t ∈ parameters, K t ∧ t.kind = .identifier
  | .return keyword _ => K keyword ∧ keyword.kind = .returnWord
  | .misplaced _ => False

/-- Every statement and every expression in a tree is fitting. -/
structure WellFormed (K : Token → Prop) (s : Stmt) : Prop where
  statements : ∀ t : Stmt, t.Within s → t.Fitting K
  expressions : ∀ e, s.Mentions e → e.Fitting K

/-- A statement is well formed when its root fits, and its expressions and its parts are well formed. -/
theorem wellFormed_iff {K : Token → Prop} {s : Stmt} :
    s.WellFormed K ↔ s.Fitting K ∧ (∀ e ∈ s.expressions, e.WellFormed K) ∧
      ∀ t ∈ s.parts, t.WellFormed K := by
  constructor
  · intro formed
    refine ⟨formed.statements s .here, fun e listed d within => ?_, fun t part => ⟨?_, ?_⟩⟩
    · exact formed.expressions d (.direct listed within)
    · exact fun u within => formed.statements u (.deeper part within)
    · exact fun e mentions => formed.expressions e (.deeper part mentions)
  · rintro ⟨fitting, expressions, parts⟩
    refine ⟨fun t within => ?_, fun e mentions => ?_⟩
    · rcases within_iff.mp within with rfl | ⟨u, part, inner⟩
      · exact fitting
      · exact (parts u part).statements t inner
    · rcases mentions_iff.mp mentions with ⟨d, listed, inner⟩ | ⟨u, part, inner⟩
      · exact expressions d listed e inner
      · exact (parts u part).expressions e inner

section

variable {K : Token → Prop} {e : Expr} {s : Stmt} {body : List Stmt} {name : Token}

@[simp]
theorem wellFormed_expression : (expression e).WellFormed K ↔ e.WellFormed K := by
  rw [wellFormed_iff]; simp [Fitting, expressions, parts]

@[simp]
theorem wellFormed_print : (print e).WellFormed K ↔ e.WellFormed K := by
  rw [wellFormed_iff]; simp [Fitting, expressions, parts]

@[simp]
theorem wellFormed_var {value : Option Expr} : (var name value).WellFormed K ↔
    (K name ∧ name.kind = .identifier) ∧ ∀ e ∈ value, e.WellFormed K := by
  rw [wellFormed_iff]; simp [Fitting, expressions, parts]

@[simp]
theorem wellFormed_block : (block body).WellFormed K ↔ ∀ t ∈ body, t.WellFormed K := by
  rw [wellFormed_iff]; simp [Fitting, expressions, parts]

/-- The arms of a branch are statements that declare nothing, so a name is never declared under a condition
without a block around it. -/
@[simp]
theorem wellFormed_branch {no : Option Stmt} : (branch e s no).WellFormed K ↔
    (s.isDeclaration = false ∧ ∀ t ∈ no, t.isDeclaration = false) ∧ e.WellFormed K ∧
      s.WellFormed K ∧ ∀ t ∈ no, t.WellFormed K := by
  rw [wellFormed_iff]; simp [Fitting, expressions, parts]

/-- The body of a loop is a statement that declares nothing. -/
@[simp]
theorem wellFormed_loop : (loop e s).WellFormed K ↔
    s.isDeclaration = false ∧ e.WellFormed K ∧ s.WellFormed K := by
  rw [wellFormed_iff]; simp [Fitting, expressions, parts]

/-- A function names itself and its parameters by identifiers. -/
@[simp]
theorem wellFormed_function {parameters : List Token} : (function name parameters body).WellFormed K ↔
    ((K name ∧ name.kind = .identifier) ∧ ∀ t ∈ parameters, K t ∧ t.kind = .identifier) ∧
      ∀ t ∈ body, t.WellFormed K := by
  rw [wellFormed_iff]; simp [Fitting, expressions, parts]

@[simp]
theorem wellFormed_return {value : Option Expr} : (Stmt.return name value).WellFormed K ↔
    (K name ∧ name.kind = .returnWord) ∧ ∀ e ∈ value, e.WellFormed K := by
  rw [wellFormed_iff]; simp [Fitting, expressions, parts]

@[simp]
theorem not_wellFormed_misplaced {found : Option Expr} : ¬ (misplaced found).WellFormed K := by
  rw [wellFormed_iff]; simp [Fitting]

end

/-- Clauses and a body that are well formed make a well-formed loop. The body must not be a declaration, since
it may become the body of the loop as it is. -/
theorem wellFormed_forLoop {K : Token → Prop} {initial : Option Stmt} {condition increment : Option Expr}
    {body : Stmt} (first : ∀ s ∈ initial, s.WellFormed K) (tested : ∀ e ∈ condition, e.WellFormed K)
    (stepped : ∀ e ∈ increment, e.WellFormed K) (repeated : body.WellFormed K)
    (statement : body.isDeclaration = false) :
    (forLoop initial condition increment body).WellFormed K := by
  have test : (condition.getD (.literal (.bool true))).WellFormed K := by
    cases condition with
    | none => simp
    | some e => exact tested e rfl
  have loop : (forLoop none condition increment body).WellFormed K := by
    cases increment with
    | none => simpa [forLoop] using ⟨statement, test, repeated⟩
    | some e => simpa [forLoop, isDeclaration] using ⟨test, repeated, stepped e rfl⟩
  cases initial with
  | none => exact loop
  | some s => simpa [forLoop] using And.intro (first s rfl) loop

/-- The loop that stands for a `for` statement is a loop or a block, so it may be the arm of a branch or the
body of another loop. -/
theorem forLoop_isDeclaration (initial : Option Stmt) (condition increment : Option Expr) (body : Stmt) :
    (forLoop initial condition increment body).isDeclaration = false := by
  cases initial <;> rfl

end Stmt

/-! ### Outlines -/

namespace Outline

/-- An outline, or none because of the depth. -/
def Printable {α : Type} : Except OutlineFault α → Prop
  | .ok _ | .error .tooDeep => True
  | .error (.unprintable _) => False

/-- Printing in two steps works out when both steps do, whatever the first one printed. -/
theorem Printable.bind {α β : Type} {x : Except OutlineFault α} {f : α → Except OutlineFault β}
    (first : Printable x) (next : ∀ a, Printable (f a)) : Printable (x >>= f) := by
  cases x with
  | ok a => exact next a
  | error fault => cases fault <;> exact first

theorem Printable.ok {α : Type} (a : α) : Printable (.ok a) := trivial

/-- A row of expressions has an outline when each of them does. -/
theorem ofExprs_printable {depth : Nat} {es : List Expr}
    (each : ∀ e ∈ es, Printable (ofExpr depth e)) : Printable (ofExprs depth es) := by
  induction es with
  | nil => simp [ofExprs, Printable]
  | cons e es ih =>
      rw [ofExprs]
      have first := each e (by simp)
      have more := ih fun d listed => each d (by simp [listed])
      exact first.bind fun _ => more.bind fun _ => .ok _

theorem ofStmts_printable {depth : Nat} {ss : List Stmt}
    (each : ∀ s ∈ ss, Printable (ofStmt depth s)) : Printable (ofStmts depth ss) := by
  induction ss with
  | nil => simp [ofStmts, Printable]
  | cons s ss ih =>
      rw [ofStmts]
      have first := each s (by simp)
      have more := ih fun t listed => each t (by simp [listed])
      exact first.bind fun _ => more.bind fun _ => .ok _

variable {K : Token → Prop}

/-- A well-formed expression has an outline unless it is nested too deeply. The depth is the only reason for
having none. -/
theorem ofExpr_printable {e : Expr} (formed : e.WellFormed K) (depth : Nat) :
    Printable (ofExpr depth e) := by
  induction depth generalizing e with
  | zero => cases e <;> simp_all [ofExpr, Printable]
  | succ depth ih =>
      cases e with
      | literal c => simp [ofExpr, Printable]
      | «variable» name => simp [ofExpr, Printable]
      | misplaced found => simp at formed
      | grouping inner =>
          rw [ofExpr]
          exact (ih (by simpa using formed)).bind fun _ => .ok _
      | unary op operand =>
          rw [ofExpr]
          rw [Expr.wellFormed_unary] at formed
          exact (ih formed.2).bind fun _ => .ok _
      | binary left op right =>
          rw [ofExpr]
          rw [Expr.wellFormed_binary] at formed
          exact (ih formed.2.1).bind fun _ => (ih formed.2.2).bind fun _ => .ok _
      | logical left op right =>
          rw [ofExpr]
          rw [Expr.wellFormed_logical] at formed
          exact (ih formed.2.1).bind fun _ => (ih formed.2.2).bind fun _ => .ok _
      | ternary condition yes no =>
          rw [ofExpr]
          rw [Expr.wellFormed_ternary] at formed
          exact (ih formed.1).bind fun _ => (ih formed.2.1).bind fun _ => (ih formed.2.2).bind fun _ =>
            .ok _
      | assign name value =>
          rw [ofExpr]
          rw [Expr.wellFormed_assign] at formed
          exact (ih formed.2).bind fun _ => .ok _
      | call callee paren arguments =>
          rw [ofExpr]
          rw [Expr.wellFormed_call] at formed
          have listed := ofExprs_printable fun e member => ih (formed.2.2 e member)
          exact (ih formed.2.1).bind fun _ => listed.bind fun _ => .ok _

/-- A well-formed statement has an outline unless it is nested too deeply. By induction over the depth, with
`ofExpr_printable` for its expressions. -/
theorem ofStmt_printable {s : Stmt} (formed : s.WellFormed K) (depth : Nat) :
    Printable (ofStmt depth s) := by
  induction depth generalizing s with
  | zero => cases s <;> simp_all [ofStmt, Printable]
  | succ depth ih =>
      cases s with
      | misplaced found => simp at formed
      | expression e =>
          rw [ofStmt]
          exact (ofExpr_printable (by simpa using formed) depth).bind fun _ => .ok _
      | print e =>
          rw [ofStmt]
          exact (ofExpr_printable (by simpa using formed) depth).bind fun _ => .ok _
      | var name initial =>
          rw [Stmt.wellFormed_var] at formed
          cases initial with
          | none => simp [ofStmt, Printable]
          | some e =>
              rw [ofStmt]
              exact (ofExpr_printable (formed.2 e rfl) depth).bind fun _ => .ok _
      | block body =>
          rw [ofStmt]
          rw [Stmt.wellFormed_block] at formed
          exact (ofStmts_printable fun t member => ih (formed t member)).bind fun _ => .ok _
      | branch condition yes no =>
          rw [Stmt.wellFormed_branch] at formed
          obtain ⟨-, tested, first, second⟩ := formed
          cases no with
          | none =>
              rw [ofStmt]
              exact (ofExpr_printable tested depth).bind fun _ => (ih first).bind fun _ => .ok _
          | some s =>
              rw [ofStmt]
              exact (ofExpr_printable tested depth).bind fun _ => (ih first).bind fun _ =>
                (ih (second s rfl)).bind fun _ => .ok _
      | loop condition body =>
          rw [ofStmt]
          rw [Stmt.wellFormed_loop] at formed
          exact (ofExpr_printable formed.2.1 depth).bind fun _ => (ih formed.2.2).bind fun _ => .ok _
      | function name parameters body =>
          rw [ofStmt]
          rw [Stmt.wellFormed_function] at formed
          exact (ofStmts_printable fun t member => ih (formed.2 t member)).bind fun _ => .ok _
      | «return» keyword value =>
          rw [Stmt.wellFormed_return] at formed
          cases value with
          | none => simp [ofStmt, Printable]
          | some e =>
              rw [ofStmt]
              exact (ofExpr_printable (formed.2 e rfl) depth).bind fun _ => .ok _

end Outline

end Treewalk

import Treewalk.Diagnostic
import Treewalk.Proofs.Tree

/-!
Moving a program down by a number of lines. Moving changes the lines of tokens and nothing else: a moved
tree has the same form, the same names and the same constants.
-/

namespace Treewalk

/-- The token moved down by `k` lines. -/
def Token.moved (k : Int) (t : Token) : Token := { t with line := t.line + k }

/-- The diagnostic moved down by `k` lines. -/
def Diagnostic.moved (k : Int) (d : Diagnostic) : Diagnostic := { d with line := d.line + k }

/-- Moving a token keeps its kind, by which readers decide. -/
@[simp]
theorem Token.kind_moved (k : Int) (t : Token) : (t.moved k).kind = t.kind := rfl

@[simp]
theorem Token.lexeme_moved (k : Int) (t : Token) : (t.moved k).lexeme = t.lexeme := rfl

/-- Moving by no line is no change, so facts about moved trees hold of the trees themselves. -/
theorem Token.moved_zero (t : Token) : t.moved 0 = t := by
  simp [moved]

/-- A report at a token moves with the token, and a report at the end of the input with the end. -/
theorem Diagnostic.moved_atToken (k : Int) (t : Token) (message : String) :
    (atToken t message).moved k = atToken (t.moved k) message := by
  unfold atToken
  by_cases ended : t.kind = .endOfInput
  · have ended' : (t.moved k).kind = .endOfInput := ended
    rw [if_pos ended, if_pos ended']
    rfl
  · have ended' : ¬ (t.moved k).kind = .endOfInput := ended
    rw [if_neg ended, if_neg ended']
    rfl

mutual

/-- The expression with all its tokens moved. -/
def Expr.moved (k : Int) : Expr → Expr
  | .literal c => .literal c
  | .grouping e => .grouping (e.moved k)
  | .unary op e => .unary (op.moved k) (e.moved k)
  | .binary left op right => .binary (left.moved k) (op.moved k) (right.moved k)
  | .logical left op right => .logical (left.moved k) (op.moved k) (right.moved k)
  | .ternary condition yes no => .ternary (condition.moved k) (yes.moved k) (no.moved k)
  | .variable name => .variable (name.moved k)
  | .assign name value => .assign (name.moved k) (value.moved k)
  | .call callee paren arguments => .call (callee.moved k) (paren.moved k) (Expr.movedAll k arguments)
  | .misplaced none => .misplaced none
  | .misplaced (some s) => .misplaced (some (s.moved k))

/-- Expressions with all their tokens moved. -/
def Expr.movedAll (k : Int) : List Expr → List Expr
  | [] => []
  | e :: rest => e.moved k :: Expr.movedAll k rest

/-- The statement with all its tokens moved. -/
def Stmt.moved (k : Int) : Stmt → Stmt
  | .expression e => .expression (e.moved k)
  | .print e => .print (e.moved k)
  | .var name none => .var (name.moved k) none
  | .var name (some e) => .var (name.moved k) (some (e.moved k))
  | .block body => .block (Stmt.movedAll k body)
  | .branch condition yes none => .branch (condition.moved k) (yes.moved k) none
  | .branch condition yes (some no) => .branch (condition.moved k) (yes.moved k) (some (no.moved k))
  | .loop condition body => .loop (condition.moved k) (body.moved k)
  | .function name parameters body =>
    .function (name.moved k) (parameters.map (Token.moved k)) (Stmt.movedAll k body)
  | .return keyword none => .return (keyword.moved k) none
  | .return keyword (some e) => .return (keyword.moved k) (some (e.moved k))
  | .misplaced none => .misplaced none
  | .misplaced (some e) => .misplaced (some (e.moved k))

/-- Statements with all their tokens moved. -/
def Stmt.movedAll (k : Int) : List Stmt → List Stmt
  | [] => []
  | s :: rest => s.moved k :: Stmt.movedAll k rest

end

section

variable (k : Int)

theorem Expr.movedAll_eq_map (es : List Expr) : Expr.movedAll k es = es.map (Expr.moved k) := by
  induction es with
  | nil => simp [Expr.movedAll]
  | cons e rest ih => simp [Expr.movedAll, ih]

theorem Stmt.movedAll_eq_map (ss : List Stmt) : Stmt.movedAll k ss = ss.map (Stmt.moved k) := by
  induction ss with
  | nil => simp [Stmt.movedAll]
  | cons s rest ih => simp [Stmt.movedAll, ih]

theorem Expr.moved_call (callee : Expr) (paren : Token) (arguments : List Expr) :
    (Expr.call callee paren arguments).moved k =
      .call (callee.moved k) (paren.moved k) (arguments.map (Expr.moved k)) := by
  rw [Expr.moved, Expr.movedAll_eq_map]

theorem Stmt.moved_var (name : Token) (initial : Option Expr) :
    (Stmt.var name initial).moved k = .var (name.moved k) (initial.map (Expr.moved k)) := by
  cases initial <;> rw [Stmt.moved] <;> rfl

theorem Stmt.moved_block (body : List Stmt) :
    (Stmt.block body).moved k = .block (body.map (Stmt.moved k)) := by
  rw [Stmt.moved, Stmt.movedAll_eq_map]

theorem Stmt.moved_branch (condition : Expr) (yes : Stmt) (no : Option Stmt) :
    (Stmt.branch condition yes no).moved k =
      .branch (condition.moved k) (yes.moved k) (no.map (Stmt.moved k)) := by
  cases no <;> rw [Stmt.moved] <;> rfl

theorem Stmt.moved_function (name : Token) (parameters : List Token) (body : List Stmt) :
    (Stmt.function name parameters body).moved k =
      .function (name.moved k) (parameters.map (Token.moved k)) (body.map (Stmt.moved k)) := by
  rw [Stmt.moved, Stmt.movedAll_eq_map]

theorem Stmt.moved_return (keyword : Token) (value : Option Expr) :
    (Stmt.return keyword value).moved k = .return (keyword.moved k) (value.map (Expr.moved k)) := by
  cases value <;> rw [Stmt.moved] <;> rfl

end

/-! ### Moving by no line -/

mutual

/-- Moving an expression by no line is no change. By recursion over the tree, together with statements and lists
of either. -/
theorem Expr.moved_zero : ∀ e : Expr, e.moved 0 = e
  | .literal c => rfl
  | .grouping e => by simp [Expr.moved, Expr.moved_zero e]
  | .unary op e => by simp [Expr.moved, Token.moved_zero, Expr.moved_zero e]
  | .binary left op right => by
    simp [Expr.moved, Token.moved_zero, Expr.moved_zero left, Expr.moved_zero right]
  | .logical left op right => by
    simp [Expr.moved, Token.moved_zero, Expr.moved_zero left, Expr.moved_zero right]
  | .ternary condition yes no => by
    simp [Expr.moved, Expr.moved_zero condition, Expr.moved_zero yes, Expr.moved_zero no]
  | .variable name => by simp [Expr.moved, Token.moved_zero]
  | .assign name value => by simp [Expr.moved, Token.moved_zero, Expr.moved_zero value]
  | .call callee paren arguments => by
    simp [Expr.moved, Token.moved_zero, Expr.moved_zero callee, Expr.movedAll_zero arguments]
  | .misplaced none => rfl
  | .misplaced (some s) => by simp [Expr.moved, Stmt.moved_zero s]

theorem Expr.movedAll_zero : ∀ es : List Expr, Expr.movedAll 0 es = es
  | [] => rfl
  | e :: rest => by simp [Expr.movedAll, Expr.moved_zero e, Expr.movedAll_zero rest]

/-- Moving a statement by no line is no change. -/
theorem Stmt.moved_zero : ∀ s : Stmt, s.moved 0 = s
  | .expression e => by simp [Stmt.moved, Expr.moved_zero e]
  | .print e => by simp [Stmt.moved, Expr.moved_zero e]
  | .var name none => by simp [Stmt.moved, Token.moved_zero]
  | .var name (some e) => by simp [Stmt.moved, Token.moved_zero, Expr.moved_zero e]
  | .block body => by simp [Stmt.moved, Stmt.movedAll_zero body]
  | .branch condition yes none => by simp [Stmt.moved, Expr.moved_zero condition, Stmt.moved_zero yes]
  | .branch condition yes (some no) => by
    simp [Stmt.moved, Expr.moved_zero condition, Stmt.moved_zero yes, Stmt.moved_zero no]
  | .loop condition body => by simp [Stmt.moved, Expr.moved_zero condition, Stmt.moved_zero body]
  | .function name parameters body => by
    simp [Stmt.moved, Token.moved_zero, Stmt.movedAll_zero body, List.map_id'']
  | .return keyword none => by simp [Stmt.moved, Token.moved_zero]
  | .return keyword (some e) => by simp [Stmt.moved, Token.moved_zero, Expr.moved_zero e]
  | .misplaced none => rfl
  | .misplaced (some e) => by simp [Stmt.moved, Expr.moved_zero e]

theorem Stmt.movedAll_zero : ∀ ss : List Stmt, Stmt.movedAll 0 ss = ss
  | [] => rfl
  | s :: rest => by simp [Stmt.movedAll, Stmt.moved_zero s, Stmt.movedAll_zero rest]

end

end Treewalk

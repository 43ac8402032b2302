import Treewalk.Limits
import Treewalk.Tree

/-!
Reverse Polish notation: the operands of an expression first, then its operator. Parentheses are not
needed and groupings leave no trace; a minus sign with one operand is written `~`. Assignments and
calls have no such form. Each level of nesting takes one unit of a depth budget.
-/

namespace Treewalk

/-- Why a tree has no reverse Polish form. -/
inductive PolishFault where
  | tooDeep
  | noForm (form : String)
deriving DecidableEq, Repr

def PolishFault.message : PolishFault → String
  | .tooDeep => depthMessage
  | .noForm form => "no reverse Polish form for " ++ form

namespace ReversePolish

/-- The sign of an operator with one operand. -/
def unarySign (op : Token) : String := if op.lexeme = "-" then "~" else op.lexeme

def ofExpr : Nat → Expr → Except PolishFault String
  | 0, _ => .error .tooDeep
  | depth + 1, .binary left op right => do
    let l ← ofExpr depth left
    let r ← ofExpr depth right
    return " ".intercalate [l, r, op.lexeme]
  | depth + 1, .logical left op right => do
    let l ← ofExpr depth left
    let r ← ofExpr depth right
    return " ".intercalate [l, r, op.lexeme]
  | depth + 1, .grouping inner => ofExpr depth inner
  | depth + 1, .unary op operand => do
    let e ← ofExpr depth operand
    return " ".intercalate [e, unarySign op]
  | depth + 1, .ternary condition yes no => do
    let c ← ofExpr depth condition
    let y ← ofExpr depth yes
    let n ← ofExpr depth no
    return " ".intercalate [c, y, n, "?:"]
  | _ + 1, .literal value => .ok value.outline
  | _ + 1, .variable name => .ok name.lexeme
  | _ + 1, e => .error (.noForm e.form)

/-- No statement has a reverse Polish form; an expression in its place keeps its own. -/
def ofStmt (depth : Nat) : Stmt → Except PolishFault String
  | .misplaced (some e) => ofExpr depth e
  | s => .error (.noForm s.form)

end ReversePolish

end Treewalk

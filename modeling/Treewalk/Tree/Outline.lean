import Treewalk.Limits
import Treewalk.Tree

/-!
Outlines: trees written in parenthesised form, the operator or keyword first. Each level of nesting
takes one unit of a depth budget, so a tree that is nested too deeply has no outline.
-/

namespace Treewalk

/-- Why a tree has no outline. -/
inductive OutlineFault where
  | tooDeep
  | unprintable (form : String)
deriving DecidableEq, Repr

def OutlineFault.message : OutlineFault → String
  | .tooDeep => depthMessage
  | .unprintable form => "cannot print " ++ form

namespace Outline

/-- A head and its parts between parentheses. -/
def parenthesized (head : String) (parts : List String) : String :=
  "(" ++ " ".intercalate (head :: parts) ++ ")"

mutual

def ofExpr : Nat → Expr → Except OutlineFault String
  | depth, .misplaced none => if depth = 0 then .error .tooDeep else .error (.unprintable "NoneType")
  | depth, .misplaced (some s) => ofStmt depth s
  | 0, _ => .error .tooDeep
  | _ + 1, .literal value => .ok value.outline
  | depth + 1, .grouping inner => do
    let e ← ofExpr depth inner
    return parenthesized "group" [e]
  | depth + 1, .unary op operand => do
    let e ← ofExpr depth operand
    return parenthesized op.lexeme [e]
  | depth + 1, .binary left op right => do
    let l ← ofExpr depth left
    let r ← ofExpr depth right
    return parenthesized op.lexeme [l, r]
  | depth + 1, .logical left op right => do
    let l ← ofExpr depth left
    let r ← ofExpr depth right
    return parenthesized op.lexeme [l, r]
  | depth + 1, .ternary condition yes no => do
    let c ← ofExpr depth condition
    let y ← ofExpr depth yes
    let n ← ofExpr depth no
    return parenthesized "ternary" [c, y, n]
  | _ + 1, .variable name => .ok name.lexeme
  | depth + 1, .assign name value => do
    let v ← ofExpr depth value
    return parenthesized ("= " ++ name.lexeme) [v]
  | depth + 1, .call callee _ arguments => do
    let f ← ofExpr depth callee
    let args ← ofExprs depth arguments
    return parenthesized "call" (f :: args)

def ofExprs : Nat → List Expr → Except OutlineFault (List String)
  | _, [] => .ok []
  | depth, e :: es => do
    let first ← ofExpr depth e
    let more ← ofExprs depth es
    return first :: more

def ofStmt : Nat → Stmt → Except OutlineFault String
  | depth, .misplaced none => if depth = 0 then .error .tooDeep else .error (.unprintable "NoneType")
  | depth, .misplaced (some e) => ofExpr depth e
  | 0, _ => .error .tooDeep
  | depth + 1, .expression e => do
    let v ← ofExpr depth e
    return parenthesized ";" [v]
  | depth + 1, .print e => do
    let v ← ofExpr depth e
    return parenthesized "print" [v]
  | _ + 1, .var name none => .ok (parenthesized ("var " ++ name.lexeme) [])
  | depth + 1, .var name (some initial) => do
    let v ← ofExpr depth initial
    return parenthesized ("var " ++ name.lexeme) [v]
  | depth + 1, .block body => do
    let parts ← ofStmts depth body
    return parenthesized "block" parts
  | depth + 1, .branch condition yes none => do
    let c ← ofExpr depth condition
    let y ← ofStmt depth yes
    return parenthesized "if" [c, y]
  | depth + 1, .branch condition yes (some no) => do
    let c ← ofExpr depth condition
    let y ← ofStmt depth yes
    let n ← ofStmt depth no
    return parenthesized "if" [c, y, n]
  | depth + 1, .loop condition body => do
    let c ← ofExpr depth condition
    let b ← ofStmt depth body
    return parenthesized "while" [c, b]
  | depth + 1, .function name parameters body => do
    let parts ← ofStmts depth body
    let names := " ".intercalate (parameters.map Token.lexeme)
    return parenthesized ("fun " ++ name.lexeme ++ " (" ++ names ++ ")") parts
  | _ + 1, .return _ none => .ok (parenthesized "return" [])
  | depth + 1, .return _ (some value) => do
    let v ← ofExpr depth value
    return parenthesized "return" [v]

def ofStmts : Nat → List Stmt → Except OutlineFault (List String)
  | _, [] => .ok []
  | depth, s :: ss => do
    let first ← ofStmt depth s
    let more ← ofStmts depth ss
    return first :: more

end

end Outline

end Treewalk

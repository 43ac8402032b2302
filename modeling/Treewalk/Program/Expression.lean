import Treewalk.Program.Cursor
import Treewalk.Tree

/-!
Reading expressions. The grammar has one rule for each level of precedence, from assignment, the
loosest, to primary expressions. Entering a rule takes one unit of depth.

    assignment  ::= IDENTIFIER "=" assignment | disjunction
    disjunction ::= conjunction ( "or" conjunction )*
    conjunction ::= ternary ( "and" ternary )*
    ternary     ::= equality ( "?" assignment ":" ternary )?
    equality    ::= comparison ( ( "!=" | "==" ) comparison )*
    comparison  ::= sum ( ( ">" | ">=" | "<" | "<=" ) sum )*
    sum         ::= product ( ( "-" | "+" ) product )*
    product     ::= unary ( ( "/" | "*" ) unary )*
    unary       ::= ( "!" | "-" ) unary | call
    call        ::= primary ( "(" ( assignment ( "," assignment )* )? ")" )*
    primary     ::= "true" | "false" | "nil" | NUMBER | STRING | IDENTIFIER | "(" assignment ")"
-/

namespace Treewalk

/-- The levels of precedence. -/
inductive Level where
  | assignment | disjunction | conjunction | ternary | equality | comparison | sum | product
  | unary | call | primary
deriving DecidableEq, Repr

namespace Parse

/-- More operands of a chain of left-associative operators, the chain so far being `left`. -/
def chain (ops : List TokenKind) (join : Expr → Token → Expr → Expr) (operand : Parse Expr) :
    Nat → Expr → Parse Expr
  | 0, left => return left
  | fuel + 1, left => do
    match ← accept? ops with
    | none => return left
    | some op =>
      let right ← operand
      chain ops join operand fuel (join left op right)

/-- A chain of left-associative operators. -/
def leftAssoc (ops : List TokenKind) (join : Expr → Token → Expr → Expr) (operand : Parse Expr) :
    Parse Expr := do
  let first ← operand
  chain ops join operand (← remaining) first

/-- The arguments of a call up to the closing parenthesis, which is read too. -/
def arguments (argument : Parse Expr) : Parse (List Expr) :=
  items .tooManyArguments .parenAfterArguments argument

/-- More calls of what was read so far. -/
def calls (argument : Parse Expr) : Nat → Expr → Parse Expr
  | 0, callee => return callee
  | fuel + 1, callee => do
    match ← accept? [.leftParen] with
    | none => return callee
    | some paren =>
      let args ← arguments argument
      calls argument fuel (.call callee paren args)

/-- A constant, a name or a group. -/
def primary (inner : Parse Expr) : Parse Expr := do
  match ← accept? [.falseWord, .trueWord, .nilWord, .number, .string, .identifier, .leftParen] with
  | none => fail .expression
  | some t =>
    match t.kind with
    | .falseWord => return .literal (.bool false)
    | .trueWord => return .literal (.bool true)
    | .nilWord => return .literal .nil
    | .identifier => return .variable t
    | .leftParen =>
      let e ← inner
      let _ ← expect .rightParen .parenAfterExpression
      return .grouping e
    | _ => return .literal t.literal

/-- An assignment to what was read before the sign. Only a name can be assigned to; otherwise the value
stands alone. -/
def assignTo (target : Expr) (sign : Token) (value : Expr) : Parse Expr :=
  match target with
  | .variable name => return .assign name value
  | _ => do
    report sign .assignmentTarget
    return value

/-- Reads an expression of the given level. -/
def expression : Nat → Level → Parse Expr
  | 0, _ => tooDeep
  | depth + 1, .assignment => do
    let target ← expression depth .disjunction
    match ← accept? [.equal] with
    | none => return target
    | some sign =>
      let value ← expression depth .assignment
      assignTo target sign value
  | depth + 1, .disjunction => leftAssoc [.orWord] .logical (expression depth .conjunction)
  | depth + 1, .conjunction => leftAssoc [.andWord] .logical (expression depth .ternary)
  | depth + 1, .ternary => do
    let condition ← expression depth .equality
    match ← accept? [.question] with
    | none => return condition
    | some _ =>
      let yes ← expression depth .assignment
      let _ ← expect .colon .colonAfterBranch
      let no ← expression depth .ternary
      return .ternary condition yes no
  | depth + 1, .equality =>
    leftAssoc [.bangEqual, .equalEqual] .binary (expression depth .comparison)
  | depth + 1, .comparison =>
    leftAssoc [.greater, .greaterEqual, .less, .lessEqual] .binary (expression depth .sum)
  | depth + 1, .sum => leftAssoc [.minus, .plus] .binary (expression depth .product)
  | depth + 1, .product => leftAssoc [.slash, .star] .binary (expression depth .unary)
  | depth + 1, .unary => do
    match ← accept? [.bang, .minus] with
    | none => expression depth .call
    | some op =>
      let operand ← expression depth .unary
      return .unary op operand
  | depth + 1, .call => do
    let callee ← expression depth .primary
    calls (expression depth .assignment) (← remaining) callee
  | depth + 1, .primary => primary (expression depth .assignment)

end Parse

end Treewalk

import Treewalk.Limits
import Treewalk.Run.Operator

/-!
Running statements and evaluating expressions. Both recurse on the depth that is left, and each level
of a tree and each call takes one unit of it; so every run ends, and a run that nests too deeply stops
as such. A statement ends normally or returns a value; a returned value travels up to the call that it
belongs to. Loops turn at most as often as their bound says.
-/

namespace Treewalk

/-- How a statement ends. -/
inductive Flow where
  | normal
  | returning (value : Value)

namespace Run

/-- Evaluates expressions from left to right. -/
def evaluateAll (evaluate : Expr → Run Value) : List Expr → Run (List Value)
  | [] => return []
  | e :: rest => do
    let v ← evaluate e
    let vs ← evaluateAll evaluate rest
    return v :: vs

/-- Evaluates an expression that may be left out; without it the value is `nil`. -/
def evaluateOr (evaluate : Expr → Run Value) : Option Expr → Run Value
  | none => return .nil
  | some e => evaluate e

/-- Runs statements in order, up to the first that returns. -/
def executeAll (execute : Stmt → Run Flow) : List Stmt → Run Flow
  | [] => return .normal
  | s :: rest => do
    match ← execute s with
    | .normal => executeAll execute rest
    | .returning v => return .returning v

/-- Turns a loop while its condition holds and its body does not return. -/
def turning (condition : Run Value) (body : Run Flow) : Nat → Run Flow
  | 0 => stop .endless
  | turns + 1 => do
    if (← condition).isTruthy then
      match ← body with
      | .normal => turning condition body turns
      | .returning v => return .returning v
    else return .normal

/-- Binds parameters to arguments in order. Parameters without an argument stay unbound, and arguments
without a parameter are dropped. -/
def bindParameters (scope : ScopeId) : List Token → List Value → Run Unit
  | p :: ps, v :: vs => do
    define scope p.lexeme v
    bindParameters scope ps vs
  | _, _ => return ()

/-- Calls a function of the program: its body runs in a new scope inside the one it was declared in.
`execute` runs a statement in a scope. -/
def callClosure (execute : Stmt → ScopeId → Run Flow) (c : Closure) (arguments : List Value) :
    Run Value := do
  let scope ← enter c.scope
  bindParameters scope c.parameters arguments
  match ← executeAll (fun s => execute s scope) c.body with
  | .normal => return .nil
  | .returning v => return v

/-- Calls a value. -/
def call (execute : Stmt → ScopeId → Run Flow) (paren : Token) (callee : Value)
    (arguments : List Value) : Run Value :=
  match callee with
  | .const _ => fault (.notCallable paren)
  | .function f =>
    if arguments.length ≠ f.arity then
      fault (.arityMismatch paren f.arity arguments.length)
    else
      match f with
      | .native .clock => readClock
      | .closure c => callClosure execute c arguments

mutual

/-- Evaluates an expression in a scope. -/
def evaluate (turns : Nat) : Nat → Expr → ScopeId → Run Value
  | 0, _, _ => stop .tooDeep
  | _ + 1, .literal c, _ => return .const c
  | depth + 1, .grouping inner, scope => evaluate turns depth inner scope
  | depth + 1, .unary op operand, scope => do
    unary op (← evaluate turns depth operand scope)
  | depth + 1, .binary left op right, scope => do
    let l ← evaluate turns depth left scope
    let r ← evaluate turns depth right scope
    binary op l r
  | depth + 1, .logical left op right, scope => do
    let l ← evaluate turns depth left scope
    -- `or` stops at a true left side, any other operator at a false one
    if l.isTruthy = decide (op.kind = .orWord) then return l
    else evaluate turns depth right scope
  | depth + 1, .ternary condition yes no, scope => do
    if (← evaluate turns depth condition scope).isTruthy then evaluate turns depth yes scope
    else evaluate turns depth no scope
  | _ + 1, .variable name, scope => lookup scope name
  | depth + 1, .assign name value, scope => do
    let v ← evaluate turns depth value scope
    assign scope name v
    return v
  | depth + 1, .call callee paren arguments, scope => do
    let f ← evaluate turns depth callee scope
    let vs ← evaluateAll (fun e => evaluate turns depth e scope) arguments
    call (execute turns depth) paren f vs
  | _ + 1, .misplaced found, _ => stop (.unknownExpression (Expr.misplaced found).form)

/-- Runs a statement in a scope. -/
def execute (turns : Nat) : Nat → Stmt → ScopeId → Run Flow
  | 0, _, _ => stop .tooDeep
  | depth + 1, .expression e, scope => do
    let _ ← evaluate turns depth e scope
    return .normal
  | depth + 1, .print e, scope => do
    print (← evaluate turns depth e scope).display
    return .normal
  | depth + 1, .var name initial, scope => do
    let v ← evaluateOr (fun e => evaluate turns depth e scope) initial
    define scope name.lexeme v
    return .normal
  | depth + 1, .block body, scope => do
    let inner ← enter scope
    executeAll (fun s => execute turns depth s inner) body
  | depth + 1, .branch condition yes no, scope => do
    if (← evaluate turns depth condition scope).isTruthy then execute turns depth yes scope
    else
      match no with
      | none => return .normal
      | some s => execute turns depth s scope
  | depth + 1, .loop condition body, scope =>
    turning (evaluate turns depth condition scope) (execute turns depth body scope) turns
  | _ + 1, .function name parameters body, scope => do
    let id ← freshFunction
    define scope name.lexeme (.function (.closure ⟨id, name, parameters, body, scope⟩))
    return .normal
  | depth + 1, .return _ value, scope => do
    return .returning (← evaluateOr (fun e => evaluate turns depth e scope) value)
  | _ + 1, .misplaced found, _ => stop (.unknownStatement (Stmt.misplaced found).form)

end

/-- Runs statements in the global scope one after another. A value returned at the top level ends its
own statement only. -/
def executeProgram (limits : Limits) : List Stmt → Run Unit
  | [] => return ()
  | s :: rest => do
    let _ ← execute limits.turns limits.depth s World.globals
    executeProgram limits rest

end Run

end Treewalk

import Treewalk.Program.Expression

/-!
Reading declarations and statements. There is no form of its own for a `for` loop: it is read as a
`while` loop, with its clauses around and inside it. A `return` outside every function body is
reported but read like any other. Entering a declaration or a statement takes one unit of depth.

    declaration ::= "fun" IDENTIFIER "(" parameters? ")" block
                  | "var" IDENTIFIER ( "=" expression )? ";"
                  | statement
    statement   ::= expression ";" | "print" expression ";" | "return" expression? ";" | block
                  | "if" "(" expression ")" statement ( "else" statement )?
                  | "while" "(" expression ")" statement
                  | "for" "(" ( varDeclaration | expression ";" | ";" ) expression? ";"
                    expression? ")" statement
    block       ::= "{" declaration* "}"
-/

namespace Treewalk

/-- The `while` form of a `for` loop. -/
def Stmt.forLoop (initial : Option Stmt) (condition increment : Option Expr) (body : Stmt) : Stmt :=
  let turn :=
    match increment with
    | none => body
    | some e => .block [body, .expression e]
  let loop := Stmt.loop (condition.getD (.literal (.bool true))) turn
  match initial with
  | none => loop
  | some s => .block [s, loop]

namespace Parse

/-- Declarations up to the end of the input or a token of kind `stop`, which is left unread.
Malformed ones are left out. -/
def declarationsUpTo (stop : Option TokenKind) (declaration : Parse (Option Stmt)) :
    Nat → Parse (List Stmt)
  | 0 => return []
  | fuel + 1 => fun c =>
    match c.rest with
    | [] => .ok [] c
    | t :: _ =>
      if stop = some t.kind then .ok [] c
      else (do
        let first ← declaration
        let more ← declarationsUpTo stop declaration fuel
        return first.toList ++ more : Parse (List Stmt)) c

/-- The rest of a block whose opening brace was read. -/
def blockBody (declaration : Parse (Option Stmt)) : Parse (List Stmt) := do
  let body ← declarationsUpTo (some .rightBrace) declaration (← remaining)
  let _ ← expect .rightBrace .braceAfterBlock
  return body

/-- A function declaration after its keyword. -/
def functionRest (declaration : Parse (Option Stmt)) : Parse Stmt := do
  let name ← expect .identifier .functionName
  let _ ← expect .leftParen .parenAfterFunctionName
  let parameters ← items .tooManyParameters .parenAfterParameters
    (expect .identifier .parameterName)
  let _ ← expect .leftBrace .braceBeforeBody
  let body ← blockBody declaration
  return .function name parameters body

/-- A variable declaration after its keyword. -/
def varRest (expr : Parse Expr) : Parse Stmt := do
  let name ← expect .identifier .variableName
  let initial ← afterSign .equal expr
  let _ ← expect .semicolon .semicolonAfterVariable
  return .var name initial

def expressionStatement (expr : Parse Expr) : Parse Stmt := do
  let e ← expr
  let _ ← expect .semicolon .semicolonAfterExpression
  return .expression e

/-- The first clause of a `for` loop. -/
def forInitial (expr : Parse Expr) : Parse (Option Stmt) := do
  match ← accept? [.semicolon, .varWord] with
  | none => some <$> expressionStatement expr
  | some t => if t.kind = .semicolon then return none else some <$> varRest expr

def forRest (expr : Parse Expr) (body : Parse Stmt) : Parse Stmt := do
  let _ ← expect .leftParen .parenAfterFor
  let initial ← forInitial expr
  let condition ← unlessNext .semicolon expr
  let _ ← expect .semicolon .semicolonAfterCondition
  let increment ← unlessNext .rightParen expr
  let _ ← expect .rightParen .parenAfterClauses
  return Stmt.forLoop initial condition increment (← body)

def ifRest (expr : Parse Expr) (body : Parse Stmt) : Parse Stmt := do
  let _ ← expect .leftParen .parenAfterIf
  let condition ← expr
  let _ ← expect .rightParen .parenAfterIfCondition
  let yes ← body
  let no ← afterSign .elseWord body
  return .branch condition yes no

def printRest (expr : Parse Expr) : Parse Stmt := do
  let e ← expr
  let _ ← expect .semicolon .semicolonAfterPrinted
  return .print e

def returnRest (inFunction : Bool) (keyword : Token) (expr : Parse Expr) : Parse Stmt := do
  reportIf (!inFunction) (report keyword .topLevelReturn)
  let value ← unlessNext .semicolon expr
  let _ ← expect .semicolon .semicolonAfterReturned
  return .return keyword value

def whileRest (expr : Parse Expr) (body : Parse Stmt) : Parse Stmt := do
  let _ ← expect .leftParen .parenAfterWhile
  let condition ← expr
  let _ ← expect .rightParen .parenAfterCondition
  return .loop condition (← body)

mutual

/-- Reads a declaration, or skips a malformed one. `inFunction` says whether a function body is
around it. -/
def declaration : Nat → Bool → Parse (Option Stmt)
  | 0, _ => tooDeep
  | depth + 1, inFunction => recovering do
    match ← accept? [.funWord, .varWord] with
    | none => statement depth inFunction
    | some t =>
      if t.kind = .funWord then functionRest (declaration depth true)
      else varRest (expression depth .assignment)

/-- Reads a statement. -/
def statement : Nat → Bool → Parse Stmt
  | 0, _ => tooDeep
  | depth + 1, inFunction => do
    match ← accept? [.forWord, .ifWord, .printWord, .returnWord, .whileWord, .leftBrace] with
    | none => expressionStatement (expression depth .assignment)
    | some t =>
      match t.kind with
      | .forWord => forRest (expression depth .assignment) (statement depth inFunction)
      | .ifWord => ifRest (expression depth .assignment) (statement depth inFunction)
      | .printWord => printRest (expression depth .assignment)
      | .returnWord => returnRest inFunction t (expression depth .assignment)
      | .whileWord => whileRest (expression depth .assignment) (statement depth inFunction)
      | _ => .block <$> blockBody (declaration depth inFunction)

end

end Parse

end Treewalk

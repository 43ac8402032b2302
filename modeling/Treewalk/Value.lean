import Treewalk.Tree

/-!
Values of a running program: constants and functions. A function declared by the program remembers
the scope it was declared in. Every evaluation of a declaration makes a new function, told apart from
all others by its number, and a function is equal only to itself.
-/

namespace Treewalk

/-- Scopes are numbered in the order of their creation. -/
abbrev ScopeId := Nat

/-- Functions that every program finds among its globals. -/
inductive Native where
  /-- The time in seconds. -/
  | clock
deriving DecidableEq, Repr

namespace Native

def all : List Native := [.clock]

def name : Native → String
  | .clock => "clock"

def arity : Native → Nat
  | .clock => 0

end Native

/-- A function declared by the program. -/
structure Closure where
  id : Nat
  name : Token
  parameters : List Token
  body : List Stmt
  scope : ScopeId

inductive Function where
  | native (f : Native)
  | closure (c : Closure)

namespace Function

def name : Function → String
  | .native f => f.name
  | .closure c => c.name.lexeme

def arity : Function → Nat
  | .native f => f.arity
  | .closure c => c.parameters.length

def display : Function → String
  | .native f => "<native fn " ++ f.name ++ ">"
  | .closure c => "<fn " ++ c.name.lexeme ++ ">"

/-- A longer description, with the number of parameters. -/
def describe : Function → String
  | .native f => "NativeFunction(name='" ++ f.name ++ "', arity=" ++ toString f.arity ++ ")"
  | .closure c =>
    "UserFunction(name='" ++ c.name.lexeme ++ "', arity=" ++ toString c.parameters.length ++ ")"

def same : Function → Function → Bool
  | .native f, .native g => f == g
  | .closure c, .closure d => c.id == d.id
  | _, _ => false

end Function

inductive Value where
  | const (c : Constant)
  | function (f : Function)

namespace Value

def nil : Value := .const .nil

def bool (b : Bool) : Value := .const (.bool b)

def number (x : Float) : Value := .const (.number x)

def text (s : String) : Value := .const (.text s)

def isNumber : Value → Bool
  | .const (.number _) => true
  | _ => false

/-- Only `nil` and `false` count as false. -/
def isTruthy : Value → Bool
  | .const c => c.isTruthy
  | .function _ => true

/-- The equality of the language. -/
def same : Value → Value → Bool
  | .const c, .const d => c.same d
  | .function f, .function g => f.same g
  | _, _ => false

/-- The text that `print` shows. -/
def display : Value → String
  | .const c => c.display
  | .function f => f.display

end Value

end Treewalk

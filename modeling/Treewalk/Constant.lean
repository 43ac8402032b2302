import Treewalk.Number.Text

/-!
Constants: the values that a program can spell out. They are what a token can hold and what a
literal expression evaluates to. Numbers are compared bit by bit here; the equality of the language
is another relation, on values.
-/

namespace Treewalk

inductive Constant where
  | nil
  | bool (b : Bool)
  | number (x : Float)
  | text (s : String)
deriving DecidableEq

namespace Constant

/-- The text of a literal in an outline: texts stand in double quotes, with no escapes. -/
def outline : Constant → String
  | .nil => "nil"
  | .bool b => if b then "true" else "false"
  | .number x => Number.outline x
  | .text s => "\"" ++ s ++ "\""

/-- The text that `print` shows. -/
def display : Constant → String
  | .nil => "nil"
  | .bool b => if b then "true" else "false"
  | .number x => Number.display x
  | .text s => s

/-- The text in the description of a token, where `nil` says that the token holds nothing. -/
def describe : Constant → String
  | .nil => "None"
  | .bool b => if b then "True" else "False"
  | .number x => Number.outline x
  | .text s => s

/-- Only `nil` and `false` count as false. -/
def isTruthy : Constant → Bool
  | .nil => false
  | .bool b => b
  | _ => true

/-- The equality of the language. Constants of different types differ; a number that is no number
differs from itself, and the two zeros are equal. -/
def same : Constant → Constant → Bool
  | .nil, .nil => true
  | .bool a, .bool b => a == b
  | .number x, .number y => x == y
  | .text s, .text t => s == t
  | _, _ => false

end Constant

end Treewalk

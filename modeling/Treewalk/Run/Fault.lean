import Treewalk.Token

/-!
Runtime faults, each with the token that it is blamed on.
-/

namespace Treewalk

inductive RuntimeFault where
  | undefinedVariable (name : Token)
  | operandNotNumber (op : Token)
  | operandsNotNumbers (op : Token)
  | operandsNotAddable (op : Token)
  | divisionByZero (op : Token)
  | arityMismatch (paren : Token) (expected got : Nat)
  | notCallable (paren : Token)
deriving DecidableEq

namespace RuntimeFault

/-- The token that the fault is blamed on. -/
def token : RuntimeFault → Token
  | .undefinedVariable name => name
  | .operandNotNumber op => op
  | .operandsNotNumbers op => op
  | .operandsNotAddable op => op
  | .divisionByZero op => op
  | .arityMismatch paren _ _ => paren
  | .notCallable paren => paren

def message : RuntimeFault → String
  | .undefinedVariable name => "Undefined variable '" ++ name.lexeme ++ "'."
  | .operandNotNumber _ => "Operand must be a number."
  | .operandsNotNumbers _ => "Operands must be numbers."
  | .operandsNotAddable _ => "Operands must be two numbers or include a string."
  | .divisionByZero _ => "Division by zero."
  | .arityMismatch _ expected got =>
    "Expected " ++ toString expected ++ " arguments but got " ++ toString got ++ "."
  | .notCallable _ => "Can only call functions."

end RuntimeFault

end Treewalk

import Treewalk.Run.World

/-!
Operators on values. What an operator does depends on the kind of its token alone.
-/

namespace Treewalk

namespace Run

/-- `!` of anything, and minus of a number. -/
def unary (op : Token) (operand : Value) : Run Value :=
  if op.kind = .bang then pure (.bool !operand.isTruthy)
  else
    match operand with
    | .const (.number x) => pure (.number (-x))
    | _ => fault (.operandNotNumber op)

/-- Adds numbers, and joins texts when there is a text among the two. -/
def add (op : Token) (left right : Value) : Run Value :=
  match left, right with
  | .const (.number x), .const (.number y) => pure (.number (x + y))
  | .const (.text s), v => pure (.text (s ++ v.display))
  | v, .const (.text s) => pure (.text (v.display ++ s))
  | _, _ => fault (.operandsNotAddable op)

/-- The operators that need two numbers. Division by zero has no result, so it is met before. -/
def arithmetic (op : Token) (x y : Float) : Run Value :=
  match op.kind with
  | .minus => pure (.number (x - y))
  | .star => pure (.number (x * y))
  | .slash => if y == 0.0 then stop (.zeroDivision op) else pure (.number (x / y))
  | .greater => pure (.bool (decide (y < x)))
  | .greaterEqual => pure (.bool (decide (y ≤ x)))
  | .less => pure (.bool (decide (x < y)))
  | .lessEqual => pure (.bool (decide (x ≤ y)))
  | _ => stop (.unknownOperator op)

def binary (op : Token) (left right : Value) : Run Value :=
  match op.kind with
  | .equalEqual => pure (.bool (left.same right))
  | .bangEqual => pure (.bool !left.same right)
  | .plus => add op left right
  | _ =>
    match left, right with
    | .const (.number x), .const (.number y) =>
      if op.kind = .slash ∧ (y == 0.0) = true then fault (.divisionByZero op)
      else arithmetic op x y
    | _, _ => fault (.operandsNotNumbers op)

end Run

end Treewalk

/-!
Decimal numbers: a coefficient and a power of ten. A number written in a program is read into a
`Decimal`, brought to its normal form, and rounded to the nearest binary64 number. Since rounding
sees only the normal form, two spellings of one number (`1.5`, `1.50`) always read alike.
-/

namespace Treewalk

/-- The number `coefficient * 10 ^ exponent`. -/
structure Decimal where
  coefficient : Nat
  exponent : Int
deriving DecidableEq, Repr

namespace Decimal

/-- Moves up to `fuel` trailing zeros of the coefficient into the exponent. -/
def stripZeros : Nat → Decimal → Decimal
  | 0, d => d
  | fuel + 1, d =>
    if d.coefficient % 10 = 0 then stripZeros fuel ⟨d.coefficient / 10, d.exponent + 1⟩ else d

/-- The spelling of a number with no trailing zero in the coefficient; zero is `0 * 10 ^ 0`. -/
def normal (d : Decimal) : Decimal :=
  if d.coefficient = 0 then ⟨0, 0⟩ else stripZeros (d.coefficient.log2 + 1) d

/-- The digits of the coefficient, most significant first. -/
def digits (d : Decimal) : List Char := Nat.toDigits 10 d.coefficient

/-- The power of ten of the leading digit. -/
def magnitude (d : Decimal) : Int := d.exponent + d.digits.length - 1

/-- The nearest binary64 number, ties to even, infinite when there is none near. -/
def toFloat (d : Decimal) : Float :=
  let n := d.normal
  Float.ofScientific n.coefficient (decide (n.exponent < 0)) n.exponent.natAbs

/-- Reads digits with an optional fraction: `12`, `12.50`. -/
def ofDigits (text : List Char) : Decimal :=
  let whole := text.takeWhile Char.isDigit
  let fraction := (text.dropWhile Char.isDigit).drop 1
  ⟨Nat.ofDigitChars 10 (whole ++ fraction) 0, -(fraction.length : Int)⟩

/-- Reads an exponent with an optional sign; no text at all is zero. -/
def exponentOf : List Char → Int
  | '-' :: digits => -(Nat.ofDigitChars 10 digits 0 : Int)
  | '+' :: digits => Nat.ofDigitChars 10 digits 0
  | digits => Nat.ofDigitChars 10 digits 0

/-- Reads digits with an optional fraction and an optional power of ten: `12`, `12.50`, `1.25e+01`. -/
def ofText (text : List Char) : Decimal :=
  let d := ofDigits (text.takeWhile (· != 'e'))
  ⟨d.coefficient, d.exponent + exponentOf ((text.dropWhile (· != 'e')).drop 1)⟩

/-! ### Layouts -/

/-- Without an exponent, with at least one digit on each side of the point. -/
def positional (d : Decimal) : List Char :=
  let ds := d.digits
  if 0 ≤ d.exponent then ds ++ List.replicate d.exponent.toNat '0' ++ ['.', '0']
  else
    let places := d.exponent.natAbs
    if places < ds.length then
      ds.take (ds.length - places) ++ '.' :: ds.drop (ds.length - places)
    else '0' :: '.' :: List.replicate (places - ds.length) '0' ++ ds

/-- One digit before the point; `bare` follows a digit that stands alone. -/
def mantissa (bare : List Char) (d : Decimal) : List Char :=
  match d.digits with
  | [] => bare
  | [lead] => lead :: bare
  | lead :: tail => lead :: '.' :: tail

end Decimal

end Treewalk

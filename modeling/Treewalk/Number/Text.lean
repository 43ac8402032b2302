import Treewalk.Number.Shortest

/-!
The two ways a number is written. An *outline* text shows a number as a syntax tree holds it:
positional from `1e-4` up to `1e16`, always with a fraction or an exponent. A *display* text is what
a running program prints: positional from `0.001` up to `10000000`, scientific outside. Both use the
shortest digits that read back, since a display text is made from the outline text: it is that text, or
its digits laid out anew.
-/

namespace Treewalk

namespace Number

/-- The magnitude of `x`: `x` without its sign. -/
def abs (x : Float) : Float := if Binary.isNegative x then -x else x

/-- Puts the sign of `x` in front of a text. -/
def signed (x : Float) (text : List Char) : List Char :=
  if Binary.isNegative x then '-' :: text else text

/-- An exponent with its sign and at least two digits. -/
def paddedExponent (e : Int) : List Char :=
  let ds := Nat.toDigits 10 e.natAbs
  (if e < 0 then '-' else '+') :: (List.replicate (2 - ds.length) '0' ++ ds)

/-- An exponent without a plus sign. -/
def plainExponent (e : Int) : List Char :=
  if e < 0 then '-' :: Nat.toDigits 10 e.natAbs else Nat.toDigits 10 e.natAbs

/-- A decimal in outline layout. -/
def outlineLayout (d : Decimal) : List Char :=
  if -4 ≤ d.magnitude ∧ d.magnitude < 16 then d.positional
  else d.mantissa [] ++ 'e' :: paddedExponent d.magnitude

/-- The text of a number in a syntax tree: `1.0`, `1e+16`, `inf`. -/
def outline (x : Float) : String :=
  match Binary.ofFloat x with
  | .nan => "nan"
  | .infinite => String.ofList (signed x ['i', 'n', 'f'])
  | .finite m e => String.ofList (signed x (outlineLayout (Decimal.shortest (abs x) m e)))

/-- Whether `x` is displayed without an exponent. -/
def isPositional (x : Float) : Bool :=
  x == 0.0 || (0.001 ≤ abs x && abs x < 10000000.0)

/-- Drops the zeros at the end of digits. -/
def dropTrailingZeros (digits : List Char) : List Char :=
  (digits.reverse.dropWhile (· == '0')).reverse

/-- Lays the digits of a text out in scientific notation: `0.00015` becomes `1.5E-4`. -/
def toScientific (text : List Char) : List Char :=
  let d := Decimal.ofText text
  let digits := dropTrailingZeros d.digits
  let places := digits.drop 1
  digits.take 1 ++ '.' :: (if places.isEmpty then ['0'] else places) ++
    'E' :: plainExponent d.magnitude

/-- The same for a text with an optional minus. -/
def toSignedScientific : List Char → List Char
  | '-' :: text => '-' :: toScientific text
  | text => toScientific text

/-- The text of a number with its fraction: `1.0`, `1.0E7`, `Infinity`. -/
def format (x : Float) : String :=
  match Binary.ofFloat x with
  | .nan => "NaN"
  | .infinite => if Binary.isNegative x then "-Infinity" else "Infinity"
  | .finite _ _ =>
    if isPositional x then outline x else String.ofList (toSignedScientific (outline x).toList)

/-- Drops a fraction that is only a zero. -/
def dropZeroFraction (text : List Char) : List Char :=
  if text.drop (text.length - 2) = ['.', '0'] then text.take (text.length - 2) else text

/-- The text `print` shows for a number: `1`, `1.5`, `1.0E7`. -/
def display (x : Float) : String := String.ofList (dropZeroFraction (format x).toList)

end Number

end Treewalk

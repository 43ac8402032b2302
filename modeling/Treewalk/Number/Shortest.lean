import Treewalk.Number.Decimal

/-!
The shortest decimal that reads back as a given binary64 number. A finite number is a whole
mantissa times a power of two; on the grid of decimals with one digit, then two, up to seventeen,
its two neighbours are read back, and the first grid with a neighbour that reads back wins. Of two
such neighbours the nearer is taken, of two equally near the even one.
-/

namespace Treewalk

/-- What the bits of a binary64 number say, its sign aside. -/
inductive Binary where
  | nan
  | infinite
  /-- The number `mantissa * 2 ^ exponent`. -/
  | finite (mantissa : Nat) (exponent : Int)
deriving DecidableEq, Repr

namespace Binary

def ofFloat (x : Float) : Binary :=
  let bits : Nat := x.toBits.toNat
  let field : Nat := bits / 0x10000000000000 % 2048
  let fraction : Nat := bits % 0x10000000000000
  if field = 2047 then (if fraction = 0 then .infinite else .nan)
  else if field = 0 then .finite fraction (-1074)
  else .finite (0x10000000000000 + fraction) ((field : Int) - 1075)

/-- Whether the sign bit is set. -/
def isNegative (x : Float) : Bool := decide (0x8000000000000000 ≤ x.toBits.toNat)

/-- Numerator and denominator of `mantissa * 2 ^ exponent`. -/
def fraction (mantissa : Nat) (exponent : Int) : Nat × Nat :=
  if 0 ≤ exponent then (mantissa * Nat.pow 2 exponent.toNat, 1)
  else (mantissa, Nat.pow 2 exponent.natAbs)

/-- The same number as a decimal, with all its digits. -/
def toDecimal (mantissa : Nat) (exponent : Int) : Decimal :=
  if 0 ≤ exponent then ⟨mantissa * Nat.pow 2 exponent.toNat, 0⟩
  else ⟨mantissa * Nat.pow 5 exponent.natAbs, exponent⟩

end Binary

namespace Decimal

/-- How many times `num` must be multiplied by ten to reach `den`. -/
def placesBelow : Nat → Nat → Nat → Nat
  | 0, _, _ => 0
  | fuel + 1, num, den => if den ≤ num then 0 else placesBelow fuel (num * 10) den + 1

/-- The power of ten of the leading digit of `num / den`. -/
def leading (num den : Nat) : Int :=
  if den ≤ num then (Nat.toDigits 10 (num / den)).length - 1
  else -(placesBelow 400 num den : Int)

/-- The neighbour of `num / den` on the grid of multiples of `10 ^ unit` that reads back as `x`. -/
def onGrid (x : Float) (num den : Nat) (unit : Int) : Option Decimal :=
  let n := if unit < 0 then num * Nat.pow 10 unit.natAbs else num
  let d := if unit < 0 then den else den * Nat.pow 10 unit.natAbs
  let below : Decimal := ⟨n / d, unit⟩
  let above : Decimal := ⟨n / d + 1, unit⟩
  let distance := 2 * (n % d)
  match decide (below.toFloat = x), decide (above.toFloat = x) with
  | true, true =>
    if distance < d ∨ (distance = d ∧ n / d % 2 = 0) then some below else some above
  | true, false => some below
  | false, true => some above
  | false, false => none

/-- The shortest decimal for `x`, which is `mantissa * 2 ^ exponent` and not negative. The full
expansion stands in for a search that found nothing. -/
def shortest (x : Float) (mantissa : Nat) (exponent : Int) : Decimal :=
  let (num, den) := Binary.fraction mantissa exponent
  let lead : Int := leading num den
  let found := (List.range 17).findSome? fun (k : Nat) => onGrid x num den (lead - k)
  (found.getD (Binary.toDecimal mantissa exponent)).normal

end Decimal

end Treewalk

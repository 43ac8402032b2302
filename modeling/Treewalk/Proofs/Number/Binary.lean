import Treewalk.Number.Text
import Mathlib

/-!
Binary64 numbers by their parts. What a number is follows from its sign bit and from what `Binary.ofFloat`
reads off its other bits (`Binary.eq_of_parts`). The arithmetic of numbers takes them apart in the same way
(`Binary.unpack_eq`), and a canonical mantissa with its exponent is put together again without loss
(`Binary.ofFloat_toFloat`).
-/

namespace Treewalk

open Float.Model Float.Model.UnpackedFloat

namespace Binary

/-- The mantissas and exponents of the numbers that are neither zero nor infinite. -/
structure Canonical (mantissa : Nat) (exponent : Int) : Prop where
  positive : 0 < mantissa
  small : mantissa < 2 ^ 53
  least : -1074 ≤ exponent
  greatest : exponent ≤ 971
  full : 2 ^ 52 ≤ mantissa ∨ exponent = -1074

/-- The sign of a number, as its arithmetic has it. -/
def sign (x : Float) : Sign := if isNegative x then .negative else .positive

/-! ### Bits -/

section Bits

variable (b : BitVec Format.binary64.numBits)

/-- The fraction is what the lowest 52 bits of a word say. -/
theorem toNat_unpackMantissa : (unpackMantissa b).toNat = b.toNat % 0x10000000000000 := by
  simp [unpackMantissa, BitVec.extractLsb_toNat]

/-- The exponent field is what the next eleven bits say. -/
theorem toNat_unpackExponent : (unpackExponent b).toNat = b.toNat / 0x10000000000000 % 2048 := by
  simp [unpackExponent, BitVec.extractLsb_toNat, Nat.shiftRight_eq_div_pow]

theorem toNat_unpackSign : (unpackSign b).toNat = b.toNat / 0x8000000000000000 := by
  have small : b.toNat < 2 ^ 64 := b.isLt
  have bit : b.toNat / 0x8000000000000000 < 2 := by omega
  simpa [unpackSign, BitVec.extractLsb_toNat, Nat.shiftRight_eq_div_pow] using Nat.mod_eq_of_lt bit

/-- A word is put together from its fields by place value, with nothing lost between them. With the three
equations above, packing and unpacking become arithmetic on whole numbers. -/
theorem toNat_packComponents (s : Sign) (e : BitVec 11) (m : BitVec 52) :
    (packComponents Format.binary64 s e m).toNat =
      s.toBitVec.toNat * 0x8000000000000000 + e.toNat * 0x10000000000000 + m.toNat := by
  simp only [packComponents, BitVec.toNat_append]
  rw [← Nat.shiftLeft_add_eq_or_of_lt m.isLt, ← Nat.shiftLeft_add_eq_or_of_lt e.isLt]
  simp only [Nat.shiftLeft_eq]
  omega

end Bits

theorem ofBitVec_unpackSign (x : Float) :
    Sign.ofBitVec (@unpackSign .binary64 x.toBits.toBitVec) = sign x := by
  have bit : (@unpackSign .binary64 x.toBits.toBitVec).toNat = x.toBits.toNat / 0x8000000000000000 :=
    toNat_unpackSign _
  unfold Sign.ofBitVec sign isNegative
  by_cases negative : 0x8000000000000000 ≤ x.toBits.toNat
  · rw [if_neg, decide_eq_true negative]
    · rfl
    · intro zero
      rw [zero, BitVec.toNat_zero] at bit
      omega
  · rw [if_pos, decide_eq_false negative]
    · rfl
    · apply BitVec.eq_of_toNat_eq
      rw [bit, BitVec.toNat_zero]
      omega

/-! ### Taking apart and putting together -/

/-- A sign and the other parts of a number, as its arithmetic has them. -/
def unpacked (s : Sign) : Binary → UnpackedFloat
  | .nan => .notANumber
  | .infinite => .infinity s
  | .finite m e => if zero : m = 0 then .zero s else .finite s m e (Nat.pos_of_ne_zero zero)

theorem unpacked_finite (s : Sign) {m : Nat} (positive : 0 < m) (e : Int) :
    unpacked s (.finite m e) = .finite s m e positive :=
  dif_neg (Nat.ne_of_gt positive)

/-- The unpacked form of a number is its sign and its parts. Arithmetic on numbers is defined on this form, so
all facts about it go through this equation. -/
theorem unpack_eq (x : Float) : x.toModel.unpack = unpacked (sign x) (ofFloat x) := by
  have exponent : (@unpackExponent .binary64 x.toBits.toBitVec).toNat =
      x.toBits.toNat / 0x10000000000000 % 2048 := toNat_unpackExponent _
  have mantissa : (@unpackMantissa .binary64 x.toBits.toBitVec).toNat =
      x.toBits.toNat % 0x10000000000000 := toNat_unpackMantissa _
  have top : @unpackExponent .binary64 x.toBits.toBitVec = -1#11 ↔
      x.toBits.toNat / 0x10000000000000 % 2048 = 2047 := by
    rw [← BitVec.toNat_inj, exponent]
    rfl
  have bottom : @unpackExponent .binary64 x.toBits.toBitVec = 0#11 ↔
      x.toBits.toNat / 0x10000000000000 % 2048 = 0 := by
    rw [← BitVec.toNat_inj, exponent]
    rfl
  have empty : @unpackMantissa .binary64 x.toBits.toBitVec = 0#52 ↔
      x.toBits.toNat % 0x10000000000000 = 0 := by
    rw [← BitVec.toNat_inj, mantissa]
    rfl
  have leading : (1#1 ++ @unpackMantissa .binary64 x.toBits.toBitVec).toNat =
      0x10000000000000 + x.toBits.toNat % 0x10000000000000 := by
    rw [BitVec.toNat_append, ← Nat.shiftLeft_add_eq_or_of_lt (BitVec.isLt _), mantissa]
    rfl
  -- The fields are quotients and remainders of the word, so both sides test the same numbers.
  change UnpackedFloat.unpack Format.binary64 x.toBits.toBitVec = _
  unfold UnpackedFloat.unpack ofFloat
  dsimp only
  by_cases infinite : x.toBits.toNat / 0x10000000000000 % 2048 = 2047
  · rw [if_pos (top.mpr infinite), if_pos infinite, ofBitVec_unpackSign]
    by_cases bare : x.toBits.toNat % 0x10000000000000 = 0
    · rw [if_pos (empty.mpr bare), if_pos bare, unpacked]
    · rw [if_neg (mt empty.mp bare), if_neg bare, unpacked]
  · rw [if_neg (mt top.mp infinite), if_neg infinite, ofBitVec_unpackSign]
    by_cases subnormal : x.toBits.toNat / 0x10000000000000 % 2048 = 0
    · rw [if_pos (bottom.mpr subnormal), if_pos subnormal]
      by_cases bare : x.toBits.toNat % 0x10000000000000 = 0
      · rw [dif_pos (empty.mpr bare), bare]
        rfl
      · rw [dif_neg (mt empty.mp bare), unpacked_finite _ (Nat.pos_of_ne_zero bare)]
        simp only [mantissa, exponent, subnormal]
        rfl
    · rw [if_neg (mt bottom.mp subnormal), if_neg subnormal, unpacked_finite _ (by omega)]
      simp only [leading, exponent]
      congr 1

/-- What the bits of a number can say, unless it is no number. -/
inductive Proper : Binary → Prop where
  | infinite : Proper .infinite
  | zero : Proper (.finite 0 (-1074))
  | finite {m e} : Canonical m e → Proper (.finite m e)

/-- The number with the given parts. -/
def toFloat (s : Sign) (b : Binary) : Float := .ofModel (.pack (unpacked s b))

/-- The exponent field and the mantissa field of a number. -/
def fields : Binary → Nat × Nat
  | .nan => (2047, 1)
  | .infinite => (2047, 0)
  | .finite m e => if m < 0x10000000000000 then (0, m) else ((e + 1075).toNat, m - 0x10000000000000)

/-- What the two fields say. -/
def ofFields (field fraction : Nat) : Binary :=
  if field = 2047 then (if fraction = 0 then .infinite else .nan)
  else if field = 0 then .finite fraction (-1074)
  else .finite (0x10000000000000 + fraction) ((field : Int) - 1075)

theorem ofFloat_eq (x : Float) : ofFloat x =
    ofFields (x.toBits.toNat / 0x10000000000000 % 2048) (x.toBits.toNat % 0x10000000000000) := rfl

/-- Fields that fit into a word are the parts of a number, or of what is no number. -/
theorem ofFields_proper {field fraction : Nat} (bound : field < 2048) (bound' : fraction < 0x10000000000000) :
    ofFields field fraction = .nan ∨ Proper (ofFields field fraction) := by
  unfold ofFields
  split
  · split
    · exact .inr .infinite
    · exact .inl rfl
  · split
    · by_cases zero : fraction = 0
      · rw [zero]
        exact .inr .zero
      · exact .inr (.finite ⟨by omega, by omega, by omega, by omega, .inr rfl⟩)
    · exact .inr (.finite ⟨by omega, by omega, by omega, by omega, .inl (by omega)⟩)

theorem ofFloat_proper (x : Float) : ofFloat x = .nan ∨ Proper (ofFloat x) :=
  ofFields_proper (Nat.mod_lt _ (by decide)) (Nat.mod_lt _ (by decide))

/-- Parts can be turned back into the fields they came from. The bound on the fraction is what makes the leading
bit of a mantissa tell whether the exponent field was zero. -/
theorem fields_ofFields {field fraction : Nat} (bound : fraction < 0x10000000000000)
    (number : ofFields field fraction ≠ .nan) : fields (ofFields field fraction) = (field, fraction) := by
  unfold ofFields at number ⊢
  split at number
  next infinite =>
    split at number
    next bare => simp [infinite, bare, fields]
    next => exact absurd rfl number
  next finite =>
    rw [if_neg finite]
    split
    next subnormal => simp [fields, bound, subnormal]
    next => simp [fields]

/-- Fields can be turned back into the parts they came from, when the parts are proper. So proper parts and
pairs of fields, what is no number aside, are in one-to-one correspondence. -/
theorem ofFields_fields {b : Binary} (proper : Proper b) : ofFields b.fields.1 b.fields.2 = b := by
  cases proper with
  | infinite | zero => rfl
  | @finite m e canonical =>
      obtain ⟨positive, small, least, greatest, full⟩ := canonical
      rw [fields]
      split
      next subnormal =>
        obtain rfl : e = -1074 := full.resolve_left (by omega)
        rfl
      next normal =>
        have rest : 0x10000000000000 + (m - 0x10000000000000) = m := by omega
        have exponent : ((e + 1075).toNat : Int) - 1075 = e := by omega
        simp only [ofFields, rest, exponent]
        rw [if_neg (by omega), if_neg (by omega)]

/-- The fields of proper parts fit into a word. -/
theorem fields_lt {b : Binary} (proper : Proper b) : b.fields.1 < 2048 ∧ b.fields.2 < 0x10000000000000 := by
  cases proper with
  | infinite | zero => decide
  | @finite m e canonical =>
      obtain ⟨positive, small, least, greatest, full⟩ := canonical
      rw [fields]
      split
      next subnormal => exact ⟨by simp, subnormal⟩
      next => exact ⟨by omega, by omega⟩

/-- The bits of a number that was put together from a sign and parts, by the place value of its three fields. -/
theorem toNat_toBits_toFloat (s : Sign) {b : Binary} (proper : Proper b) :
    (toFloat s b).toBits.toNat =
      s.toBitVec.toNat * 0x8000000000000000 + b.fields.1 * 0x10000000000000 + b.fields.2 := by
  change (UnpackedFloat.pack .binary64 (unpacked s b)).toNat = _
  cases proper with
  | infinite => simp [unpacked, UnpackedFloat.pack, packedInfinity, toNat_packComponents, fields]
  | zero => simp [unpacked, UnpackedFloat.pack, packedZero, toNat_packComponents, fields]
  | @finite m e canonical =>
      obtain ⟨positive, small, least, greatest, full⟩ := canonical
      have biased : (e + Format.binary64.exponentBias + (52 : Nat)).toNat = (e + 1075).toNat := by
        rw [show Format.binary64.exponentBias = 1023 from rfl]
        omega
      have fits : ¬ 2 ^ 11 ≤ (e + 1075).toNat + 1 := by omega
      have bits : Format.binary64.mantissaBits = 53 := rfl
      rw [unpacked_finite s positive]
      unfold UnpackedFloat.pack
      dsimp only
      rw [biased, if_neg fits, bits, fields]
      by_cases subnormal : m < 0x10000000000000
      · have short := (Nat.log2_lt (Nat.ne_of_gt positive)).mpr (show m < 2 ^ 52 from subnormal)
        rw [if_neg (by omega), if_pos subnormal, toNat_packComponents, BitVec.toNat_ofNat, BitVec.toNat_ofNat]
        dsimp only
        omega
      · have upper := (Nat.log2_lt (Nat.ne_of_gt positive)).mpr small
        have lower := (Nat.le_log2 (Nat.ne_of_gt positive)).mpr (show 2 ^ 52 ≤ m by omega)
        rw [if_pos (by omega), if_neg subnormal, toNat_packComponents, BitVec.toNat_ofNat, BitVec.toNat_ofNat]
        dsimp only
        omega

/-- Putting a number together from proper parts and taking it apart again gives the parts. -/
theorem ofFloat_toFloat (s : Sign) {b : Binary} (proper : Proper b) : ofFloat (toFloat s b) = b := by
  obtain ⟨field, fraction⟩ := fields_lt proper
  have bits := toNat_toBits_toFloat s proper
  have exponent : (toFloat s b).toBits.toNat / 0x10000000000000 % 2048 = b.fields.1 := by omega
  have mantissa : (toFloat s b).toBits.toNat % 0x10000000000000 = b.fields.2 := by omega
  rw [ofFloat_eq, exponent, mantissa, ofFields_fields proper]

theorem isNegative_toFloat (s : Sign) {b : Binary} (proper : Proper b) :
    isNegative (toFloat s b) = (s == .negative) := by
  obtain ⟨field, fraction⟩ := fields_lt proper
  have bits := toNat_toBits_toFloat s proper
  unfold isNegative
  cases s with
  | negative =>
      rw [show Sign.negative.toBitVec.toNat = 1 from rfl] at bits
      exact decide_eq_true (by omega)
  | positive =>
      rw [show Sign.positive.toBitVec.toNat = 0 from rfl] at bits
      exact decide_eq_false (by omega)

/-- A number has the sign that it was put together with, zero included. -/
theorem sign_toFloat (s : Sign) {b : Binary} (proper : Proper b) : sign (toFloat s b) = s := by
  rw [sign, isNegative_toFloat s proper]
  cases s <;> rfl

/-- Only one pattern of bits is no number. All values that are no numbers are one, so parts decide there
as well. -/
theorem toBits_of_nan {x : Float} (nan : ofFloat x = .nan) : x.toBits = 0x7FF8000000000000 := by
  rw [ofFloat_eq] at nan
  unfold ofFields at nan
  split at nan
  next top =>
    split at nan
    next => cases nan
    next rest =>
      have exponent : @unpackExponent .binary64 x.toBits.toBitVec = -1#11 := by
        rw [← BitVec.toNat_inj, toNat_unpackExponent]
        exact top
      have mantissa : @unpackMantissa .binary64 x.toBits.toBitVec ≠ 0#52 := by
        rw [ne_eq, ← BitVec.toNat_inj, toNat_unpackMantissa]
        exact rest
      exact UInt64.toBitVec_inj.mp (x.toModel.valid.eq_packedNaN exponent mantissa)
  next => split at nan <;> cases nan

/-- Numbers with the same sign and the same parts are the same. Their bits agree field by field. -/
theorem eq_of_parts {x y : Float} (signs : isNegative x = isNegative y) (parts : ofFloat x = ofFloat y) :
    x = y := by
  have bits : x.toBits = y.toBits := by
    by_cases nan : ofFloat x = .nan
    · rw [toBits_of_nan nan, toBits_of_nan (parts ▸ nan)]
    · have fields := fields_ofFields (Nat.mod_lt _ (by decide)) nan
      have fields' := fields_ofFields (Nat.mod_lt _ (by decide)) (parts ▸ nan)
      rw [← ofFloat_eq] at fields fields'
      rw [parts, fields', Prod.mk.injEq] at fields
      have negative : 0x8000000000000000 ≤ x.toBits.toNat ↔ 0x8000000000000000 ≤ y.toBits.toNat := by
        simpa [isNegative] using signs
      have bound := x.toBits.toNat_lt
      have bound' := y.toBits.toNat_lt
      apply UInt64.toNat_inj.mp
      omega
  obtain ⟨⟨b, valid⟩⟩ := x
  obtain ⟨⟨c, valid'⟩⟩ := y
  obtain rfl : b = c := bits
  rfl

/-- Taking a number apart and putting it together again gives the number. With `ofFloat_toFloat`, a number is
nothing more than its sign and its proper parts. -/
theorem toFloat_ofFloat {x : Float} (number : ofFloat x ≠ .nan) : toFloat (sign x) (ofFloat x) = x := by
  have proper := (ofFloat_proper x).resolve_left number
  apply eq_of_parts
  · rw [isNegative_toFloat _ proper, sign]
    cases isNegative x <;> rfl
  · exact ofFloat_toFloat _ proper

/-- A number that was put together unpacks to its sign and its parts. -/
theorem unpack_toFloat (s : Sign) {b : Binary} (proper : Proper b) :
    (toFloat s b).toModel.unpack = unpacked s b := by
  rw [unpack_eq, sign_toFloat s proper, ofFloat_toFloat s proper]

/-! ### Kinds of numbers -/

/-- What is no number is known by its parts. -/
theorem isNaN_iff {x : Float} : x.isNaN = true ↔ ofFloat x = .nan := by
  change x.toModel.unpack.isNaN = true ↔ _
  rw [unpack_eq]
  cases ofFloat x with
  | nan | infinite => simp [unpacked, UnpackedFloat.isNaN]
  | finite m e => cases m <;> simp [unpacked, UnpackedFloat.isNaN]

/-- A finite number is known by its parts: a mantissa and an exponent. Statements about finite numbers are
proved from these parts. -/
theorem isFinite_iff {x : Float} : x.isFinite = true ↔ ∃ m e, ofFloat x = .finite m e := by
  change x.toModel.unpack.isFinite = true ↔ _
  rw [unpack_eq]
  cases ofFloat x with
  | nan | infinite => simp [unpacked, UnpackedFloat.isFinite]
  | finite m e => cases m <;> simp [unpacked, UnpackedFloat.isFinite]

/-! ### Magnitudes -/

theorem neg_unpacked (s : Sign) (b : Binary) : (unpacked s b).neg = unpacked (-s) b := by
  cases b with
  | nan | infinite => rfl
  | finite m e => cases m <;> rfl

theorem abs_unpacked (s : Sign) (b : Binary) : (unpacked s b).abs = unpacked .positive b := by
  cases b with
  | nan | infinite => rfl
  | finite m e => cases m <;> rfl

/-- Negation changes the sign and keeps the parts, zero and the infinite numbers included. -/
theorem neg_eq (x : Float) : -x = toFloat (-sign x) (ofFloat x) := by
  change Float.ofModel (.pack x.toModel.unpack.neg) = _
  rw [unpack_eq, neg_unpacked, toFloat]

/-- The absolute value takes the positive sign and keeps the parts. -/
theorem abs_eq (x : Float) : x.abs = toFloat .positive (ofFloat x) := by
  change Float.ofModel (.pack x.toModel.unpack.abs) = _
  rw [unpack_eq, abs_unpacked, toFloat]

/-- The magnitude that is written out is the number with the positive sign. It is computed by a look at the sign
and a negation, so zero has a magnitude without a minus as well. -/
theorem magnitude_eq {x : Float} (number : ofFloat x ≠ .nan) :
    Number.abs x = toFloat .positive (ofFloat x) := by
  unfold Number.abs
  split
  next negative =>
    have minus : sign x = .negative := if_pos negative
    rw [neg_eq, minus]
    rfl
  next positive =>
    have plus : sign x = .positive := if_neg positive
    conv_lhs => rw [← toFloat_ofFloat number, plus]

/-- A number is known by its sign and its magnitude. Texts of numbers show both, which is why they
lose nothing. -/
theorem eq_of_magnitude {x y : Float} (number : ofFloat x ≠ .nan) (number' : ofFloat y ≠ .nan)
    (signs : isNegative x = isNegative y) (magnitudes : Number.abs x = Number.abs y) : x = y := by
  apply eq_of_parts signs
  rw [magnitude_eq number, magnitude_eq number'] at magnitudes
  have parts := congrArg ofFloat magnitudes
  rwa [ofFloat_toFloat _ ((ofFloat_proper x).resolve_left number),
    ofFloat_toFloat _ ((ofFloat_proper y).resolve_left number')] at parts

end Binary

end Treewalk

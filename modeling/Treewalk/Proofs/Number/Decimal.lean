import Treewalk.Proofs.Number.Rounding

/-!
Decimal numbers and what they are read as. A decimal's normal form is the only normal spelling of the number
it stands for, so two decimals that stand for one number are read alike (`Decimal.toFloat_congr`). The shortest
decimal of a number is normal and is read back as that number (`Decimal.toFloat_shortest`).
-/

namespace Treewalk

open Float.Model.UnpackedFloat

namespace Decimal

/-- The number that a decimal stands for. -/
def value (d : Decimal) : ℚ := d.coefficient * 10 ^ d.exponent

/-- A spelling without a trailing zero; zero is `0 * 10 ^ 0`. -/
def Normal (d : Decimal) : Prop := d = ⟨0, 0⟩ ∨ d.coefficient % 10 ≠ 0

theorem value_eq_zero_iff {d : Decimal} : d.value = 0 ↔ d.coefficient = 0 := by
  have scale : (10 : ℚ) ^ d.exponent ≠ 0 := by positivity
  unfold value
  rw [mul_eq_zero, or_iff_left scale, Nat.cast_eq_zero]

/-! ### Normal forms -/

/-- Moving zeros from the coefficient to the exponent keeps the number. -/
theorem value_stripZeros (fuel : Nat) (d : Decimal) : (stripZeros fuel d).value = d.value := by
  fun_induction stripZeros fuel d with
  | case1 d => rfl
  | case2 d fuel trailing ih =>
      rw [ih]
      obtain ⟨c, tens⟩ := Nat.dvd_of_mod_eq_zero trailing
      unfold value
      simp only [tens, Nat.mul_div_cancel_left c (by decide : 0 < 10)]
      rw [zpow_add₀ (by norm_num)]
      push_cast
      ring
  | case3 d => rfl

/-- With enough fuel, no zero is left at the end of the coefficient. A coefficient below a power of two has
fewer zeros than the exponent of that power, so the fuel that is given suffices. -/
theorem coefficient_stripZeros {fuel : Nat} {d : Decimal} (positive : 0 < d.coefficient)
    (enough : d.coefficient < 2 ^ fuel) : (stripZeros fuel d).coefficient % 10 ≠ 0 := by
  fun_induction stripZeros fuel d with
  | case1 d => omega
  | case2 d fuel trailing ih =>
      apply ih
      · dsimp only
        omega
      · rw [Nat.pow_succ] at enough
        dsimp only
        omega
  | case3 d fuel other => exact other

/-- The normal spelling stands for the same number, since it only moves zeros from the coefficient to
the exponent. -/
theorem value_normal (d : Decimal) : d.normal.value = d.value := by
  unfold normal
  split
  next zero => rw [value_eq_zero_iff.mpr zero, value_eq_zero_iff.mpr rfl]
  next => exact value_stripZeros _ d

/-- The normal spelling is normal: no zero at the end, or zero with the exponent zero. -/
theorem normal_normal (d : Decimal) : d.normal.Normal := by
  unfold normal
  split
  next => exact .inl rfl
  next nonzero => exact .inr (coefficient_stripZeros (Nat.pos_of_ne_zero nonzero) Nat.lt_log2_self)

/-- Of two spellings of a number, the one with the lower exponent has the other's coefficient with zeros
behind it. -/
theorem eq_shifted_of_value_eq {c d : Decimal} (same : c.value = d.value) (lower : c.exponent ≤ d.exponent) :
    ∃ j : Nat, c.coefficient = d.coefficient * 10 ^ j ∧ d.exponent = c.exponent + j := by
  refine ⟨(d.exponent - c.exponent).toNat, ?_, by omega⟩
  have exponent : d.exponent = (d.exponent - c.exponent).toNat + c.exponent := by omega
  unfold value at same
  rw [exponent, zpow_add₀ (by norm_num), zpow_natCast, ← mul_assoc] at same
  have scale : (10 : ℚ) ^ c.exponent ≠ 0 := by positivity
  exact_mod_cast mul_right_cancel₀ scale same

/-- A normal spelling ends in no zero, so nothing can stand behind another one's digits. -/
theorem Normal.eq_of_le {c d : Decimal} (normal : c.Normal) (same : c.value = d.value)
    (nonzero : c.coefficient ≠ 0) (lower : c.exponent ≤ d.exponent) : c = d := by
  obtain ⟨j, coefficient, exponent⟩ := eq_shifted_of_value_eq same lower
  obtain zero | last := normal
  · exact absurd (congrArg Decimal.coefficient zero) nonzero
  obtain _ | j := j
  · obtain ⟨_, _⟩ := c
    obtain ⟨_, _⟩ := d
    simp_all
  · rw [coefficient, Nat.pow_succ, ← Nat.mul_assoc, Nat.mul_mod_left] at last
    exact absurd rfl last

theorem Normal.eq_zero {d : Decimal} (normal : d.Normal) (zero : d.coefficient = 0) : d = ⟨0, 0⟩ := by
  obtain eq | last := normal
  · exact eq
  · rw [zero] at last
    exact absurd rfl last

/-- Every number has at most one normal spelling, so decimals can be compared by their numbers. -/
theorem Normal.eq_of_value_eq {c d : Decimal} (normal : c.Normal) (normal' : d.Normal)
    (same : c.value = d.value) : c = d := by
  have zeros : c.coefficient = 0 ↔ d.coefficient = 0 := by
    rw [← value_eq_zero_iff, same, value_eq_zero_iff]
  by_cases zero : c.coefficient = 0
  · rw [normal.eq_zero zero, normal'.eq_zero (zeros.mp zero)]
  · obtain lower | lower := Int.le_total c.exponent d.exponent
    · exact normal.eq_of_le same zero lower
    · exact (normal'.eq_of_le same.symm (mt zeros.mpr zero) lower).symm

/-! ### Reading back -/

/-- What a decimal is read as depends only on the number that it stands for, as reading brings it to its normal
spelling first. -/
theorem toFloat_congr {c d : Decimal} (same : c.value = d.value) : c.toFloat = d.toFloat := by
  have normal : c.normal = d.normal := by
    apply (normal_normal c).eq_of_value_eq (normal_normal d)
    rw [value_normal, value_normal, same]
  unfold toFloat
  rw [normal]

/-- Bringing a decimal to its normal spelling does not change what it is read as. -/
theorem toFloat_normal (d : Decimal) : d.normal.toFloat = d.toFloat := toFloat_congr (value_normal d)

/-- A decimal that stands for a binary number is read as that number. Reading rounds to the nearest number, and
here there is nothing to round. -/
theorem toFloat_eq {d : Decimal} {m : Nat} {e : Int} (proper : Binary.Proper (.finite m e))
    (same : d.value = Binary.value m e) : d.toFloat = Binary.toFloat .positive (.finite m e) := by
  cases proper with
  | zero =>
      have zero : d.value = (⟨0, 0⟩ : Decimal).value := by
        rw [same, value_eq_zero_iff.mpr rfl]
        simp [Binary.value]
      rw [toFloat_congr zero]
      decide +kernel
  | finite canonical =>
      apply Binary.ofScientific_eq canonical
      rw [← same, ← value_normal d]
      rfl

end Decimal

/-- Every binary number is a decimal, its full expansion: a negative power of two is a power of five over a
power of ten. -/
theorem Binary.value_toDecimal (m : Nat) (e : Int) : (toDecimal m e).value = value m e := by
  unfold toDecimal
  split
  next whole =>
    obtain ⟨n, rfl⟩ := Int.eq_ofNat_of_zero_le whole
    simp [Decimal.value, value]
  next fractional =>
    obtain ⟨n, rfl⟩ := Int.exists_eq_neg_ofNat (by omega : e ≤ 0)
    have tens : (10 : ℚ) ^ n = 5 ^ n * 2 ^ n := by rw [← mul_pow]; norm_num
    rw [value, Decimal.value, Int.natAbs_neg, Int.natAbs_natCast, zpow_neg, zpow_neg, zpow_natCast,
      zpow_natCast, tens, Nat.pow_eq]
    push_cast
    field_simp

namespace Decimal

/-- A decimal that is found on a grid was read back before it was chosen. The search needs no correctness proof
of its own for that, only this check. -/
theorem toFloat_of_onGrid {x : Float} {num den : Nat} {unit : Int} {d : Decimal}
    (found : onGrid x num den unit = some d) : d.toFloat = x := by
  unfold onGrid at found
  extract_lets n d' below above distance at found
  split at found
  next reads reads' =>
    split at found
    · exact Option.some.inj found ▸ of_decide_eq_true reads
    · exact Option.some.inj found ▸ of_decide_eq_true reads'
  next reads _ => exact Option.some.inj found ▸ of_decide_eq_true reads
  next _ reads => exact Option.some.inj found ▸ of_decide_eq_true reads
  next => cases found

/-- **The shortest decimal is read back.** The shortest decimal for the magnitude of a number is read back as
that magnitude. A decimal found on a grid was read back there; where none is found, the full expansion stands
for the very number. -/
theorem toFloat_shortest {x : Float} {m : Nat} {e : Int} (parts : Binary.ofFloat x = .finite m e) :
    (shortest (Number.abs x) m e).toFloat = Number.abs x := by
  have proper : Binary.Proper (.finite m e) := by
    obtain nan | proper := Binary.ofFloat_proper x
    · rw [parts] at nan
      cases nan
    · rwa [parts] at proper
  have exact : (Binary.toDecimal m e).toFloat = Number.abs x := by
    rw [Binary.magnitude_eq (by rw [parts]; nofun), parts]
    exact toFloat_eq proper (Binary.value_toDecimal m e)
  unfold shortest
  dsimp only
  rw [toFloat_normal]
  cases grids : List.findSome? _ (List.range 17) with
  | none => exact exact
  | some d =>
      obtain ⟨k, -, found⟩ := List.exists_of_findSome?_eq_some grids
      exact toFloat_of_onGrid found

/-- The shortest decimal is in its normal spelling, so it is determined by the number that it stands for. -/
theorem shortest_normal (x : Float) (m : Nat) (e : Int) : (shortest x m e).Normal := normal_normal _

end Decimal

end Treewalk

import Treewalk.Proofs.Number.Binary

/-!
Rounding keeps what it need not change. When the result of an operation on numbers is itself a binary64
number, the operation gives that number: products, quotients, whole numbers, and in the end a coefficient
times a power of ten (`Binary.ofScientific_eq`). Nothing is said here about results that have to be rounded.
-/

namespace Treewalk

open Float.Model Float.Model.UnpackedFloat

namespace Binary

/-- The number that a mantissa and an exponent stand for. -/
def value (m : Nat) (e : Int) : ℚ := m * 2 ^ e

/-- A mantissa may be shifted against its exponent; the number stays. -/
theorem value_mul_two_pow (m j : Nat) (e : Int) : value (m * 2 ^ j) (e - j) = value m e := by
  unfold value
  push_cast
  rw [mul_assoc, ← zpow_natCast, ← zpow_add₀ (by norm_num)]
  congr 2
  omega

/-- Of two spellings of a number, the one with the lower exponent has the other's mantissa, shifted. -/
theorem eq_shifted_of_value_eq {m n : Nat} {e f : Int} (same : value n f = value m e) (lower : f ≤ e) :
    ∃ j : Nat, n = m * 2 ^ j ∧ f = e - j := by
  obtain ⟨j, rfl⟩ : ∃ j : Nat, f = e - j := ⟨(e - f).toNat, by omega⟩
  rw [← value_mul_two_pow m j e] at same
  have scale : (2 : ℚ) ^ (e - j) ≠ 0 := by positivity
  exact ⟨j, by exact_mod_cast mul_right_cancel₀ scale same, rfl⟩

theorem log2_mul_two_pow {m : Nat} (positive : 0 < m) (j : Nat) : (m * 2 ^ j).log2 = m.log2 + j := by
  induction j with
  | zero => simp
  | succ j ih =>
      have doubled : m * 2 ^ (j + 1) = 2 * (m * 2 ^ j) := by ring
      rw [doubled, Nat.log2_two_mul (by positivity), ih, Nat.add_assoc]

/-! ### Rounding -/

theorem targetExponent_eq (t : Int) : Format.binary64.targetExponent t = max (t - 53) (-1074) := rfl

/-- Shifting the mantissa against the exponent keeps the leading place. -/
theorem totalExponent_mul_two_pow {m : Nat} (positive : 0 < m) (j : Nat) (e : Int) :
    totalExponent (m * 2 ^ j) (e - j) = totalExponent m e := by
  unfold totalExponent
  rw [log2_mul_two_pow positive]
  omega

/-- Spellings of one number have the same leading place. Rounding looks at the leading place only to choose an
exponent, so it chooses the same one for all of them. -/
theorem totalExponent_eq_of_value_eq {m n : Nat} {e f : Int} (positive : 0 < m) (positive' : 0 < n)
    (same : value n f = value m e) : totalExponent n f = totalExponent m e := by
  rcases Int.le_total f e with lower | higher
  · obtain ⟨j, rfl, rfl⟩ := eq_shifted_of_value_eq same lower
    exact totalExponent_mul_two_pow positive j e
  · obtain ⟨j, rfl, rfl⟩ := eq_shifted_of_value_eq same.symm higher
    exact (totalExponent_mul_two_pow positive' j f).symm

/-- A canonical number has the exponent that rounding aims at. This is what being canonical means for
the arithmetic. -/
theorem Canonical.targetExponent {m : Nat} {e : Int} (canonical : Canonical m e) :
    Format.binary64.targetExponent (totalExponent m e) = e := by
  obtain ⟨positive, small, least, -, full⟩ := canonical
  have upper := (Nat.log2_lt (Nat.ne_of_gt positive)).mpr small
  rw [targetExponent_eq, totalExponent]
  rcases full with long | low
  · have lower := (Nat.le_log2 (Nat.ne_of_gt positive)).mpr long
    omega
  · omega

theorem shiftRight_exact (m j : Nat) :
    (⟨m * 2 ^ j, false, false⟩ : ExtendedMantissa) >>> j = ⟨m, false, false⟩ := by
  change j.repeat ExtendedMantissa.shiftRightOne _ = _
  induction j generalizing m with
  | zero => simp [Nat.repeat]
  | succ j ih =>
      have doubled : m * 2 ^ (j + 1) = 2 * m * 2 ^ j := by ring
      rw [Nat.repeat, doubled, ih]
      simp [ExtendedMantissa.shiftRightOne]

/-- Rounding shifts any spelling of a canonical number to the canonical one, and finds only zeros to
shift out. -/
theorem Canonical.shiftToTargetExponent {m : Nat} {e : Int} (canonical : Canonical m e) (j : Nat) :
    shiftToTargetExponent .binary64 (m * 2 ^ j) (e - j) .exact = (⟨m, false, false⟩, e) := by
  have shift : (e - (e - (j : Int))).toNat = j := by omega
  unfold UnpackedFloat.shiftToTargetExponent shiftToExponent
  dsimp only
  rw [totalExponent_mul_two_pow canonical.positive, canonical.targetExponent, shift]
  refine Prod.ext (shiftRight_exact m j) ?_
  simp

/-- Rounding a canonical number, however it is spelled, keeps it. Every exactness result below comes down to
this one. -/
theorem Canonical.roundWithAccuracy {m n : Nat} {e f : Int} (canonical : Canonical m e) (s : Sign)
    (same : value n f = value m e) (lower : f ≤ e) :
    UnpackedFloat.roundWithAccuracy .binary64 s n f .exact = .finite s m e canonical.positive := by
  obtain ⟨j, rfl, rfl⟩ := eq_shifted_of_value_eq same lower
  have again := canonical.shiftToTargetExponent 0
  rw [pow_zero, mul_one, Nat.cast_zero, sub_zero] at again
  unfold UnpackedFloat.roundWithAccuracy
  rw [canonical.shiftToTargetExponent j]
  have kept : ExtendedMantissa.roundedMantissa ⟨m, false, false⟩ = m := rfl
  dsimp only
  rw [kept, again]
  exact dif_neg (Nat.ne_of_gt canonical.positive)

/-! ### Products, quotients and whole numbers -/

theorem value_lt_iff {e f : Int} : (2 : ℚ) ^ e < 2 ^ f ↔ e < f :=
  zpow_lt_zpow_iff_right₀ (by norm_num)

theorem Canonical.value_pos {m : Nat} {e : Int} (canonical : Canonical m e) : 0 < value m e := by
  have positive := canonical.positive
  unfold value
  positivity

/-- A canonical number lies below the power of two that its mantissa cannot reach. -/
theorem Canonical.value_lt {m : Nat} {e : Int} (canonical : Canonical m e) : value m e < 2 ^ (e + 53) := by
  have bound : (m : ℚ) < 2 ^ (53 : ℤ) := by exact_mod_cast canonical.small
  rw [zpow_add₀ (by norm_num), mul_comm]
  exact mul_lt_mul_of_pos_right bound (by positivity)

/-- A long mantissa has no higher exponent than a canonical spelling of the same number. -/
theorem Canonical.le_of_long {m n : Nat} {e f : Int} (canonical : Canonical m e)
    (same : value n f = value m e) (long : 2 ^ 52 ≤ n) : f ≤ e := by
  have lower : (2 : ℚ) ^ (f + 52) ≤ value n f := by
    have bound : (2 : ℚ) ^ (52 : ℤ) ≤ n := by exact_mod_cast long
    rw [zpow_add₀ (by norm_num), mul_comm]
    exact mul_le_mul_of_nonneg_right bound (by positivity)
  have upper := canonical.value_lt
  rw [← same] at upper
  have exponents := value_lt_iff.mp (lower.trans_lt upper)
  omega

theorem value_mul (m n : Nat) (e f : Int) : value (m * n) (e + f) = value m e * value n f := by
  unfold value
  rw [zpow_add₀ (by norm_num)]
  push_cast
  ring

/-- A product that is a canonical number is that number: the arithmetic multiplies the mantissas in full, and
rounding the result changes nothing. -/
theorem Canonical.mul {m m₁ m₂ : Nat} {e e₁ e₂ : Int} (canonical : Canonical m e)
    (same : value m₁ e₁ * value m₂ e₂ = value m e) (long : 2 ^ 52 ≤ m₁ * m₂) (p₁ : 0 < m₁) (p₂ : 0 < m₂) :
    UnpackedFloat.mul .binary64 (.finite .positive m₁ e₁ p₁) (.finite .positive m₂ e₂ p₂) =
      .finite .positive m e canonical.positive := by
  rw [← value_mul] at same
  exact canonical.roundWithAccuracy .positive same (canonical.le_of_long same long)

/-- A number is no less than the power of two of its leading bit. -/
theorem two_zpow_log2_le {m : Nat} (positive : 0 < m) (e : Int) : (2 : ℚ) ^ (m.log2 + e) ≤ value m e := by
  have bound : ((2 ^ m.log2 : Nat) : ℚ) ≤ m := by exact_mod_cast Nat.log2_self_le (Nat.ne_of_gt positive)
  rw [zpow_add₀ (by norm_num), zpow_natCast]
  push_cast at bound
  exact mul_le_mul_of_nonneg_right bound (by positivity)

/-- A number is less than the next power of two. -/
theorem value_lt_two_zpow (m : Nat) (e : Int) : value m e < (2 : ℚ) ^ (m.log2 + 1 + e) := by
  have bound : (m : ℚ) < ((2 ^ (m.log2 + 1) : Nat) : ℚ) := by exact_mod_cast Nat.lt_log2_self
  push_cast at bound
  rw [zpow_add₀ (by norm_num)]
  exact mul_lt_mul_of_pos_right (by exact_mod_cast bound) (by positivity)

/-- Division goes at least as far down as the exponent of a canonical quotient. -/
theorem Canonical.le_of_quotient {m m₁ m₂ : Nat} {e e₁ e₂ : Int} (canonical : Canonical m e)
    (same : value m₁ e₁ = value m e * value m₂ e₂) (p₁ : 0 < m₁) :
    Format.binary64.targetExponent (totalExponent m₁ e₁ - totalExponent m₂ e₂) ≤ e := by
  have ordered : (2 : ℚ) ^ (m₁.log2 + e₁) < 2 ^ ((e + 53) + (m₂.log2 + 1 + e₂)) := by
    calc (2 : ℚ) ^ (m₁.log2 + e₁) ≤ value m₁ e₁ := two_zpow_log2_le p₁ e₁
      _ = value m e * value m₂ e₂ := same
      _ < 2 ^ (e + 53) * 2 ^ (m₂.log2 + 1 + e₂) :=
          mul_lt_mul'' canonical.value_lt (value_lt_two_zpow m₂ e₂) (by unfold value; positivity)
            (by unfold value; positivity)
      _ = 2 ^ ((e + 53) + (m₂.log2 + 1 + e₂)) := (zpow_add₀ (by norm_num) _ _).symm
  have exponents := value_lt_iff.mp ordered
  have least := canonical.least
  rw [targetExponent_eq]
  unfold totalExponent
  omega

/-- Dividing a canonical number's multiple leaves no remainder. The quotient comes out as a spelling of the
canonical number, and is known to be exact. -/
theorem Canonical.divCore {m m₁ m₂ : Nat} {e e₁ e₂ : Int} (canonical : Canonical m e)
    (same : value m₁ e₁ = value m e * value m₂ e₂) (p₁ : 0 < m₁) (p₂ : 0 < m₂) :
    ∃ j : Nat, UnpackedFloat.divCore .binary64 m₁ e₁ m₂ e₂ = (m * 2 ^ j, e - j, .exact) := by
  have low := canonical.le_of_quotient same p₁
  unfold UnpackedFloat.divCore
  dsimp only
  generalize Format.binary64.targetExponent (totalExponent m₁ e₁ - totalExponent m₂ e₂) = t at low
  obtain ⟨k, shift⟩ : ∃ k : Nat, (e₁ - e₂ - min (e₁ - e₂) t).toNat = k := ⟨_, rfl⟩
  obtain ⟨j, drop⟩ : ∃ j : Nat, (e - min (e₁ - e₂) t).toNat = j := ⟨_, rfl⟩
  have target : min (e₁ - e₂) t = e - j := by omega
  have product : m₁ * 2 ^ k = m * 2 ^ j * m₂ := by
    have exponent : e₁ - k = (e - j) + e₂ := by omega
    have values : value (m₁ * 2 ^ k) ((e - j) + e₂) = value (m * 2 ^ j * m₂) ((e - j) + e₂) := by
      calc value (m₁ * 2 ^ k) ((e - j) + e₂) = value m₁ e₁ := by rw [← exponent, value_mul_two_pow]
        _ = value (m * 2 ^ j) (e - j) * value m₂ e₂ := by rw [same, value_mul_two_pow]
        _ = value (m * 2 ^ j * m₂) ((e - j) + e₂) := (value_mul ..).symm
    have scale : (2 : ℚ) ^ ((e - j) + e₂) ≠ 0 := by positivity
    exact_mod_cast mul_right_cancel₀ scale values
  refine ⟨j, ?_⟩
  rw [shift, target, Nat.shiftLeft_eq, product, Nat.mul_div_cancel _ p₂, Nat.mul_mod_left]
  rfl

/-- A quotient that is a canonical number is that number, by `Canonical.divCore` and rounding. -/
theorem Canonical.div {m m₁ m₂ : Nat} {e e₁ e₂ : Int} (canonical : Canonical m e)
    (same : value m₁ e₁ = value m e * value m₂ e₂) (p₁ : 0 < m₁) (p₂ : 0 < m₂) :
    UnpackedFloat.div .binary64 (.finite .positive m₁ e₁ p₁) (.finite .positive m₂ e₂ p₂) =
      .finite .positive m e canonical.positive := by
  obtain ⟨j, quotient⟩ := canonical.divCore same p₁ p₂
  unfold UnpackedFloat.div
  dsimp only
  rw [quotient]
  exact canonical.roundWithAccuracy .positive (value_mul_two_pow m j e) (Int.sub_le_self e (by omega))

/-- A whole number that is a canonical number is converted to it. -/
theorem Canonical.ofNat {m n : Nat} {e : Int} (canonical : Canonical m e) (same : value n 0 = value m e) :
    UnpackedFloat.ofNat .binary64 n = .finite .positive m e canonical.positive := by
  have positive : 0 < n := by
    have bound : 0 < value n 0 := same ▸ canonical.value_pos
    unfold value at bound
    simpa using bound
  have sign : compare (n : Int) 0 = .gt := Int.compare_eq_gt.mpr (by omega)
  have target := (congrArg Format.binary64.targetExponent
    (totalExponent_eq_of_value_eq canonical.positive positive same)).trans canonical.targetExponent
  unfold UnpackedFloat.ofNat UnpackedFloat.ofInt UnpackedFloat.normalize
  rw [sign]
  dsimp only
  unfold UnpackedFloat.round decreaseExponent
  dsimp only
  rw [Int.toNat_natCast, target, Nat.shiftLeft_eq]
  apply canonical.roundWithAccuracy
  · rw [value_mul_two_pow, same]
  · omega

/-! ### Coefficients and powers of ten -/

theorem toFloat_finite {m : Nat} {e : Int} (canonical : Canonical m e) :
    toFloat .positive (.finite m e) = .ofModel (.pack (.finite .positive m e canonical.positive)) := by
  rw [toFloat, unpacked_finite]

theorem unpack_finite {m : Nat} {e : Int} (canonical : Canonical m e) :
    (toFloat .positive (.finite m e)).toModel.unpack = .finite .positive m e canonical.positive := by
  rw [unpack_toFloat _ (.finite canonical), unpacked_finite]

/-- A product of canonical numbers that is a canonical number is computed exactly. -/
theorem Canonical.mul_toFloat {m m₁ m₂ : Nat} {e e₁ e₂ : Int} (canonical : Canonical m e)
    (first : Canonical m₁ e₁) (second : Canonical m₂ e₂) (same : value m₁ e₁ * value m₂ e₂ = value m e)
    (long : 2 ^ 52 ≤ m₁ * m₂) :
    toFloat .positive (.finite m₁ e₁) * toFloat .positive (.finite m₂ e₂) =
      toFloat .positive (.finite m e) := by
  change Float.ofModel (.pack (UnpackedFloat.mul .binary64 (toFloat .positive _).toModel.unpack
    (toFloat .positive _).toModel.unpack)) = _
  rw [unpack_finite first, unpack_finite second, canonical.mul same long, toFloat_finite canonical]

/-- A quotient of canonical numbers that is a canonical number is computed exactly. -/
theorem Canonical.div_toFloat {m m₁ m₂ : Nat} {e e₁ e₂ : Int} (canonical : Canonical m e)
    (first : Canonical m₁ e₁) (second : Canonical m₂ e₂) (same : value m₁ e₁ = value m e * value m₂ e₂) :
    toFloat .positive (.finite m₁ e₁) / toFloat .positive (.finite m₂ e₂) =
      toFloat .positive (.finite m e) := by
  change Float.ofModel (.pack (UnpackedFloat.div .binary64 (toFloat .positive _).toModel.unpack
    (toFloat .positive _).toModel.unpack)) = _
  rw [unpack_finite first, unpack_finite second, canonical.div same, toFloat_finite canonical]

/-- A short mantissa can be made a long one by shifting it against the exponent, as long as the exponent stays
in range. -/
theorem exists_canonical {n : Nat} {f : Int} (positive : 0 < n) (small : n < 2 ^ 53) (least : -1022 ≤ f)
    (greatest : f ≤ 971) : ∃ m e, Canonical m e ∧ 2 ^ 52 ≤ m ∧ value m e = value n f := by
  have short := (Nat.log2_lt (Nat.ne_of_gt positive)).mpr small
  obtain ⟨j, digits⟩ : ∃ j, n.log2 + j = 52 := ⟨52 - n.log2, by omega⟩
  have bounds : 2 ^ 52 ≤ n * 2 ^ j ∧ n * 2 ^ j < 2 ^ 53 := by
    have nonzero : n * 2 ^ j ≠ 0 := by positivity
    rw [← Nat.log2_eq_iff nonzero, log2_mul_two_pow positive, digits]
  exact ⟨n * 2 ^ j, f - j, ⟨by omega, bounds.2, by omega, by omega, .inl bounds.1⟩, bounds.1,
    value_mul_two_pow n j f⟩

/-- A whole number of at most 53 bits is converted exactly. -/
theorem toFloat_toUInt64 {m n : Nat} {e : Int} (canonical : Canonical m e) (small : n < 2 ^ 53)
    (same : value n 0 = value m e) : n.toUInt64.toFloat = toFloat .positive (.finite m e) := by
  have whole : n.toUInt64.toNat = n := Nat.mod_eq_of_lt (by omega)
  change Float.ofModel (.pack (UnpackedFloat.ofNat .binary64 n.toUInt64.toNat)) = _
  rw [whole, canonical.ofNat same, toFloat_finite canonical]

/-- The table of powers holds the powers, each converted from the whole number. -/
theorem powersOfTen_eq : ∀ k : Fin Float.exactlyRepresentablePowersOfTen.size,
    Float.exactlyRepresentablePowersOfTen[k] = .ofModel (.ofNat (10 ^ k.val)) := by
  decide +kernel

theorem value_zero (n : Nat) : value n 0 = n := by
  simp [value]

theorem value_natCast_pow (n : Nat) : value (10 ^ n) 0 = 10 ^ n := by
  simp [value]

theorem value_ten_pow (n : Nat) : value (5 ^ n) n = 10 ^ n := by
  unfold value
  rw [zpow_natCast]
  push_cast
  rw [← mul_pow]
  norm_num

/-- The tabled powers of ten are canonical numbers and exactly the powers they stand for. Their mantissas are
long, so that products with them are long as well. -/
theorem exists_powerOfTen {n : Nat} (listed : n < Float.exactlyRepresentablePowersOfTen.size) :
    ∃ m e, Canonical m e ∧ 2 ^ 52 ≤ m ∧ value m e = 10 ^ n ∧
      Float.exactlyRepresentablePowersOfTen[n] = toFloat .positive (.finite m e) := by
  have bound : n ≤ 22 := Nat.le_of_lt_succ listed
  have small : 5 ^ n < 2 ^ 53 := by
    calc 5 ^ n ≤ 5 ^ 22 := Nat.pow_le_pow_right (by decide) bound
      _ < 2 ^ 53 := by decide
  obtain ⟨m, e, canonical, long, same⟩ := exists_canonical (f := n) (by positivity) small (by omega) (by omega)
  rw [value_ten_pow] at same
  refine ⟨m, e, canonical, long, same, ?_⟩
  have whole : value (10 ^ n) 0 = value m e := by rw [same, value_natCast_pow]
  rw [toFloat_finite canonical, ← canonical.ofNat whole]
  exact powersOfTen_eq ⟨n, listed⟩

section

variable {m c : Nat} {e k : Int} (canonical : Canonical m e) (same : (c : ℚ) * 10 ^ k = value m e)

include canonical same

theorem Canonical.coefficient_pos : 0 < c := by
  have positive : 0 < (c : ℚ) * 10 ^ k := same ▸ canonical.value_pos
  have scale : (0 : ℚ) < 10 ^ k := by positivity
  exact_mod_cast pos_of_mul_pos_left positive scale.le

/-- A power of ten that is part of a canonical number is not beyond the largest numbers. -/
theorem Canonical.power_le : k ≤ 1024 := by
  by_contra large
  have positive := canonical.coefficient_pos same
  have upper : (10 : ℚ) ^ k < 2 ^ (e + 53) := by
    calc (10 : ℚ) ^ k ≤ c * 10 ^ k := le_mul_of_one_le_left (by positivity) (by exact_mod_cast positive)
      _ = value m e := same
      _ < 2 ^ (e + 53) := canonical.value_lt
  have lower : (2 : ℚ) ^ k ≤ 10 ^ k := zpow_le_zpow_left₀ (by omega) (by norm_num) (by norm_num)
  have exponents := value_lt_iff.mp (lower.trans_lt upper)
  have greatest := canonical.greatest
  omega

/-- Nor is it far below the smallest ones, unless the coefficient makes up for it. -/
theorem Canonical.power_ge : -(1075 + c.log2 : Int) ≤ k := by
  by_contra tiny
  have small : (10 : ℚ) ^ k ≤ 2 ^ k := by
    have factors : (10 : ℚ) ^ k = 2 ^ k * 5 ^ k := by rw [← mul_zpow]; norm_num
    rw [factors]
    exact mul_le_of_le_one_right (by positivity) (zpow_le_one_of_nonpos₀ (by norm_num) (by omega))
  have ordered : (2 : ℚ) ^ (m.log2 + e) < 2 ^ (c.log2 + 1 + k) := by
    calc (2 : ℚ) ^ (m.log2 + e) ≤ value m e := two_zpow_log2_le canonical.positive e
      _ = c * 10 ^ k := same.symm
      _ ≤ value c k := mul_le_mul_of_nonneg_left small (by positivity)
      _ < 2 ^ (c.log2 + 1 + k) := value_lt_two_zpow c k
  have exponents := value_lt_iff.mp ordered
  have least := canonical.least
  omega

/-- Scientific notation for a canonical number is read as that number. The coefficient is multiplied or divided
by the power of ten in full, and one rounding at the end keeps the number. -/
theorem Canonical.ofScientific :
    UnpackedFloat.ofScientific .binary64 c k = .finite .positive m e canonical.positive := by
  have positive := canonical.coefficient_pos same
  have high := canonical.power_le same
  have low := canonical.power_ge same
  have range : (2 : Int) ^ Format.binary64.exponentBits = 2048 := rfl
  unfold UnpackedFloat.ofScientific
  rw [dif_neg (by omega), if_neg (by omega), if_neg (by omega)]
  split
  next whole =>
    obtain ⟨n, rfl⟩ := Int.eq_ofNat_of_zero_le whole
    apply canonical.mul
    · rw [← same, Nat.shiftLeft_eq, value_natCast_pow, Int.toNat_natCast, zpow_natCast]
      exact congrArg (· * (10 : ℚ) ^ n) ((value_mul_two_pow c 53 0).trans (value_zero c))
    · rw [Nat.shiftLeft_eq]
      have power : 0 < 10 ^ (n : Int).toNat := by positivity
      calc 2 ^ 52 ≤ 1 * 2 ^ 53 * 1 := by decide
        _ ≤ c * 2 ^ Format.binary64.mantissaBits * 10 ^ (n : Int).toNat :=
            Nat.mul_le_mul (Nat.mul_le_mul positive (Nat.le_refl _)) power
  next fraction =>
    obtain ⟨n, rfl⟩ : ∃ n : Nat, k = -n := ⟨(-k).toNat, by omega⟩
    apply canonical.div
    rw [← same, neg_neg, Int.toNat_natCast, value_zero, value_natCast_pow, zpow_neg, zpow_natCast,
      inv_mul_cancel_right₀ (by positivity)]

/-- A coefficient and a power of ten are read as the canonical number that they stand for, both when they
are short enough for one product or quotient of numbers and when they are not. -/
theorem ofScientific_eq :
    Float.ofScientific c (decide (k < 0)) k.natAbs = toFloat .positive (.finite m e) := by
  unfold Float.ofScientific
  split
  next small =>
    -- Both the coefficient and the power are exact, so the only rounding is that of one product or quotient.
    have listed : k.natAbs < Float.exactlyRepresentablePowersOfTen.size := Nat.lt_succ_of_le small.2
    obtain ⟨m₁, e₁, first, long, same₁⟩ :=
      exists_canonical (canonical.coefficient_pos same) small.1 (show -1022 ≤ (0 : Int) by decide) (by decide)
    obtain ⟨m₂, e₂, second, -, same₂, power⟩ := exists_powerOfTen listed
    rw [value_zero] at same₁
    dsimp only
    rw [toFloat_toUInt64 first small.1 (by rw [same₁, value_zero]), power]
    split
    next fraction =>
      apply canonical.div_toFloat first second
      rw [decide_eq_true_eq] at fraction
      rw [same₁, same₂, ← same, ← zpow_natCast, Int.ofNat_natAbs_of_nonpos fraction.le, mul_assoc,
        ← zpow_add₀ (by norm_num), add_neg_cancel, zpow_zero, mul_one]
    next whole =>
      rw [decide_eq_true_eq, not_lt] at whole
      apply canonical.mul_toFloat first second
      · rw [same₁, same₂, ← same, ← zpow_natCast, Int.natAbs_of_nonneg whole]
      · exact long.trans (Nat.le_mul_of_pos_right m₁ second.positive)
  next =>
    have exponent : (if decide (k < 0) = true then Int.negOfNat k.natAbs else Int.ofNat k.natAbs) = k := by
      split
      next fraction =>
        rw [decide_eq_true_eq] at fraction
        rw [Int.negOfNat_eq, Int.ofNat_eq_natCast, Int.ofNat_natAbs_of_nonpos fraction.le, neg_neg]
      next whole =>
        rw [decide_eq_true_eq, not_lt] at whole
        exact Int.natAbs_of_nonneg whole
    dsimp only
    rw [exponent, toFloat_finite canonical, ← canonical.ofScientific same]
    rfl

end

end Binary

end Treewalk

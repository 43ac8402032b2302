import Treewalk.Proofs.Number.Numeral

/-!
How a number is laid out. The format of a number is made from its outline text, which is read as a decimal and
its digits laid out anew. `Number.toList_format` says what comes out: the shortest decimal of the number, in
positional or in scientific layout. Two facts carry it. The outline text denotes the shortest decimal, so reading
it gives the same digits, with zeros behind them perhaps (`Decimal.toScientific_outline`). And a number that is
displayed without an exponent has a shortest decimal that is outlined without one (`Number.outlineLayout_eq`),
since it is not far from the number (`Decimal.shortest_bounds`).
-/

namespace Treewalk

open Text Numeral Float.Model

/-! ### Taking a text apart -/

namespace Decimal

/-- Digits are read as one whole number, the point aside, and the digits behind the point give the exponent. -/
theorem ofDigits_eq {whole fraction : List Char} (all : ∀ c ∈ whole, isDigit c = true)
    (avoids : Avoids isDigit fraction) : ofDigits (whole ++ fraction) =
      ⟨Nat.ofDigitChars 10 (whole ++ fraction.drop 1) 0, -((fraction.drop 1).length : Int)⟩ := by
  have inside : (whole ++ fraction).takeWhile Char.isDigit = whole := takeWhile_append all avoids
  have rest : (whole ++ fraction).dropWhile Char.isDigit = fraction := dropWhile_append all avoids
  rw [ofDigits, inside, rest]

/-- Digits are read as the number that they denote. The digits behind the point are read with those in front,
and divided by a power of ten. -/
theorem value_ofDigits {text : List Char} {q : ℚ} (digits : Digits text q) : (ofDigits text).value = q := by
  cases digits with
  | whole nonempty all =>
      have read := ofDigits_eq all avoids_nil
      rw [List.append_nil] at read
      rw [read]
      simp [value]
  | pointed nonempty nonempty' all all' =>
      rw [ofDigits_eq all (avoids_cons.mpr (by decide))]
      exact value_eq_div _ rfl

/-- An exponent is read as the number that it denotes. -/
theorem exponentOf_eq {text : List Char} {k : Int} (denotes : power? text = some k) : exponentOf text = k := by
  have whole {digits : List Char} {n : Nat} (read : whole? digits = some n) :
      Nat.ofDigitChars 10 digits 0 = n := by
    unfold whole? at read
    split at read
    · exact Option.some.inj read
    · cases read
  unfold power? at denotes
  split at denotes
  next digits =>
    obtain ⟨n, read, rfl⟩ := Option.map_eq_some_iff.mp denotes
    rw [exponentOf, whole read]
  next digits =>
    obtain ⟨n, read, rfl⟩ := Option.map_eq_some_iff.mp denotes
    rw [exponentOf, whole read]
  next notMinus notPlus =>
    obtain ⟨n, read, rfl⟩ := Option.map_eq_some_iff.mp denotes
    rw [exponentOf, whole read]
    · exact notMinus
    · exact notPlus

theorem unmarked {text : List Char} {q : ℚ} (digits : Digits text q) : ∀ c ∈ text, (c != 'e') = true := by
  intro c listed
  have other := digits.unmarked c listed
  simp only [isMark, Bool.not_eq_true', Bool.or_eq_false_iff] at other
  simpa using other.1

/-- A text without an exponent is read as the number that its digits denote. -/
theorem value_ofText_digits {text : List Char} {q : ℚ} (digits : Digits text q) : (ofText text).value = q := by
  have inside : text.takeWhile (· != 'e') = text := by
    simpa using takeWhile_append (unmarked digits) avoids_nil
  have rest : text.dropWhile (· != 'e') = [] := by
    simpa using dropWhile_append (unmarked digits) avoids_nil
  have none : exponentOf [] = 0 := rfl
  rw [ofText, inside, rest, List.drop_nil, none, Int.add_zero]
  exact value_ofDigits digits

/-- A text with an exponent is read as the number that its digits denote, times the power of ten. -/
theorem value_ofText_scaled {text power : List Char} {q : ℚ} {k : Int} (digits : Digits text q)
    (denotes : power? power = some k) : (ofText (text ++ 'e' :: power)).value = q * 10 ^ k := by
  have stop : Avoids (· != 'e') ('e' :: power) := avoids_cons.mpr rfl
  rw [ofText, takeWhile_append (unmarked digits) stop, dropWhile_append (unmarked digits) stop]
  simp only [List.drop_succ_cons, List.drop_zero, exponentOf_eq denotes]
  rw [← value_ofDigits digits, value, value, zpow_add₀ (by norm_num), mul_assoc]

/-- An outline text is read as the number that it was made for, whichever of its two layouts it has. So laying
out its digits anew starts from the right decimal. -/
theorem value_ofText_outline (d : Decimal) : (ofText (Number.outlineLayout d)).value = d.value := by
  unfold Number.outlineLayout
  split
  · exact value_ofText_digits d.digits_positional
  · rw [d.value_eq_scaled]
    exact value_ofText_scaled (d.digits_mantissa (.inl rfl)) (power?_paddedExponent _)

/-! ### Laying the digits out anew -/

/-- A number times a power of ten has zeros behind its digits. -/
theorem toDigits_mul_pow {n : Nat} (positive : 0 < n) (j : Nat) :
    Nat.toDigits 10 (n * 10 ^ j) = Nat.toDigits 10 n ++ List.replicate j '0' := by
  induction j with
  | zero => simp
  | succ j ih =>
      have next : n * 10 ^ (j + 1) = 10 * (n * 10 ^ j) + 0 := by ring
      have zero : Nat.toDigits 10 0 = ['0'] := rfl
      rw [next, ← Nat.toDigits_append_toDigits (by decide) (by positivity) (by decide), ih, zero,
        List.append_assoc, List.replicate_succ']

/-- Dropping zeros from the end of such digits gives the digits back. -/
theorem dropTrailingZeros_append {digits : List Char} (last : digits.getLast? ≠ some '0') (j : Nat) :
    Number.dropTrailingZeros (digits ++ List.replicate j '0') = digits := by
  have zeros : ∀ c ∈ List.replicate j '0', (c == '0') = true := by
    intro c listed
    simpa using List.eq_of_mem_replicate listed
  have stop : Avoids (· == '0') digits.reverse := by
    intro c begins
    rw [List.head?_reverse] at begins
    have other : c ≠ '0' := fun same => last (same ▸ begins)
    simpa using other
  rw [Number.dropTrailingZeros, List.reverse_append, List.reverse_replicate, dropWhile_append zeros stop,
    List.reverse_reverse]

/-- Another spelling of a number has the digits of the normal one and zeros behind them, and a leading digit
with the same power of ten. These are the two things that the scientific layout is made from. -/
theorem Normal.digits_eq {c d : Decimal} (normal : d.Normal) (nonzero : d.coefficient ≠ 0)
    (same : c.value = d.value) :
    Number.dropTrailingZeros c.digits = d.digits ∧ c.magnitude = d.magnitude := by
  obtain ⟨j, coefficient, exponent⟩ : ∃ j : Nat, c.coefficient = d.coefficient * 10 ^ j ∧
      d.exponent = c.exponent + j := by
    obtain lower | lower := Int.le_total c.exponent d.exponent
    · exact eq_shifted_of_value_eq same lower
    · obtain rfl := normal.eq_of_le same.symm nonzero lower
      exact ⟨0, by simp, by simp⟩
  have digits : c.digits = d.digits ++ List.replicate j '0' := by
    rw [Decimal.digits, coefficient, toDigits_mul_pow (Nat.pos_of_ne_zero nonzero), Decimal.digits]
  constructor
  · rw [digits, dropTrailingZeros_append (normal.getLast?_digits nonzero)]
  · rw [magnitude, magnitude, digits, List.length_append, List.length_replicate]
    omega

/-- The digits of an outline text, laid out anew, are the scientific layout of the decimal itself. The text is
read and written again, and this removes the detour. -/
theorem toScientific_outline {d : Decimal} (normal : d.Normal) (nonzero : d.coefficient ≠ 0) :
    Number.toScientific (Number.outlineLayout d) = scientificLayout d := by
  obtain ⟨digits, magnitude⟩ := normal.digits_eq nonzero d.value_ofText_outline
  unfold Number.toScientific scientificLayout mantissa
  dsimp only
  rw [digits, magnitude]
  cases shape : d.digits with
  | nil => exact absurd shape d.digits_ne_nil
  | cons lead tail =>
      cases tail with
      | nil => rfl
      | cons second tail => rfl

/-! ### The shortest decimal is near the number -/

theorem le_placesBelow {fuel num den k : Nat} (reached : den ≤ num * 10 ^ k) (enough : k ≤ fuel) :
    den ≤ num * 10 ^ placesBelow fuel num den := by
  induction fuel generalizing num k with
  | zero =>
      obtain rfl := Nat.le_zero.mp enough
      exact reached
  | succ fuel ih =>
      unfold placesBelow
      split
      next done => simpa using done
      next short =>
        cases k with
        | zero => exact absurd (by simpa using reached) short
        | succ k =>
            have later := @ih (num * 10) k (by rw [Nat.mul_assoc, ← Nat.pow_succ']; exact reached) (by omega)
            rwa [Nat.mul_assoc, ← Nat.pow_succ'] at later

/-- The power of ten of the leading digit is no more than the number. Finding it takes at most 400 places, which
is enough for every number there is. -/
theorem pow_leading_le {num den k : Nat} (positive : 0 < den) (reached : den ≤ num * 10 ^ k) (enough : k ≤ 400) :
    (10 : ℚ) ^ leading num den ≤ num / den := by
  have scale : (0 : ℚ) < den := by exact_mod_cast positive
  unfold leading
  split
  next large =>
    have nonzero : num / den ≠ 0 := Nat.ne_of_gt (Nat.div_pos large positive)
    have lower : 10 ^ ((Nat.toDigits 10 (num / den)).length - 1) ≤ num / den :=
      @pow_le_coefficient ⟨num / den, 0⟩ nonzero
    have length : ((Nat.toDigits 10 (num / den)).length : Int) - 1 =
        ((Nat.toDigits 10 (num / den)).length - 1 : Nat) := by
      have some : 0 < (Nat.toDigits 10 (num / den)).length := Nat.length_toDigits_pos
      omega
    rw [length, zpow_natCast]
    calc (10 : ℚ) ^ ((Nat.toDigits 10 (num / den)).length - 1) ≤ (num / den : Nat) := by exact_mod_cast lower
      _ ≤ num / den := Nat.cast_div_le
  next small =>
    have places := le_placesBelow reached enough
    rw [zpow_neg, zpow_natCast, inv_eq_one_div, div_le_div_iff₀ (by positivity) scale, one_mul]
    exact_mod_cast places

/-- What is found on a grid is one of the two neighbours of the number there. The fraction is scaled so that the
grid is that of the whole numbers. -/
theorem onGrid_cases {x : Float} {num den : Nat} {unit : Int} {d : Decimal}
    (found : onGrid x num den unit = some d) : ∃ n s : Nat, (d = ⟨n / s, unit⟩ ∨ d = ⟨n / s + 1, unit⟩) ∧
      (unit < 0 ∧ n = num * 10 ^ unit.natAbs ∧ s = den ∨
        0 ≤ unit ∧ n = num ∧ s = den * 10 ^ unit.natAbs) := by
  unfold onGrid at found
  extract_lets n s below above distance at found
  refine ⟨n, s, ?_, ?_⟩
  · split at found
    · split at found
      · exact .inl (Option.some.inj found).symm
      · exact .inr (Option.some.inj found).symm
    · exact .inl (Option.some.inj found).symm
    · exact .inr (Option.some.inj found).symm
    · cases found
  · by_cases negative : unit < 0
    · exact .inl ⟨negative, if_pos negative, if_pos negative⟩
    · exact .inr ⟨by omega, if_neg negative, if_neg negative⟩

/-- The neighbours on a grid that is not wider than the number are at least half as large as the number, and at
most twice as large. -/
theorem onGrid_bounds {x : Float} {num den : Nat} {unit : Int} {d : Decimal} (positive : 0 < den)
    (found : onGrid x num den unit = some d) (fine : (10 : ℚ) ^ unit ≤ num / den) :
    (num / den : ℚ) ≤ 2 * d.value ∧ d.value ≤ 2 * (num / den) := by
  have scale : (0 : ℚ) < den := by exact_mod_cast positive
  have step : (0 : ℚ) < 10 ^ unit := by positivity
  obtain ⟨n, s, neighbour, scaled⟩ := onGrid_cases found
  -- counted in steps of the grid, the number is `n / s`
  have counted : 0 < s ∧ (num / den : ℚ) = n / s * 10 ^ unit := by
    rcases scaled with ⟨negative, rfl, rfl⟩ | ⟨natural, rfl, rfl⟩
    · obtain ⟨k, rfl⟩ := Int.exists_eq_neg_ofNat (Int.le_of_lt negative)
      refine ⟨positive, ?_⟩
      rw [Int.natAbs_neg, Int.natAbs_natCast, zpow_neg, zpow_natCast]
      push_cast
      field_simp
    · obtain ⟨k, rfl⟩ := Int.eq_ofNat_of_zero_le natural
      refine ⟨by positivity, ?_⟩
      rw [Int.natAbs_natCast, zpow_natCast]
      push_cast
      field_simp
  obtain ⟨some, ratio⟩ := counted
  have some' : (0 : ℚ) < s := by exact_mod_cast some
  have least : (1 : ℚ) ≤ n / s := by
    rw [ratio] at fine
    exact (le_mul_iff_one_le_left step).mp fine
  have whole : 1 ≤ n / s := by
    rw [Nat.one_le_div_iff some]
    exact_mod_cast (one_le_div some').mp least
  have lower : ((n / s : Nat) : ℚ) ≤ n / s := Nat.cast_div_le
  have upper : (n / s : ℚ) < (n / s : Nat) + 1 := by
    rw [div_lt_iff₀ some', mul_comm]
    exact_mod_cast Nat.lt_mul_div_succ n some
  have whole' : (1 : ℚ) ≤ (n / s : Nat) := by exact_mod_cast whole
  obtain ⟨count, value, atLeast, atMost⟩ : ∃ count : ℚ, d.value = count * 10 ^ unit ∧
      (n / s : Nat) ≤ count ∧ count ≤ (n / s : Nat) + 1 := by
    rcases neighbour with rfl | rfl
    · exact ⟨(n / s : Nat), rfl, le_refl _, by linarith⟩
    · exact ⟨(n / s + 1 : Nat), rfl, by push_cast; linarith, by push_cast; exact le_refl _⟩
  rw [ratio, value, ← mul_assoc, ← mul_assoc]
  constructor
  · exact mul_le_mul_of_nonneg_right (by linarith) step.le
  · exact mul_le_mul_of_nonneg_right (by linarith) step.le

/-- A binary number as a fraction of whole numbers, on which the search for decimals works. -/
theorem value_fraction (m : Nat) (e : Int) :
    0 < (Binary.fraction m e).2 ∧
      ((Binary.fraction m e).1 / (Binary.fraction m e).2 : ℚ) = Binary.value m e := by
  unfold Binary.fraction Binary.value
  split
  next natural =>
    obtain ⟨k, rfl⟩ := Int.eq_ofNat_of_zero_le natural
    refine ⟨Nat.one_pos, ?_⟩
    simp
  next negative =>
    obtain ⟨k, rfl⟩ := Int.exists_eq_neg_ofNat (by omega : e ≤ 0)
    refine ⟨Nat.pow_pos (by decide), ?_⟩
    simp [div_eq_mul_inv]

/-- The shortest decimal for a number is at least half as large as the number, and at most twice as large. -/
theorem shortest_bounds (x : Float) {m k : Nat} {e : Int}
    (reached : (Binary.fraction m e).2 ≤ (Binary.fraction m e).1 * 10 ^ k) (enough : k ≤ 400) :
    Binary.value m e ≤ 2 * (shortest x m e).value ∧ (shortest x m e).value ≤ 2 * Binary.value m e := by
  obtain ⟨positive, same⟩ := value_fraction m e
  have natural : 0 ≤ Binary.value m e := by
    rw [← same]
    positivity
  have first := pow_leading_le positive reached enough
  unfold shortest
  dsimp only
  rw [value_normal]
  cases grids : List.findSome? _ (List.range 17) with
  | none =>
      rw [Option.getD_none, Binary.value_toDecimal]
      constructor <;> linarith
  | some d =>
      obtain ⟨j, -, found⟩ := List.exists_of_findSome?_eq_some grids
      rw [Option.getD_some, ← same]
      apply onGrid_bounds positive found
      refine le_trans ?_ first
      exact zpow_le_zpow_right₀ (by norm_num) (by omega)

end Decimal

/-! ### Comparing numbers -/

namespace Binary

variable {m n : Nat} {e f : Int}

theorem ordered_of_isLE (le : ((compare e f).then (compare m n)).isLE = true) : e < f ∨ e = f ∧ m ≤ n := by
  cases exponents : compare e f with
  | lt => exact .inl (compare_lt_iff_lt.mp exponents)
  | eq =>
      rw [exponents] at le
      exact .inr ⟨compare_eq_iff_eq.mp exponents, Nat.isLE_compare.mp le⟩
  | gt =>
      rw [exponents] at le
      cases le

/-- A number whose magnitude is zero equals zero, whatever its sign. -/
theorem beq_zero_of_magnitude {x : Float} (number : ofFloat x ≠ .nan) (zero : Number.abs x = 0.0) :
    (x == 0.0) = true := by
  have parts : ofFloat x = .finite 0 (-1074) := by
    have magnitude := congrArg ofFloat (magnitude_eq number)
    rw [ofFloat_toFloat _ ((ofFloat_proper x).resolve_left number), zero] at magnitude
    exact magnitude.symm.trans (by decide +kernel)
  rw [← toFloat_ofFloat number, parts]
  cases sign x <;> decide +kernel

variable (canonical : Canonical m e) (canonical' : Canonical n f)

include canonical canonical'

/-- Canonical numbers are ordered by their exponents, and by their mantissas where these are equal. -/
theorem Canonical.value_le (ordered : e < f ∨ e = f ∧ m ≤ n) : value m e ≤ value n f := by
  rcases ordered with lower | ⟨rfl, le⟩
  · have least := canonical.least
    have full : 2 ^ 52 ≤ n := canonical'.full.resolve_right (by omega)
    calc value m e ≤ 2 ^ (e + 53) := canonical.value_lt.le
      _ ≤ 2 ^ (52 + f) := zpow_le_zpow_right₀ (by norm_num) (by omega)
      _ = 2 ^ 52 * 2 ^ f := by rw [zpow_add₀ (by norm_num)]; rfl
      _ ≤ value n f := mul_le_mul_of_nonneg_right (by exact_mod_cast full) (by positivity)
  · exact mul_le_mul_of_nonneg_right (by exact_mod_cast le) (by positivity)

/-- Comparing positive numbers compares their values. The comparison looks at exponents first and at mantissas
then, which is the order of values for canonical parts only. -/
theorem value_le_of_le (le : toFloat .positive (.finite m e) ≤ toFloat .positive (.finite n f)) :
    value m e ≤ value n f := by
  replace le : (toFloat .positive (.finite m e)).toModel.unpack.le
      (toFloat .positive (.finite n f)).toModel.unpack = true := of_decide_eq_true le
  rw [unpack_toFloat _ (.finite canonical), unpack_toFloat _ (.finite canonical'),
    unpacked_finite _ canonical.positive, unpacked_finite _ canonical'.positive] at le
  exact canonical.value_le canonical' (ordered_of_isLE le)

theorem value_le_of_lt (lt : toFloat .positive (.finite m e) < toFloat .positive (.finite n f)) :
    value m e ≤ value n f := by
  replace lt : (toFloat .positive (.finite m e)).toModel.unpack.lt
      (toFloat .positive (.finite n f)).toModel.unpack = true := of_decide_eq_true lt
  rw [unpack_toFloat _ (.finite canonical), unpack_toFloat _ (.finite canonical'),
    unpacked_finite _ canonical.positive, unpacked_finite _ canonical'.positive] at lt
  have less : (compare e f).then (compare m n) = .lt := Option.some.inj (eq_of_beq lt)
  exact canonical.value_le canonical' (ordered_of_isLE (by rw [less]; rfl))

end Binary

namespace Number

/-! ### The layout of the format -/

/-- The lower bound for numbers that are displayed without an exponent, as canonical parts. It is a little more
than a thousandth, so what is no less than it is no less than a thousandth. -/
theorem thousandth_eq : (0.001 : Float) = Binary.toFloat .positive (.finite 0x10624dd2f1a9fc (-62)) ∧
    Binary.Canonical 0x10624dd2f1a9fc (-62) :=
  ⟨by decide +kernel, by decide, by decide, by decide, by decide, .inl (by decide)⟩

/-- The upper bound for numbers that are displayed without an exponent, as canonical parts. It is exact. -/
theorem tenMillion_eq : (10000000.0 : Float) = Binary.toFloat .positive (.finite 0x1312d000000000 (-29)) ∧
    Binary.Canonical 0x1312d000000000 (-29) :=
  ⟨by decide +kernel, by decide, by decide, by decide, by decide, .inl (by decide)⟩

/-- The sign of a text stays in front when its digits are laid out anew. -/
theorem toSignedScientific_signed (x : Float) {text : List Char} {q : ℚ} (denotes : magnitude? text = some q) :
    toSignedScientific (signed x text) = signed x (toScientific text) := by
  unfold signed
  split
  · rfl
  · rw [toSignedScientific]
    rintro rest rfl
    rw [magnitude?_cons (by decide)] at denotes
    cases denotes

section Finite

variable {x : Float} {m : Nat} {e : Int} (parts : Binary.ofFloat x = .finite m e)

include parts

theorem ne_nan : Binary.ofFloat x ≠ .nan := by
  rw [parts]
  nofun

theorem proper_parts : Binary.Proper (.finite m e) := by
  rw [← parts]
  exact (Binary.ofFloat_proper x).resolve_left (ne_nan parts)

/-- Numbers that are displayed without an exponent, zero aside, are at least a thousandth and at most ten
million. The comparisons of the test become comparisons of values here. -/
theorem value_of_isPositional (nonzero : (x == 0.0) = false) (positional : isPositional x = true) :
    1 / 1000 ≤ Binary.value m e ∧ Binary.value m e ≤ 10000000 := by
  obtain ⟨thousandth, canonical₁⟩ := thousandth_eq
  obtain ⟨tenMillion, canonical₂⟩ := tenMillion_eq
  rw [isPositional, nonzero, Bool.false_or, Bool.and_eq_true, decide_eq_true_iff, decide_eq_true_iff,
    Binary.magnitude_eq (ne_nan parts), parts, thousandth, tenMillion] at positional
  obtain ⟨lower, upper⟩ := positional
  cases proper_parts parts with
  | zero => exact absurd lower (by decide +kernel)
  | finite canonical =>
      constructor
      · refine le_trans ?_ (Binary.value_le_of_le canonical₁ canonical lower)
        norm_num [Binary.value]
      · refine le_trans (Binary.value_le_of_lt canonical canonical₂ upper) ?_
        norm_num [Binary.value]

/-- Zero has the decimal zero, with either sign. -/
theorem shortest_of_zero (zero : (x == 0.0) = true) : Decimal.shortest (abs x) m e = ⟨0, 0⟩ := by
  rw [Binary.magnitude_eq (ne_nan parts), parts]
  cases proper_parts parts with
  | zero => decide +kernel
  | finite canonical =>
      -- a number that is not zero does not compare as zero does
      replace zero : x.toModel.unpack.beq (0.0 : Float).toModel.unpack = true := zero
      have other : Binary.ofFloat 0.0 = .finite 0 (-1074) := by decide +kernel
      rw [Binary.unpack_eq, Binary.unpack_eq, parts, other, Binary.unpacked_finite _ canonical.positive] at zero
      cases sign : Binary.sign x <;> rw [sign] at zero <;> cases zero

/-- Any other number has a decimal that is not zero, as it is at least half as large as the number. -/
theorem coefficient_shortest_ne_zero (nonzero : (x == 0.0) = false) :
    (Decimal.shortest (abs x) m e).coefficient ≠ 0 := by
  intro none
  have zero : abs x = 0.0 := by
    rw [← Decimal.toFloat_shortest parts, (Decimal.shortest_normal _ _ _).eq_zero none]
    decide +kernel
  rw [Binary.beq_zero_of_magnitude (ne_nan parts) zero] at nonzero
  cases nonzero

/-- The shortest decimal of a number that is displayed without an exponent is outlined without one. By
`shortest_bounds` its magnitude differs from the number's by a factor of two at most, and the bounds of the
outline are wider by more than that. -/
theorem outlineLayout_eq (positional : isPositional x = true) :
    outlineLayout (Decimal.shortest (abs x) m e) = (Decimal.shortest (abs x) m e).positional := by
  apply if_pos
  cases zero : x == 0.0 with
  | true =>
      rw [shortest_of_zero parts zero]
      decide
  | false =>
      obtain ⟨lower, upper⟩ := value_of_isPositional parts zero positional
      obtain ⟨some, same⟩ := Decimal.value_fraction m e
      have reached : (Binary.fraction m e).2 ≤ (Binary.fraction m e).1 * 10 ^ 3 := by
        rw [← same, div_le_div_iff₀ (by norm_num) (by exact_mod_cast some), one_mul] at lower
        exact_mod_cast lower
      obtain ⟨atLeast, atMost⟩ := Decimal.shortest_bounds (abs x) reached (by decide)
      obtain ⟨leads, next⟩ := Decimal.value_bounds (coefficient_shortest_ne_zero parts zero)
      -- the leading digit stands at the power of ten of the number, or next to it
      constructor
      · by_contra small
        have less : (10 : ℚ) ^ ((Decimal.shortest (abs x) m e).magnitude + 1) ≤ 10 ^ (-4 : ℤ) :=
          zpow_le_zpow_right₀ (by norm_num) (by omega)
        norm_num at less
        linarith
      · by_contra large
        have more : (10 : ℚ) ^ (16 : ℤ) ≤ 10 ^ (Decimal.shortest (abs x) m e).magnitude :=
          zpow_le_zpow_right₀ (by norm_num) (by omega)
        norm_num at more
        linarith

/-- The outline of a finite number is its sign and the outline layout of its shortest decimal. -/
theorem toList_outline : (outline x).toList = signed x (outlineLayout (Decimal.shortest (abs x) m e)) := by
  unfold outline
  rw [parts]
  dsimp only
  rw [String.toList_ofList]

/-- The format of a finite number is its shortest decimal, in positional or in scientific layout. -/
theorem toList_format : (format x).toList = signed x (if isPositional x then
    (Decimal.shortest (abs x) m e).positional else scientificLayout (Decimal.shortest (abs x) m e)) := by
  unfold format
  rw [parts]
  dsimp only
  split
  next positional => rw [toList_outline parts, outlineLayout_eq parts positional]
  next scientific =>
    have nonzero : (x == 0.0) = false := by
      cases zero : x == 0.0 with
      | false => rfl
      | true => simp [isPositional, zero] at scientific
    rw [String.toList_ofList, toList_outline parts, toSignedScientific_signed _ (Decimal.magnitude?_outline _),
      Decimal.toScientific_outline (Decimal.shortest_normal _ _ _) (coefficient_shortest_ne_zero parts nonzero)]

end Finite

end Number

end Treewalk

import Treewalk.Proofs.Number.Decimal
import Treewalk.Proofs.Token.Lexical

/-!
Numerals: the texts that denote decimal numbers. `Numeral.denoted?` reads any text with an optional minus,
digits, an optional fraction and an optional power of ten. It is the measure for the layouts of a decimal:
positional and scientific texts denote the number that the decimal stands for (`Decimal.digits_positional`,
`Decimal.magnitude?_scientific`).
-/

namespace Treewalk

open Text

namespace Numeral

/-- The number that digits denote. -/
def whole? (digits : List Char) : Option Nat :=
  if digits ≠ [] ∧ digits.all isDigit then some (Nat.ofDigitChars 10 digits 0) else none

/-- Digits with or without a fraction, whose digits count by their places. -/
def mantissa? (text : List Char) : Option ℚ :=
  match text.dropWhile isDigit with
  | [] => (whole? text).map fun (n : Nat) => (n : ℚ)
  | point :: places =>
    if point = '.' then
      (whole? (text.takeWhile isDigit)).bind fun (n : Nat) =>
        (whole? places).map fun (f : Nat) => (n : ℚ) + f / 10 ^ places.length
    else none

/-- The exponent of a power of ten, with or without a sign. -/
def power? : List Char → Option Int
  | '-' :: digits => (whole? digits).map fun (n : Nat) => -(n : Int)
  | '+' :: digits => (whole? digits).map fun (n : Nat) => (n : Int)
  | digits => (whole? digits).map fun (n : Nat) => (n : Int)

/-- The mark in front of a power of ten. -/
def isMark (c : Char) : Bool := c == 'e' || c == 'E'

/-- A mantissa, and a power of ten behind its mark. -/
def magnitude? (text : List Char) : Option ℚ :=
  let mantissa := mantissa? (text.takeWhile fun c => !isMark c)
  match text.dropWhile fun c => !isMark c with
  | [] => mantissa
  | _ :: power => mantissa.bind fun q => (power? power).map fun k => q * 10 ^ k

/-- Whether a text has a minus in front, and the number that the rest denotes. -/
def denoted? : List Char → Option (Bool × ℚ)
  | '-' :: text => (magnitude? text).map fun q => (true, q)
  | text => (magnitude? text).map fun q => (false, q)

/-- Scientific notation: a digit that is not zero, a point, a tail that is `0` or does not end in a zero, and
the power of ten of the leading digit. -/
def Scientific (text : List Char) (q : ℚ) : Prop :=
  ∃ (lead : Char) (tail : List Char) (k : Int),
    text = lead :: '.' :: tail ++ 'E' :: (toString k).toList ∧
    isDigit lead = true ∧ lead ≠ '0' ∧ tail ≠ [] ∧ (∀ c ∈ tail, isDigit c = true) ∧
    (tail = ['0'] ∨ tail.getLast? ≠ some '0') ∧ (10 : ℚ) ^ k ≤ q ∧ q < 10 ^ (k + 1)

/-- A decimal in scientific layout. -/
def scientificLayout (d : Decimal) : List Char :=
  d.mantissa ['.', '0'] ++ 'E' :: Number.plainExponent d.magnitude

/-! ### Digits -/

/-- Digits, with or without a fraction, that denote a number by their places. -/
inductive Digits : List Char → ℚ → Prop where
  | whole {digits} : digits ≠ [] → (∀ c ∈ digits, isDigit c = true) →
      Digits digits (Nat.ofDigitChars 10 digits 0)
  | pointed {digits places} : digits ≠ [] → places ≠ [] → (∀ c ∈ digits, isDigit c = true) →
      (∀ c ∈ places, isDigit c = true) →
      Digits (digits ++ '.' :: places) (Nat.ofDigitChars 10 (digits ++ places) 0 / 10 ^ places.length)

variable {text : List Char} {q : ℚ}

/-- A run of digits is read as the whole number it spells. -/
theorem whole?_eq {digits : List Char} (nonempty : digits ≠ []) (all : ∀ c ∈ digits, isDigit c = true) :
    whole? digits = some (Nat.ofDigitChars 10 digits 0) :=
  if_pos ⟨nonempty, List.all_eq_true.mpr all⟩

/-- Digits, with or without a point, are read as the number they denote. -/
theorem Digits.mantissa? (digits : Digits text q) : mantissa? text = some q := by
  cases digits with
  | whole nonempty all =>
      have ended : text.dropWhile isDigit = [] := by
        simpa using dropWhile_append all avoids_nil
      simp [Numeral.mantissa?, ended, whole?_eq nonempty all]
  | @pointed digits places nonempty nonempty' all all' =>
      have point : Avoids isDigit ('.' :: places) := avoids_cons.mpr (by decide)
      have joined : (Nat.ofDigitChars 10 (digits ++ places) 0 : ℚ) / 10 ^ places.length =
          Nat.ofDigitChars 10 digits 0 + Nat.ofDigitChars 10 places 0 / 10 ^ places.length := by
        rw [Nat.ofDigitChars_append, Nat.ofDigitChars_eq_ofDigitChars_zero]
        push_cast
        field_simp
      rw [joined, Numeral.mantissa?, dropWhile_append all point, takeWhile_append all point]
      simp [whole?_eq nonempty all, whole?_eq nonempty' all']

theorem isMark_of_isDigit {c : Char} (digit : isDigit c = true) : isMark c = false := by
  have unlisted : c ∉ ['e', 'E'] := Piece.not_mem_of_class digit (by decide)
  simpa [isMark] using unlisted

/-- No exponent mark stands among digits, so the mantissa ends where the digits do. -/
theorem Digits.unmarked (digits : Digits text q) : ∀ c ∈ text, (!isMark c) = true := by
  intro c listed
  cases digits with
  | whole _ all => rw [isMark_of_isDigit (all c listed)]; rfl
  | pointed _ _ all all' =>
      rcases List.mem_append.mp listed with before | after
      · rw [isMark_of_isDigit (all c before)]; rfl
      · rcases List.mem_cons.mp after with rfl | after
        · rfl
        · rw [isMark_of_isDigit (all' c after)]; rfl

/-- Without an exponent the magnitude is the mantissa, as there is no mark in it to end it early. -/
theorem Digits.magnitude? (digits : Digits text q) : magnitude? text = some q := by
  have inside : text.takeWhile (fun c => !isMark c) = text := by
    simpa using takeWhile_append digits.unmarked avoids_nil
  have ended : text.dropWhile (fun c => !isMark c) = [] := by
    simpa using dropWhile_append digits.unmarked avoids_nil
  simp [Numeral.magnitude?, inside, ended, digits.mantissa?]

/-- With an exponent the magnitude is the mantissa times the power of ten. -/
theorem Digits.scaled (digits : Digits text q) {mark : Char} (marks : isMark mark = true)
    {power : List Char} {k : Int} (exponent : power? power = some k) :
    Numeral.magnitude? (text ++ mark :: power) = some (q * 10 ^ k) := by
  have stop : Avoids (fun c => !isMark c) (mark :: power) := avoids_cons.mpr (by simp [marks])
  unfold Numeral.magnitude?
  rw [takeWhile_append digits.unmarked stop, dropWhile_append digits.unmarked stop]
  simp [digits.mantissa?, exponent]

/-! ### Exponents and signs -/

/-- An exponent without a sign is the number that its digits spell. -/
theorem power?_digits {digits : List Char} (nonempty : digits ≠ []) (all : ∀ c ∈ digits, isDigit c = true) :
    power? digits = some (Nat.ofDigitChars 10 digits 0 : Int) := by
  obtain ⟨c, more, rfl⟩ := List.exists_cons_of_ne_nil nonempty
  have unsigned : c ∉ ['-', '+'] := Piece.not_mem_of_class (all c (by simp)) (by decide)
  simp only [List.mem_cons, List.not_mem_nil, or_false, not_or] at unsigned
  rw [power?, whole?_eq nonempty all]
  · rfl
  · intro digits same
    exact unsigned.1 (List.cons.inj same).1
  · intro digits same
    exact unsigned.2 (List.cons.inj same).1

theorem isDigit_toDigits (n : Nat) : ∀ c ∈ Nat.toDigits 10 n, isDigit c = true :=
  fun _ listed => Nat.isDigit_of_mem_toDigits (by decide) (by decide) listed

theorem isDigit_zeros (n : Nat) : ∀ c ∈ List.replicate n '0', isDigit c = true := by
  intro c listed
  rw [List.eq_of_mem_replicate listed]
  decide

/-- The exponent of the scientific layout is read back. -/
theorem power?_plainExponent (k : Int) : power? (Number.plainExponent k) = some k := by
  unfold Number.plainExponent
  split
  next negative =>
    have same : -(k.natAbs : Int) = k := by omega
    rw [power?, whole?_eq Nat.toDigits_ne_nil (isDigit_toDigits _), Nat.ofDigitChars_ten_toDigits,
      Option.map_some, same]
  next natural =>
    have same : (k.natAbs : Int) = k := by omega
    rw [power?_digits Nat.toDigits_ne_nil (isDigit_toDigits _), Nat.ofDigitChars_ten_toDigits, same]

/-- The exponent of the outline, padded to two digits and with its sign, is read back. The zero that pads it
does not count. -/
theorem power?_paddedExponent (k : Int) : power? (Number.paddedExponent k) = some k := by
  have read (zeros : Nat) : whole? (List.replicate zeros '0' ++ Nat.toDigits 10 k.natAbs) = some k.natAbs := by
    rw [whole?_eq, Nat.ofDigitChars_append, Nat.ofDigitChars_replicate_zero, Nat.mul_zero,
      Nat.ofDigitChars_ten_toDigits]
    · simp [Nat.toDigits_ne_nil]
    · intro c listed
      rcases List.mem_append.mp listed with zero | digit
      · exact isDigit_zeros _ c zero
      · exact isDigit_toDigits _ c digit
  unfold Number.paddedExponent
  dsimp only
  split
  next negative =>
    have same : -(k.natAbs : Int) = k := by omega
    rw [power?, read, Option.map_some, same]
  next natural =>
    have same : (k.natAbs : Int) = k := by omega
    rw [power?, read, Option.map_some, same]

theorem magnitude?_cons {c : Char} (other : isDigit c = false) (text : List Char) :
    magnitude? (c :: text) = none := by
  have refused (more : List Char) : mantissa? (c :: more) = none := by
    unfold mantissa?
    rw [List.dropWhile_cons_of_neg (by simp [other]), List.takeWhile_cons_of_neg (by simp [other])]
    dsimp only
    split <;> rfl
  unfold magnitude?
  dsimp only
  cases mark : isMark c with
  | true =>
      rw [List.takeWhile_cons_of_neg (by simp [mark]), List.dropWhile_cons_of_neg (by simp [mark])]
      rfl
  | false =>
      rw [List.takeWhile_cons_of_pos (by simp [mark]), refused]
      split <;> rfl

/-- A numeral begins with a minus or a digit. -/
theorem denoted?_cons {c : Char} (unsigned : c ≠ '-') (other : isDigit c = false) (text : List Char) :
    denoted? (c :: text) = none := by
  rw [denoted?, magnitude?_cons other]
  · rfl
  · intro more same
    exact unsigned (List.cons.inj same).1

/-- The sign in front of a magnitude is read back, the sign of zero included. So what a text denotes is a sign
and a number, and not the number alone. -/
theorem denoted?_signed (x : Float) (magnitude : magnitude? text = some q) :
    denoted? (Number.signed x text) = some (Binary.isNegative x, q) := by
  unfold Number.signed
  split
  next negative => rw [denoted?, magnitude, negative]; rfl
  next positive =>
    rw [denoted?, magnitude, Bool.eq_false_iff.mpr positive]
    · rfl
    · rintro text rfl
      rw [magnitude?_cons (by decide)] at magnitude
      cases magnitude

end Numeral

namespace Decimal

open Numeral

variable (d : Decimal)

theorem digits_ne_nil : d.digits ≠ [] := Nat.toDigits_ne_nil

theorem isDigit_digits : ∀ c ∈ d.digits, isDigit c = true := isDigit_toDigits d.coefficient

theorem ofDigitChars_digits : Nat.ofDigitChars 10 d.digits 0 = d.coefficient := Nat.ofDigitChars_ten_toDigits

/-- A decimal with a negative exponent is its coefficient over a power of ten. -/
theorem value_eq_div {places : Nat} (exponent : d.exponent = -(places : Int)) :
    d.value = d.coefficient / 10 ^ places := by
  rw [value, exponent, zpow_neg, zpow_natCast, div_eq_mul_inv]

theorem ofDigitChars_zero (n : Nat) : Nat.ofDigitChars 10 ['0'] n = 10 * n := by
  simp [Nat.ofDigitChars_cons]

/-- Digits with a point in them denote their number over a power of ten, one factor for each digit behind
the point. -/
theorem digits_point {whole places : List Char} {n : Nat} {q : ℚ} (nonempty : whole ≠ [])
    (nonempty' : places ≠ []) (all : ∀ c ∈ whole ++ places, isDigit c = true)
    (number : Nat.ofDigitChars 10 (whole ++ places) 0 = n) (value : q = n / 10 ^ places.length) :
    Digits (whole ++ '.' :: places) q := by
  rw [value, ← number]
  exact .pointed nonempty nonempty' (fun c listed => all c (List.mem_append_left _ listed))
    (fun c listed => all c (List.mem_append_right _ listed))

/-- The positional layout denotes the number that the decimal stands for. There are three cases: zeros behind
the digits, a point among them, and zeros in front. -/
theorem digits_positional : Digits d.positional d.value := by
  have all := d.isDigit_digits
  unfold positional
  dsimp only
  split
  next whole =>
    -- zeros behind the digits, and one behind the point
    obtain ⟨k, exponent⟩ := Int.eq_ofNat_of_zero_le whole
    rw [exponent, Int.toNat_natCast]
    apply @digits_point (d.digits ++ List.replicate k '0') ['0'] (10 * (10 ^ k * d.coefficient))
    · simp [d.digits_ne_nil]
    · simp
    · simp only [List.mem_append]
      rintro c ((digit | zero) | last)
      · exact all c digit
      · exact isDigit_zeros k c zero
      · exact isDigit_zeros 1 c last
    · rw [Nat.ofDigitChars_append, Nat.ofDigitChars_append, Nat.ofDigitChars_replicate_zero,
        ofDigitChars_digits, ofDigitChars_zero]
    · rw [value, exponent, zpow_natCast]
      push_cast
      rw [List.length_singleton, pow_one]
      ring
  next fractional =>
    have exponent : d.exponent = -(d.exponent.natAbs : Int) := by omega
    have positive : 0 < d.exponent.natAbs := by omega
    rw [d.value_eq_div exponent]
    split
    next inside =>
      -- the point between two digits
      have places : (d.digits.drop (d.digits.length - d.exponent.natAbs)).length = d.exponent.natAbs := by
        rw [List.length_drop]
        omega
      apply digits_point
      · rw [ne_eq, List.take_eq_nil_iff]
        exact not_or.mpr ⟨by omega, d.digits_ne_nil⟩
      · apply List.ne_nil_of_length_pos
        rwa [places]
      · rwa [List.take_append_drop]
      · rw [List.take_append_drop, ofDigitChars_digits]
      · rw [places]
    next outside =>
      -- zeros between the point and the digits
      have places : (List.replicate (d.exponent.natAbs - d.digits.length) '0' ++ d.digits).length =
          d.exponent.natAbs := by
        rw [List.length_append, List.length_replicate]
        omega
      apply @digits_point ['0'] (List.replicate (d.exponent.natAbs - d.digits.length) '0' ++ d.digits)
      · simp
      · simp [d.digits_ne_nil]
      · simp only [List.mem_append]
        rintro c (first | zero | digit)
        · exact isDigit_zeros 1 c first
        · exact isDigit_zeros _ c zero
        · exact all c digit
      · rw [Nat.ofDigitChars_append, Nat.ofDigitChars_append, ofDigitChars_zero, Nat.mul_zero,
          Nat.ofDigitChars_replicate_zero, Nat.mul_zero, ofDigitChars_digits]
      · rw [places]

/-- A decimal is its digits with a point behind the first one, times a power of ten. The scientific layout is
the text of this equation. -/
theorem value_eq_scaled : d.value = d.coefficient / 10 ^ (d.digits.length - 1) * 10 ^ d.magnitude := by
  have positive : 1 ≤ d.digits.length := List.length_pos_iff.mpr d.digits_ne_nil
  have magnitude : d.magnitude = d.exponent + (d.digits.length - 1 : Nat) := by
    unfold Decimal.magnitude
    omega
  rw [magnitude, zpow_add₀ (by norm_num), zpow_natCast, value]
  field_simp

/-- A digit that stands alone may be followed by a fraction that is only a zero. -/
theorem digits_mantissa {bare : List Char} (zero : bare = [] ∨ bare = ['.', '0']) :
    Digits (d.mantissa bare) (d.coefficient / 10 ^ (d.digits.length - 1)) := by
  have all := d.isDigit_digits
  have number := d.ofDigitChars_digits
  unfold mantissa
  split
  next none => exact absurd none d.digits_ne_nil
  next lead alone =>
    rw [alone] at all number
    rw [alone, ← number, List.length_singleton, Nat.sub_self, pow_zero, div_one]
    rcases zero with rfl | rfl
    · exact .whole (by simp) all
    · apply @digits_point [lead] ['0'] (10 * Nat.ofDigitChars 10 [lead] 0)
      · simp
      · simp
      · simp only [List.mem_append]
        rintro c (listed | zero)
        · exact all c listed
        · exact isDigit_zeros 1 c zero
      · rw [Nat.ofDigitChars_append, ofDigitChars_zero]
      · push_cast
        rw [List.length_singleton, pow_one]
        field_simp
  next lead tail many shape =>
    rw [shape] at all number
    rw [shape, List.length_cons, Nat.add_sub_cancel]
    exact @digits_point [lead] tail d.coefficient _ (by simp) (fun none => many (none ▸ rfl)) all number rfl

/-- Whichever of its two forms the outline layout takes, it denotes the value of its decimal. -/
theorem magnitude?_outline : magnitude? (Number.outlineLayout d) = some d.value := by
  unfold Number.outlineLayout
  split
  · exact d.digits_positional.magnitude?
  · rw [d.value_eq_scaled]
    exact (d.digits_mantissa (.inl rfl)).scaled (by decide) (power?_paddedExponent _)

/-- The scientific layout denotes the value of its decimal. -/
theorem magnitude?_scientific : magnitude? (scientificLayout d) = some d.value := by
  rw [d.value_eq_scaled]
  exact (d.digits_mantissa (.inr rfl)).scaled (by decide) (power?_plainExponent _)

/-! ### Scientific notation -/

/-- A positive number is not written with a zero in front, so the digit in front of the point is no
zero either. -/
theorem head_toDigits {n : Nat} (positive : 0 < n) : ∀ c ∈ (Nat.toDigits 10 n).head?, c ≠ '0' := by
  induction n using Nat.strong_induction_on with
  | _ n ih =>
      by_cases small : n < 10
      · rw [Nat.toDigits_of_lt_base small]
        simpa using Nat.ne_of_gt positive
      · rw [Nat.toDigits_of_base_le (by decide) (by omega),
          List.head?_append_of_ne_nil _ Nat.toDigits_ne_nil]
        exact ih (n / 10) (by omega) (by omega)

/-- The last digit of a number is its remainder by ten. -/
theorem getLast?_toDigits (n : Nat) : (Nat.toDigits 10 n).getLast? = some (n % 10).digitChar := by
  by_cases small : n < 10
  · rw [Nat.toDigits_of_lt_base small, Nat.mod_eq_of_lt small]
    rfl
  · rw [Nat.toDigits_of_base_le (by decide) (by omega), List.getLast?_concat]

/-- The exponent of the scientific layout is written as any whole number is. -/
theorem plainExponent_eq (k : Int) : Number.plainExponent k = (toString k).toList := by
  unfold Number.plainExponent
  cases k with
  | ofNat n =>
      change _ = n.repr.toList
      simp [Nat.toList_repr]
  | negSucc n =>
      change _ = ("-" ++ (n + 1).repr).toList
      simp [Nat.toList_repr, Int.negSucc_lt_zero]

/-- A coefficient has no fewer digits than are written. -/
theorem pow_le_coefficient {d : Decimal} (nonzero : d.coefficient ≠ 0) :
    10 ^ (d.digits.length - 1) ≤ d.coefficient := by
  by_cases single : d.digits.length - 1 = 0
  · rw [single]
    exact Nat.pos_of_ne_zero nonzero
  · have shorter := Nat.length_toDigits_le_iff (b := 10) (n := d.coefficient) (by decide)
      (Nat.pos_of_ne_zero single)
    have short : ¬ d.digits.length ≤ d.digits.length - 1 := by omega
    exact Nat.le_of_not_lt (mt shorter.mpr short)

/-- A coefficient has no more digits than are written. -/
theorem coefficient_lt_pow (d : Decimal) : d.coefficient < 10 ^ d.digits.length :=
  (Nat.length_toDigits_le_iff (by decide) Nat.length_toDigits_pos).mp (Nat.le_refl _)

/-- The magnitude is the power of ten of the leading digit: the number lies between this power and the
next one. -/
theorem value_bounds {d : Decimal} (nonzero : d.coefficient ≠ 0) :
    (10 : ℚ) ^ d.magnitude ≤ d.value ∧ d.value < 10 ^ (d.magnitude + 1) := by
  have positive : 1 ≤ d.digits.length := List.length_pos_iff.mpr d.digits_ne_nil
  have scale : (0 : ℚ) < 10 ^ d.exponent := by positivity
  have magnitude : d.magnitude = (d.digits.length - 1 : Nat) + d.exponent := by
    unfold Decimal.magnitude
    omega
  have next : d.magnitude + 1 = d.digits.length + d.exponent := by
    unfold Decimal.magnitude
    omega
  rw [next, magnitude, zpow_add₀ (by norm_num), zpow_add₀ (by norm_num), zpow_natCast, zpow_natCast, value]
  constructor
  · exact mul_le_mul_of_nonneg_right (mod_cast pow_le_coefficient nonzero) scale.le
  · exact mul_lt_mul_of_pos_right (mod_cast d.coefficient_lt_pow) scale

/-- The digits of a normal spelling do not end in a zero. -/
theorem Normal.getLast?_digits {d : Decimal} (normal : d.Normal) (nonzero : d.coefficient ≠ 0) :
    d.digits.getLast? ≠ some '0' := by
  have ends : d.coefficient % 10 ≠ 0 := normal.resolve_left fun zero => nonzero (zero ▸ rfl)
  rw [digits, getLast?_toDigits]
  simpa using ends

/-- The scientific layout of a normal spelling follows the rules of that notation: one digit that is no zero
before the point, and no zero at the end behind it. -/
theorem scientificLayout_scientific {d : Decimal} (normal : d.Normal) (nonzero : d.coefficient ≠ 0) :
    Scientific (scientificLayout d) d.value := by
  have all := d.isDigit_digits
  have first : ∀ c ∈ d.digits.head?, c ≠ '0' := head_toDigits (Nat.pos_of_ne_zero nonzero)
  have last := normal.getLast?_digits nonzero
  obtain ⟨lower, upper⟩ := value_bounds nonzero
  unfold scientificLayout mantissa
  rw [plainExponent_eq]
  split
  next none => exact absurd none d.digits_ne_nil
  next lead alone =>
    rw [alone] at all first
    exact ⟨lead, ['0'], d.magnitude, rfl, all lead (by simp), first lead rfl, by simp, isDigit_zeros 1,
      .inl rfl, lower, upper⟩
  next lead tail many shape =>
    rw [shape] at all first last
    have nonempty : tail ≠ [] := fun none => many (none ▸ rfl)
    rw [List.getLast?_cons_of_ne_nil nonempty] at last
    exact ⟨lead, tail, d.magnitude, rfl, all lead (by simp), first lead rfl, nonempty,
      fun c listed => all c (by simp [listed]), .inr last, lower, upper⟩

end Decimal

end Treewalk

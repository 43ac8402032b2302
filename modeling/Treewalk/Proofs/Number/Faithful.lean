import Treewalk.Proofs.Number.Layout
import Treewalk.Proofs.Token.Spelling

/-!
The texts of numbers lose nothing. The outline, the format and the display of a finite number denote one
decimal number, which is read back as its magnitude (`Number.denoted?_outline`, `Number.denoted?_format`,
`Number.denoted?_display`). A text that says this much is written for one number only
(`Number.eq_of_written`), and a display without sign or exponent is scanned as the number that it shows
(`Number.scans_display`).
-/

namespace Treewalk

open Text Numeral Float.Model

namespace Binary

/-! ### Signs and zeros -/

/-- A number that is no less than a positive one has no minus. -/
theorem isNegative_eq_false {x : Float} {m : Nat} {e : Int} (canonical : Canonical m e)
    (le : toFloat .positive (.finite m e) ≤ x) : isNegative x = false := by
  replace le : (toFloat .positive (.finite m e)).toModel.unpack.le x.toModel.unpack = true :=
    of_decide_eq_true le
  rw [unpack_toFloat _ (.finite canonical), unpacked_finite _ canonical.positive, unpack_eq] at le
  by_contra negative
  have minus : sign x = .negative := if_pos (by simpa using negative)
  rw [minus] at le
  cases parts : ofFloat x with
  | nan | infinite => simp [parts, unpacked, UnpackedFloat.le, UnpackedFloat.compare] at le
  | finite m e => cases m <;> simp [parts, unpacked, UnpackedFloat.le, UnpackedFloat.compare] at le

/-- A number without a minus that is less than another one is finite. -/
theorem finite_of_lt {x y : Float} (positive : isNegative x = false) (lt : x < y) :
    ∃ m e, ofFloat x = .finite m e := by
  replace lt : x.toModel.unpack.lt y.toModel.unpack = true := of_decide_eq_true lt
  have plus : sign x = .positive := if_neg (by simp [positive])
  rw [unpack_eq, plus] at lt
  cases parts : ofFloat x with
  | nan => simp [parts, unpacked, UnpackedFloat.lt, UnpackedFloat.compare] at lt
  | infinite =>
      rw [parts] at lt
      cases other : y.toModel.unpack with
      | infinity s =>
          rw [other] at lt
          cases s <;> exact absurd lt (by decide)
      | notANumber | zero | finite => simp [other, unpacked, UnpackedFloat.lt, UnpackedFloat.compare] at lt
  | finite m e => exact ⟨m, e, rfl⟩

end Binary

namespace Number

/-! ### Zero fractions -/

/-- What ends in `.0` behind a character, with no point after it, ends there. -/
theorem eq_of_zeroFraction {front rest : List Char} {c : Char} (unpointed : '.' ∉ rest) (nonempty : rest ≠ [])
    (zero : ['.', '0'] <:+ front ++ c :: rest) : c = '.' ∧ rest = ['0'] := by
  obtain ⟨before, same⟩ := zero
  rcases List.append_eq_append_iff.mp same with ⟨more, -, same⟩ | ⟨more, -, same⟩
  · cases more with
    | nil =>
        cases same
        exact ⟨rfl, rfl⟩
    | cons d more =>
        cases more with
        | nil =>
            cases same
            exact absurd rfl nonempty
        | cons d more => simp at same
  · cases more with
    | nil =>
        cases same
        exact ⟨rfl, rfl⟩
    | cons d more =>
        cases same
        exact absurd (by simp) unpointed

/-- A fraction that is only a zero is dropped, with its point. Together with the next lemma this is all that is
needed about it. -/
theorem dropZeroFraction_append (text : List Char) : dropZeroFraction (text ++ ['.', '0']) = text := by
  simp [dropZeroFraction]

theorem dropZeroFraction_eq {text : List Char} (other : ¬ ['.', '0'] <:+ text) : dropZeroFraction text = text := by
  rw [List.suffix_iff_eq_drop] at other
  exact if_neg (Ne.symm other)

/-- Without a fraction that is only a zero, digits denote the same number. What stands in front of the digits is
kept, as long as no point is in it. -/
theorem exists_dropZeroFraction {front text : List Char} {q : ℚ} (unpointed : '.' ∉ front)
    (digits : Digits text q) : ∃ short, dropZeroFraction (front ++ text) = front ++ short ∧ Digits short q := by
  have point : isDigit '.' = false := by decide
  cases digits with
  | whole nonempty all =>
      refine ⟨text, dropZeroFraction_eq fun zero => ?_, .whole nonempty all⟩
      have listed : '.' ∈ front ++ text := zero.subset (by simp)
      rcases List.mem_append.mp listed with before | inside
      · exact unpointed before
      · simp [all _ inside] at point
  | @pointed digits places nonempty nonempty' all all' =>
      by_cases zero : places = ['0']
      · have value : (Nat.ofDigitChars 10 (digits ++ places) 0 : ℚ) / 10 ^ places.length =
            Nat.ofDigitChars 10 digits 0 := by
          rw [zero, Nat.ofDigitChars_append, Decimal.ofDigitChars_zero]
          push_cast
          rw [List.length_singleton, pow_one]
          field_simp
        rw [value, zero, ← List.append_assoc]
        exact ⟨digits, dropZeroFraction_append _, .whole nonempty all⟩
      · refine ⟨_, dropZeroFraction_eq fun zero' => ?_, .pointed nonempty nonempty' all all'⟩
        rw [← List.append_assoc] at zero'
        have inside : '.' ∉ places := fun listed => by simp [all' _ listed] at point
        exact zero (eq_of_zeroFraction inside nonempty' zero').2

/-! ### What the texts denote -/

/-- The sign stands in front of the text and does not depend on it. -/
theorem signed_eq (x : Float) (text : List Char) : signed x text = signed x [] ++ text := by
  unfold signed
  split <;> rfl

theorem point_not_mem_signed (x : Float) : '.' ∉ signed x [] := by
  unfold signed
  split <;> decide

theorem point_not_mem_plainExponent (k : Int) : '.' ∉ plainExponent k := by
  have digits : '.' ∉ Nat.toDigits 10 k.natAbs := by
    intro listed
    have digit := isDigit_toDigits _ _ listed
    revert digit
    decide
  unfold plainExponent
  split
  · simpa using digits
  · exact digits

theorem plainExponent_ne_nil (k : Int) : plainExponent k ≠ [] := by
  unfold plainExponent
  split
  · simp
  · exact Nat.toDigits_ne_nil

section Finite

variable {x : Float} {m : Nat} {e : Int} (parts : Binary.ofFloat x = .finite m e)

include parts

/-- The outline of a number denotes its shortest decimal, with its sign in front. -/
theorem denoted?_outline :
    denoted? (outline x).toList = some (Binary.isNegative x, (Decimal.shortest (abs x) m e).value) := by
  rw [toList_outline parts]
  exact denoted?_signed x (Decimal.magnitude?_outline _)

/-- The format of a number denotes the same decimal, with the same sign. It lays out the digits of the outline
anew, and the layouts agree in what they denote. -/
theorem denoted?_format :
    denoted? (format x).toList = some (Binary.isNegative x, (Decimal.shortest (abs x) m e).value) := by
  rw [toList_format parts]
  apply denoted?_signed
  split
  · exact (Decimal.digits_positional _).magnitude?
  · exact Decimal.magnitude?_scientific _

/-- A display without an exponent is a sign and digits that denote the shortest decimal. A fraction that is only
a zero is not among these digits. -/
theorem exists_display (positional : isPositional x = true) : ∃ text,
    (display x).toList = signed x text ∧ Digits text (Decimal.shortest (abs x) m e).value := by
  obtain ⟨short, dropped, digits⟩ := exists_dropZeroFraction (point_not_mem_signed x)
    (Decimal.digits_positional (Decimal.shortest (abs x) m e))
  refine ⟨short, ?_, digits⟩
  rw [display, String.toList_ofList, toList_format parts, if_pos positional, signed_eq, dropped, ← signed_eq]

/-- A number that is displayed with an exponent is displayed as its format: the exponent keeps the text from
ending in a fraction that is only a zero. -/
theorem display_eq_format (scientific : isPositional x = false) : display x = format x := by
  have other : ¬ ['.', '0'] <:+ (format x).toList := by
    rw [toList_format parts, if_neg (by simp [scientific]), signed_eq, scientificLayout, ← List.append_assoc]
    intro zero
    have exponent := (eq_of_zeroFraction (point_not_mem_plainExponent _) (plainExponent_ne_nil _) zero).1
    simp at exponent
  rw [display, dropZeroFraction_eq other, String.ofList_toList]

/-- The display of a number denotes the same decimal, with the same sign. Dropping a fraction that is only a
zero changes nothing. -/
theorem denoted?_display :
    denoted? (display x).toList = some (Binary.isNegative x, (Decimal.shortest (abs x) m e).value) := by
  cases positional : isPositional x with
  | true =>
      obtain ⟨text, shown, digits⟩ := exists_display parts positional
      rw [shown]
      exact denoted?_signed x digits.magnitude?
  | false => rw [display_eq_format parts positional, denoted?_format parts]

end Finite

/-- A text that denotes two numbers with their signs is written for one. Equal decimals are read back as equal
magnitudes, by `toFloat_shortest`. -/
theorem eq_of_denoted? {x y : Float} {m n : Nat} {e k : Int} (parts : Binary.ofFloat x = .finite m e)
    (parts' : Binary.ofFloat y = .finite n k)
    (same : (Binary.isNegative x, (Decimal.shortest (abs x) m e).value) =
      (Binary.isNegative y, (Decimal.shortest (abs y) n k).value)) : x = y := by
  obtain ⟨signs, values⟩ := Prod.mk.injEq .. ▸ same
  apply Binary.eq_of_magnitude (ne_nan parts) (ne_nan parts') signs
  calc abs x = (Decimal.shortest (abs x) m e).toFloat := (Decimal.toFloat_shortest parts).symm
    _ = (Decimal.shortest (abs y) n k).toFloat := Decimal.toFloat_congr values
    _ = abs y := Decimal.toFloat_shortest parts'

/-- No two finite numbers have one outline, since an outline denotes the number's sign and its shortest decimal,
and these are read back as the number. -/
theorem outline_injective {x y : Float} (finite : x.isFinite = true) (finite' : y.isFinite = true)
    (same : outline x = outline y) : x = y := by
  obtain ⟨m, e, parts⟩ := Binary.isFinite_iff.mp finite
  obtain ⟨n, k, parts'⟩ := Binary.isFinite_iff.mp finite'
  apply eq_of_denoted? parts parts'
  apply Option.some.inj
  rw [← denoted?_outline parts, ← denoted?_outline parts', same]

theorem display_infinite {x : Float} (parts : Binary.ofFloat x = .infinite) :
    display x = if Binary.isNegative x then "-Infinity" else "Infinity" := by
  unfold display format
  rw [parts]
  dsimp only
  split <;> decide +kernel

/-- What is displayed for an infinite number is no numeral, so it differs from what is displayed for any
finite one. -/
theorem denoted?_infinite {x : Float} (parts : Binary.ofFloat x = .infinite) :
    denoted? (display x).toList = none := by
  rw [display_infinite parts]
  split <;> decide +kernel

/-- No two numbers are displayed alike, infinite ones included: the text of a finite number denotes it, and that
of an infinite one denotes nothing and shows its sign. -/
theorem display_injective {x y : Float} (number : Binary.ofFloat x ≠ .nan) (number' : Binary.ofFloat y ≠ .nan)
    (same : display x = display y) : x = y := by
  have denoted : denoted? (display x).toList = denoted? (display y).toList := by rw [same]
  cases parts : Binary.ofFloat x with
  | nan => exact absurd parts number
  | infinite =>
      -- The text denotes no number, so it is not the text of a finite one.
      rw [denoted?_infinite parts] at denoted
      cases parts' : Binary.ofFloat y with
      | nan => exact absurd parts' number'
      | infinite =>
          apply Binary.eq_of_parts
          · rw [display_infinite parts, display_infinite parts'] at same
            cases negative : Binary.isNegative x <;> cases negative' : Binary.isNegative y <;>
              simp [negative, negative'] at same ⊢
          · rw [parts, parts']
      | finite n k =>
          rw [denoted?_display parts'] at denoted
          cases denoted
  | finite m e =>
      rw [denoted?_display parts] at denoted
      cases parts' : Binary.ofFloat y with
      | nan => exact absurd parts' number'
      | infinite =>
          rw [denoted?_infinite parts'] at denoted
          cases denoted
      | finite n k =>
          rw [denoted?_display parts'] at denoted
          exact eq_of_denoted? parts parts' (Option.some.inj denoted)

end Number

/-! ### Scanning -/

/-- Digits, with or without a point, are a lexeme of the number rule. This joins what texts of numbers denote to
what the scanner takes for a number. -/
theorem Numeral.Digits.lexeme {text : List Char} {q : ℚ} (digits : Digits text q) :
    Piece.Lexeme .number text := by
  have listed {text : List Char} (all : ∀ c ∈ text, isDigit c = true) : ∀ c ∈ text, c ∈ Piece.decimals :=
    fun c member => Piece.isDigit_iff.mp (all c member)
  cases digits with
  | whole nonempty all => exact .whole nonempty (listed all)
  | pointed nonempty nonempty' all all' => exact .fraction nonempty nonempty' (listed all) (listed all')

namespace Number

/-- Magnitudes below a thousandth, zero aside, and from ten million up are displayed with an exponent. -/
theorem isPositional_eq_false {x : Float} (number : Binary.ofFloat x ≠ .nan) (nonzero : (x == 0.0) = false)
    (outside : ¬ (0.001 ≤ x.abs ∧ x.abs < 10000000.0)) : isPositional x = false := by
  rw [isPositional, nonzero, Binary.magnitude_eq number, ← Binary.abs_eq]
  simpa using outside

theorem isNegative_of_le {x : Float} (le : 0.001 ≤ x) : Binary.isNegative x = false := by
  obtain ⟨thousandth, canonical⟩ := thousandth_eq
  exact Binary.isNegative_eq_false canonical (thousandth ▸ le)

/-- A number that is displayed as digits is scanned as one number token, without a fault, and the token holds
the very number again. -/
theorem scans_display {x : Float} {m : Nat} {e : Int} (parts : Binary.ofFloat x = .finite m e)
    (positive : Binary.isNegative x = false) (positional : isPositional x = true) :
    (Scan.ofSource (display x)).faults = [] ∧
    ∃ t, (Scan.ofSource (display x)).tokens = [t, Scan.endToken (display x).toList] ∧
      t.content = (.number, display x, .number x) := by
  obtain ⟨text, shown, digits⟩ := exists_display parts positional
  have itself (other : List Char) : signed x other = other := by simp [signed, positive]
  have read : (Decimal.ofDigits text).toFloat = x := by
    rw [Decimal.toFloat_congr (Decimal.value_ofDigits digits), Decimal.toFloat_shortest parts, abs, positive]
    rfl
  obtain ⟨silent, t, tokens, content⟩ := Scan.scans_lexeme digits.lexeme
  rw [itself] at shown
  rw [PlacedPiece.literal, read, ← shown, String.ofList_toList] at content
  rw [Scan.ofSource, shown]
  exact ⟨silent, t, tokens, content⟩

/-- **Texts of numbers lose nothing.** The three texts of a finite number denote one decimal number, the one
that is read back as the number's magnitude, each with the sign of the number in front, the sign of zero
included. A display with an exponent is in scientific notation. Hence no two numbers are displayed alike, and
what is displayed for a number that needs no sign and no exponent is scanned as that number. -/
theorem texts_lose_nothing :
    (∀ x : Float, x.isFinite = true → ∃ q : ℚ,
      denoted? (outline x).toList = some (Binary.isNegative x, q) ∧
      denoted? (format x).toList = some (Binary.isNegative x, q) ∧
      denoted? (display x).toList = some (Binary.isNegative x, q) ∧
      (∀ d : Decimal, d.value = q → d.toFloat = abs x) ∧
      ((x == 0.0) = false → ¬ (0.001 ≤ x.abs ∧ x.abs < 10000000.0) →
        display x = format x ∧ ∃ text, Scientific text q ∧
          (format x).toList = if Binary.isNegative x then '-' :: text else text)) ∧
    (∀ x y : Float, x.isNaN = false → y.isNaN = false → display x = display y → x = y) ∧
    (∀ x : Float, x = 0.0 ∨ (0.001 ≤ x ∧ x < 10000000.0) →
      (Scan.ofSource (display x)).faults = [] ∧
      ∃ t, (Scan.ofSource (display x)).tokens = [t, Scan.endToken (display x).toList] ∧
        t.content = (.number, display x, .number x)) := by
  refine ⟨fun x finite => ?_, fun x y number number' same => ?_, fun x range => ?_⟩
  · obtain ⟨m, e, parts⟩ := Binary.isFinite_iff.mp finite
    refine ⟨(Decimal.shortest (abs x) m e).value, denoted?_outline parts, denoted?_format parts,
      denoted?_display parts, fun d same => ?_, fun nonzero outside => ?_⟩
    · rw [Decimal.toFloat_congr same, Decimal.toFloat_shortest parts]
    · have scientific := isPositional_eq_false (ne_nan parts) nonzero outside
      refine ⟨display_eq_format parts scientific, scientificLayout (Decimal.shortest (abs x) m e), ?_, ?_⟩
      · exact Decimal.scientificLayout_scientific (Decimal.shortest_normal _ _ _)
          (coefficient_shortest_ne_zero parts nonzero)
      · rw [toList_format parts, scientific]
        rfl
  · have number (z : Float) (no : z.isNaN = false) : Binary.ofFloat z ≠ .nan := by
      intro nan
      rw [Binary.isNaN_iff.mpr nan] at no
      cases no
    exact display_injective (number x ‹_›) (number y ‹_›) same
  · rcases range with rfl | ⟨lower, upper⟩
    · have parts : Binary.ofFloat 0.0 = .finite 0 (-1074) := by decide +kernel
      exact scans_display parts (by decide +kernel) (by decide +kernel)
    · have positive := isNegative_of_le lower
      obtain ⟨m, e, parts⟩ := Binary.finite_of_lt positive upper
      apply scans_display parts positive
      simp [isPositional, abs, positive, lower, upper]

/-- The least positive number is shown in scientific notation, and a tenth is scanned as it was shown. -/
theorem texts_lose_nothing_least_tenth :
    (∃ q text, denoted? (display 5e-324).toList = some (false, q) ∧ Scientific text q ∧
      (format 5e-324).toList = text) ∧
    display 5e-324 ≠ display 1e-323 ∧
    ∃ t, (Scan.ofSource (display 0.1)).tokens = [t, Scan.endToken (display 0.1).toList] ∧
      t.content = (.number, display 0.1, .number 0.1) := by
  have positive : Binary.isNegative 5e-324 = false := by decide +kernel
  obtain ⟨faithful, apart, scanned⟩ := texts_lose_nothing
  refine ⟨?_, fun same => ?_, (scanned 0.1 (.inr ⟨by decide +kernel, by decide +kernel⟩)).2⟩
  · obtain ⟨q, -, -, denoted, -, scientific⟩ := faithful 5e-324 (by decide +kernel)
    obtain ⟨-, text, form, written⟩ := scientific (by decide +kernel) (by decide +kernel)
    rw [positive] at denoted written
    exact ⟨q, text, denoted, form, written⟩
  · have equal := apart 5e-324 1e-323 (by decide +kernel) (by decide +kernel) same
    exact absurd (congrArg Binary.ofFloat equal) (by decide +kernel)

end Number

end Treewalk

import Treewalk.Proofs.Text.Lines
import Treewalk.Report.Excerpt

/-!
Excerpts. `Occurs` says that a text stands in a line at a position, overlapping others or not. `MarkedAt` is the
rule for the mark: the column if the lexeme stands there, and the first position where it stands otherwise. An
excerpt exists exactly when the lexeme stands anywhere (`markAt?_eq_none_iff`), its mark follows the rule
(`markedAt_of_markAt?`), and its text is the line cut around the mark (`marked`).
-/

namespace Treewalk.Excerpt

open Text

/-- A text stands in a line behind the first `p` characters. -/
def Occurs (lexeme line : List Char) (p : Nat) : Prop := lexeme <+: line.drop p

instance (lexeme line : List Char) (p : Nat) : Decidable (Occurs lexeme line p) :=
  decidable_of_iff (lexeme.isPrefixOf (line.drop p) = true) List.isPrefixOf_iff_prefix

/-- Where the lexeme of a line is marked. -/
inductive MarkedAt (line lexeme : List Char) : Option Int → Nat → Prop where
  | column {p : Nat} : Occurs lexeme line p → MarkedAt line lexeme (some p) p
  | first {column : Option Int} {p : Nat} : (∀ c : Nat, column = some (c : Int) → ¬ Occurs lexeme line c) →
      Occurs lexeme line p → (∀ q, Occurs lexeme line q → p ≤ q) → MarkedAt line lexeme column p

theorem MarkedAt.occurs {line lexeme : List Char} {column : Option Int} {p : Nat}
    (marked : MarkedAt line lexeme column p) : Occurs lexeme line p := by
  cases marked with
  | column stands => exact stands
  | first _ stands _ => exact stands

/-- The excerpt of the line that consists of the given parts, with the middle one marked. -/
def marked (style : Style) (before lexeme after : List Char) : String :=
  margin ++ String.ofList before ++ style.alarm (String.ofList lexeme) ++ String.ofList after ++ "\n" ++
    margin ++ String.ofList (List.replicate before.length ' ') ++
    style.alarm (String.ofList ('^' :: List.replicate (lexeme.length - 1) '~'))

/-- A line and, below it, an underline that begins at a column. -/
def underlined (line : List Char) (column length : Nat) : String :=
  margin ++ String.ofList line ++ "\n" ++
    margin ++ String.ofList (List.replicate column ' ' ++ '^' :: List.replicate (length - 1) '~')

variable {style : Style} {line lexeme needle hay : List Char} {column : Option Int} {text : String}

/-- In the plain style the line is printed as it is, and the mark on the line below it. -/
theorem marked_plain (before lexeme after : List Char) :
    marked .plain before lexeme after =
      underlined (before ++ lexeme ++ after) before.length lexeme.length := by
  simp [marked, underlined, Style.plain, String.ofList_append, String.append_assoc]

/-! ### Occurrences -/

/-- A lexeme occurs where it stands between what comes before it and what comes after it. -/
theorem occurs_append (before lexeme after : List Char) : Occurs lexeme (before ++ lexeme ++ after) before.length := by
  rw [Occurs, List.append_assoc, List.drop_left]
  exact List.prefix_append lexeme after

/-- An occurrence, as the text that is cut out at its position. -/
theorem occurs_iff_take {p : Nat} : Occurs lexeme line p ↔ (line.drop p).take lexeme.length = lexeme := by
  rw [Occurs, List.prefix_iff_eq_take, eq_comm]

/-- The line around an occurrence: what comes before it, as long as its position says, the lexeme, and what
comes after. -/
theorem Occurs.parts {p : Nat} (nonempty : lexeme ≠ []) (occurs : Occurs lexeme line p) :
    ∃ before after, line = before ++ lexeme ++ after ∧ before.length = p :=
  exists_parts nonempty (occurs_iff_take.mp occurs)

/-- What is found is an occurrence, with as many characters before it as the search counted. By induction over
the line. -/
theorem indexOf?_some {k : Nat} (found : indexOf? needle hay = some k) :
    ∃ before after, hay = before ++ needle ++ after ∧ before.length = k := by
  induction hay generalizing k with
  | nil =>
      by_cases empty : needle = []
      · exact ⟨[], [], by simp [empty], by simpa [indexOf?, empty] using found⟩
      · simp [indexOf?, empty] at found
  | cons c hay ih =>
      by_cases here : needle.isPrefixOf (c :: hay) = true
      · obtain ⟨after, same⟩ := List.isPrefixOf_iff_prefix.mp here
        exact ⟨[], after, by simp [same], by simpa [indexOf?, here] using found⟩
      · simp only [indexOf?, here] at found
        obtain ⟨j, later, rfl⟩ := Option.map_eq_some_iff.mp found
        obtain ⟨before, after, rfl, length⟩ := ih later
        exact ⟨c :: before, after, rfl, by simp [length]⟩

/-- An occurrence is found, though perhaps another one than the one that is known. -/
theorem indexOf?_append (before needle after : List Char) :
    ∃ k, indexOf? needle (before ++ needle ++ after) = some k := by
  induction before with
  | nil =>
      cases needle with
      | nil => cases after <;> exact ⟨0, rfl⟩
      | cons c needle => exact ⟨0, by simp [indexOf?]⟩
  | cons c before ih =>
      obtain ⟨k, found⟩ := ih
      simp only [List.cons_append, indexOf?]
      split
      · exact ⟨0, rfl⟩
      · exact ⟨k + 1, by rw [found, Option.map_some]⟩

/-- Searching fails exactly when the lexeme stands nowhere in the line. -/
theorem indexOf?_eq_none_iff : indexOf? needle hay = none ↔ ¬ needle <:+: hay := by
  constructor
  · rintro missing ⟨before, after, rfl⟩
    obtain ⟨k, found⟩ := indexOf?_append before needle after
    rw [missing] at found
    cases found
  · intro absent
    cases found : indexOf? needle hay with
    | none => rfl
    | some k =>
        obtain ⟨before, after, same, -⟩ := indexOf?_some found
        exact absurd ⟨before, after, same.symm⟩ absent

theorem occurs_of_indexOf? {k : Nat} (found : indexOf? needle hay = some k) : Occurs needle hay k := by
  obtain ⟨before, after, rfl, rfl⟩ := indexOf?_some found
  exact occurs_append before needle after

/-- What is found is the first occurrence: no other one lies to the left of it. -/
theorem indexOf?_le {k q : Nat} (found : indexOf? needle hay = some k) (occurs : Occurs needle hay q) : k ≤ q := by
  induction hay generalizing k q with
  | nil =>
      by_cases empty : needle = []
      · simp only [indexOf?, empty, List.isEmpty_nil, if_true, Option.some.injEq] at found
        omega
      · simp [indexOf?, empty] at found
  | cons c hay ih =>
      by_cases here : needle.isPrefixOf (c :: hay) = true
      · simp only [indexOf?, here, if_true, Option.some.injEq] at found
        omega
      · simp only [indexOf?, here] at found
        obtain ⟨j, later, rfl⟩ := Option.map_eq_some_iff.mp found
        cases q with
        | zero => exact absurd (List.isPrefixOf_iff_prefix.mpr occurs) here
        | succ q => exact Nat.succ_le_succ (ih later occurs)

/-! ### The mark -/

/-- A position counted from the start is cut off at the end of the line. -/
theorem position_nat (length n : Nat) : position length n = min n length := by
  have counted : ¬ (n : Int) < 0 := by omega
  rw [position, if_neg counted, Int.toNat_natCast]

/-- A slice that begins at a column counted from the start is a part of the line, cut off at its end. -/
theorem slice_nat (line : List Char) (c n : Nat) : slice line c (c + n : Int) = (line.drop c).take n := by
  unfold slice
  rw [← Int.natCast_add, position_nat, position_nat]
  by_cases short : line.length ≤ c
  · simp [short]
  · rw [Nat.min_eq_left (by omega), List.take_eq_take_iff, List.length_drop]
    omega

/-- There is nothing to mark exactly when the lexeme is empty or stands nowhere in the line. -/
theorem markAt?_eq_none_iff : markAt? line lexeme column = none ↔ lexeme = [] ∨ ¬ lexeme <:+: line := by
  rw [← indexOf?_eq_none_iff]
  unfold markAt?
  by_cases empty : lexeme = []
  · simp [empty]
  · cases indexOf? lexeme line with
    | none => simp
    | some first =>
        cases column with
        | none => simp [empty]
        | some c => by_cases stands : slice line c (c + lexeme.length) = lexeme <;> simp [empty, stands]

/-- What is marked is at the column if the lexeme stands there, and at its first position otherwise. -/
theorem markedAt_of_markAt? {start : Int} (natural : ∀ c ∈ column, 0 ≤ c)
    (found : markAt? line lexeme column = some start) : ∃ p : Nat, start = p ∧ MarkedAt line lexeme column p := by
  unfold markAt? at found
  split at found
  · cases found
  · split at found
    · cases found
    next first index =>
      have least := fun q => indexOf?_le (q := q) index
      cases column with
      | none =>
          cases found
          exact ⟨first, rfl, .first (by simp) (occurs_of_indexOf? index) least⟩
      | some c =>
          obtain ⟨c, rfl⟩ := Int.eq_ofNat_of_zero_le (natural c rfl)
          simp only [slice_nat, ← occurs_iff_take] at found
          split at found
          next stands =>
            cases found
            exact ⟨c, rfl, .column stands⟩
          next away =>
            cases found
            refine ⟨first, rfl, .first ?_ (occurs_of_indexOf? index) least⟩
            rintro c' same
            cases same
            exact away

/-- A lexeme that stands at its column is marked there, even when it stands further to the left too. -/
theorem markAt?_append (before after : List Char) (nonempty : lexeme ≠ []) :
    markAt? (before ++ lexeme ++ after) lexeme (some (before.length : Int)) = some (before.length : Int) := by
  obtain ⟨k, found⟩ := indexOf?_append before lexeme after
  have stands : slice (before ++ lexeme ++ after) before.length (before.length + lexeme.length : Int) =
      lexeme := by
    rw [slice_nat]
    simp
  have filled : lexeme.isEmpty = false := by simpa using nonempty
  simp only [markAt?, filled, found, stands, if_true, Bool.false_eq_true, if_false]

/-- Whatever is marked is an occurrence, unless the column counts from the end. A negative column would be
looked up from there. -/
theorem markAt?_some {start : Int} (natural : ∀ c ∈ column, 0 ≤ c)
    (found : markAt? line lexeme column = some start) :
    ∃ before after, line = before ++ lexeme ++ after ∧ start = before.length := by
  have nonempty : lexeme ≠ [] := by
    intro empty
    rw [markAt?_eq_none_iff.mpr (.inl empty)] at found
    cases found
  obtain ⟨p, rfl, marked⟩ := markedAt_of_markAt? natural found
  obtain ⟨before, after, same, rfl⟩ := marked.occurs.parts nonempty
  exact ⟨before, after, same, rfl⟩

/-! ### The text -/

/-- An excerpt that marks an occurrence shows the line around it, in any style. -/
theorem text?_of_markAt? {before after : List Char}
    (found : markAt? (before ++ lexeme ++ after) lexeme column = some (before.length : Int)) :
    text? style (before ++ lexeme ++ after) lexeme column = some (marked style before lexeme after) := by
  have first : position (before ++ lexeme ++ after).length before.length = before.length := by
    rw [position_nat]
    simp
  have last : position (before ++ lexeme ++ after).length (before.length + lexeme.length : Int) =
      (before ++ lexeme).length := by
    rw [← Int.natCast_add, position_nat]
    simp
  have middle : slice (before ++ lexeme ++ after) before.length (before.length + lexeme.length : Int) =
      lexeme := by
    rw [slice_nat]
    simp
  rw [text?, found, Option.map_some]
  simp only [first, last, middle, List.drop_left, Int.toNat_natCast]
  rw [List.append_assoc, List.take_left]
  rfl

/-- An excerpt of a line around a lexeme that stands at its column is the line, marked at that column. -/
theorem text?_append (style : Style) (before after : List Char) (nonempty : lexeme ≠ []) :
    text? style (before ++ lexeme ++ after) lexeme (some (before.length : Int)) =
      some (marked style before lexeme after) :=
  text?_of_markAt? (markAt?_append before after nonempty)

/-- Every excerpt is the line around some occurrence of the lexeme. -/
theorem text?_some (natural : ∀ c ∈ column, 0 ≤ c) (shown : text? style line lexeme column = some text) :
    ∃ before after, line = before ++ lexeme ++ after ∧ text = marked style before lexeme after := by
  obtain ⟨start, found, -⟩ := Option.map_eq_some_iff.mp shown
  obtain ⟨before, after, rfl, rfl⟩ := markAt?_some natural found
  rw [text?_of_markAt? found] at shown
  exact ⟨before, after, rfl, (Option.some.inj shown).symm⟩

/-- There is no excerpt exactly when there is nothing to mark, whatever the style. -/
theorem text?_eq_none_iff (style : Style) :
    text? style line lexeme column = none ↔ lexeme = [] ∨ ¬ lexeme <:+: line := by
  rw [text?, Option.map_eq_none_iff, markAt?_eq_none_iff]

/-- **The mark stands under the lexeme.** An excerpt exists in every style exactly when the lexeme is not empty
and stands in the line. Its mark is at the column if the lexeme stands there, and at the first position where it
stands otherwise. In the plain style it is the unchanged line with one `^` and as many `~` as the lexeme is
longer than one character below the mark. In a style that wraps what it alarms about, whatever it wraps it in,
there is one wrapping around the lexeme and one around the underline, and no other difference. -/
theorem mark_stands_under_lexeme (line lexeme : List Char) {column : Option Int}
    (natural : ∀ c ∈ column, 0 ≤ c) :
    (∀ style, text? style line lexeme column = none ↔ lexeme = [] ∨ ¬ lexeme <:+: line) ∧
    (lexeme ≠ [] → lexeme <:+: line → ∃ p, MarkedAt line lexeme column p ∧
      let below := String.ofList ('^' :: List.replicate (lexeme.length - 1) '~')
      let spaces := String.ofList (List.replicate p ' ')
      text? .plain line lexeme column =
        some ("    " ++ String.ofList line ++ "\n" ++ "    " ++ spaces ++ below) ∧
      ∀ style opening closing, Wraps style.alarm opening closing →
        text? style line lexeme column =
          some ("    " ++ String.ofList (line.take p) ++
            (opening ++ String.ofList lexeme ++ closing) ++
            String.ofList (line.drop (p + lexeme.length)) ++ "\n" ++ "    " ++ spaces ++
            (opening ++ below ++ closing))) := by
  refine ⟨fun style => text?_eq_none_iff style, fun nonempty present => ?_⟩
  obtain ⟨start, found⟩ : ∃ start, markAt? line lexeme column = some start := by
    rw [← Option.ne_none_iff_exists', Ne, markAt?_eq_none_iff]
    simp [nonempty, present]
  obtain ⟨p, rfl, marked⟩ := markedAt_of_markAt? natural found
  obtain ⟨before, after, rfl, rfl⟩ := marked.occurs.parts nonempty
  refine ⟨before.length, marked, ?_, ?_⟩
  · rw [text?_of_markAt? found, marked_plain]
    simp [underlined, margin, String.ofList_append, String.append_assoc]
  · intro style opening closing wraps
    have front : (before ++ lexeme ++ after).take before.length = before := by simp
    have back : (before ++ lexeme ++ after).drop (before.length + lexeme.length) = after := by
      rw [← List.length_append, List.drop_left]
    rw [text?_of_markAt? found, front, back, Excerpt.marked, wraps, wraps]
    rfl

/-- The lexeme overlaps itself, and the column picks the second of its two positions, with the escape
sequences of a terminal as without. -/
theorem mark_stands_under_lexeme_overlapping :
    let line := "aaab".toList
    let lexeme := "aa".toList
    (∀ c ∈ some (1 : Int), 0 ≤ c) ∧ lexeme ≠ [] ∧ lexeme <:+: line ∧
    MarkedAt line lexeme (some 1) 1 ∧
    text? .plain line lexeme (some 1) = some "    aaab\n     ^~" ∧
    text? .terminal line lexeme (some 1) =
      some "    a\x1b[1m\x1b[31maa\x1b[0mb\n     \x1b[1m\x1b[31m^~\x1b[0m" := by
  intro line lexeme
  have natural : ∀ c ∈ some (1 : Int), 0 ≤ c := by simp
  have nonempty : lexeme ≠ [] := by decide
  have present : lexeme <:+: line := by decide
  obtain ⟨p, marked, plain, wrapped⟩ := (mark_stands_under_lexeme line lexeme natural).2 nonempty present
  cases marked with
  | column stands =>
      exact ⟨natural, nonempty, present, .column stands, plain, wrapped _ _ _ Style.terminal_wraps.2⟩
  | first away _ _ => exact absurd (by decide) (away 1 rfl)

end Treewalk.Excerpt

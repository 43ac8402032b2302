import Treewalk.Proofs.Report.Excerpt
import Treewalk.Proofs.Run.Blame
import Treewalk.Report

/-!
Excerpts in reports. A report takes the line of a diagnostic from the shown lines, so it quotes the line that
the scanner counted where shown lines are lines.
-/

namespace Treewalk

open Text

/-- A token with a column stands on its line, after as many characters as its column says. -/
theorem Token.StandsAt.isLine {t : Token} {source : List Char} {offset : Nat} {c : Int}
    (stands : t.StandsAt source offset) (placed : t.column = some c) : ∃ above before after,
      IsLine source t.line above (before ++ t.lexeme.toList ++ after) ∧ c = before.length ∧
      offset = above.length + before.length := by
  have nonempty : t.lexeme.toList ≠ [] := by simpa using stands.nonempty
  have found : (source.drop offset).take t.lexeme.toList.length = t.lexeme.toList := by
    rw [String.length_toList, stands.lexeme]
  obtain ⟨before, after, same, rfl⟩ := exists_parts nonempty found
  have unbroken : '\n' ∉ t.lexeme.toList := by
    intro broken
    rw [stands.column, if_pos broken] at placed
    cases placed
  have upTo : source.take (before.length + t.lexeme.length) = before ++ t.lexeme.toList := by
    rw [same, ← String.length_toList, ← List.length_append, List.take_left]
  have line : t.line = (1 + lineFeeds before : Nat) := by
    rw [stands.line, upTo, lineFeeds_append, lineFeeds_eq_zero.mpr unbroken, Nat.add_zero]
  have column : c = (lastLine before).length := by
    rw [stands.column, if_neg unbroken, same, List.append_assoc, List.take_left] at placed
    exact (Option.some.inj placed).symm
  obtain ⟨above, isLine, length⟩ := isLine_of_append before (t.lexeme.toList ++ after)
  rw [List.takeWhile_append_of_pos (all_ne_feed unbroken), ← List.append_assoc, ← List.append_assoc, ← same,
    ← line] at isLine
  exact ⟨above, lastLine before, _, isLine, column, length⟩

namespace Report

variable {style : Style} {source above before after : List Char} {d : Diagnostic} {text : String}

/-- The line that a diagnostic is about is quoted when it is shown under its number. What is quoted goes up to
the first break on the line, which must not come before the end of the lexeme. -/
theorem excerpt?_of_isLine (style : Style)
    (isLine : IsLine source d.line above (before ++ d.lexeme.toList ++ after))
    (ends : OnlyLineEnds above) (unbroken : ∀ c ∈ before ++ d.lexeme.toList, isLineBreak c = false)
    (nonempty : d.lexeme ≠ "") (placed : d.column = some (before.length : Int)) :
    excerpt? style (shownLines source) d =
      some (Excerpt.marked style before d.lexeme.toList (upToBreak after)) := by
  have filled : d.lexeme.toList ≠ [] := by simpa using nonempty
  have positive : 0 < d.line := by
    have numbered := isLine.number
    omega
  have part : upToBreak (before ++ d.lexeme.toList ++ after) =
      before ++ d.lexeme.toList ++ upToBreak after := upToBreak_eq_append unbroken after
  have some : upToBreak (before ++ d.lexeme.toList ++ after) ≠ [] := by
    rw [part]
    simp [filled]
  have shown := shownLines_of_isLine isLine ends some
  rw [excerpt?, if_pos positive, shown, part, placed]
  exact Excerpt.text?_append style before (upToBreak after) filled

/-- An excerpt shows the line of a diagnostic in a source, and marks the lexeme at an offset of the source. -/
def Quotes (style : Style) (source : List Char) (d : Diagnostic) (offset : Nat) (text : String) : Prop :=
  ∃ above before after, IsLine source d.line above (before ++ d.lexeme.toList ++ after) ∧
    offset = above.length + before.length ∧ text = Excerpt.marked style before d.lexeme.toList after

/-- Without other breaks, whatever is quoted is the line of that number. A line feed is then the only thing that
ends a shown line, so the two ways of counting lines agree. -/
theorem quotes_of_excerpt? (feeds : OnlyFeeds source) (natural : ∀ c ∈ d.column, 0 ≤ c)
    (quoted : excerpt? style (shownLines source) d = some text) :
    ∃ offset, Quotes style source d offset text := by
  unfold excerpt? at quoted
  split at quoted
  next positive =>
    split at quoted
    · cases quoted
    next line shown =>
      obtain ⟨before, after, rfl, same⟩ := Excerpt.text?_some natural quoted
      obtain ⟨above, isLine⟩ := isLine_of_shownLines feeds shown
      have number : ((1 + (d.line.toNat - 1) : Nat) : Int) = d.line := by omega
      rw [number] at isLine
      exact ⟨_, above, before, after, isLine, rfl, same⟩
  · cases quoted

/-- A diagnostic that names a token of the source: the line that the token stands on, cut around the token,
is quoted up to the first break behind the token, unless it is shown under another number. -/
theorem excerpt?_of_token {t : Token} {offset : Nat} {c : Int} (names : d.Names t)
    (stands : t.StandsAt source offset) (placed : d.column = some c) : ∃ above before after,
      IsLine source d.line above (before ++ d.lexeme.toList ++ after) ∧ c = before.length ∧
      offset = above.length + before.length ∧
      (OnlyLineEnds above → (∀ c ∈ before ++ d.lexeme.toList, isLineBreak c = false) → ∀ style,
        excerpt? style (shownLines source) d =
          some (Excerpt.marked style before d.lexeme.toList (upToBreak after))) := by
  obtain ⟨above, before, after, isLine, rfl, same⟩ := stands.isLine (names.column ▸ placed)
  rw [← names.line, ← names.lexeme] at isLine
  refine ⟨above, before, after, isLine, rfl, same, ?_⟩
  intro ends unbroken style
  exact excerpt?_of_isLine style isLine ends unbroken (names.lexeme ▸ stands.nonempty) placed

/-- Each diagnostic is reported in its place: its message, and below it its excerpt. What is printed for the
others comes before or after it. -/
theorem lines_of_mem (style : Style) (path : Option String) (source : String) {ds : List Diagnostic}
    (listed : d ∈ ds) : ∃ earlier later, lines style path source ds =
      earlier ++ (headline style path d :: (excerpt? style (shownLines source.toList) d).toList) ++ later := by
  obtain ⟨first, rest, rfl⟩ := List.append_of_mem listed
  exact ⟨lines style path source first, lines style path source rest, by simp [lines]⟩

end Report

end Treewalk

import Treewalk.Proofs.Token.Places
import Treewalk.Text.Lines

/-!
Lines of a text. `Text.IsLine` cuts a text at line feeds, which is how positions count lines; shown lines
end at other breaks as well. A line is shown under its own number when every line above it ends with a line feed,
be it alone or behind a carriage return, and it is shown up to the first break on it (`shownLines_of_isLine`).
In a text without other breaks whatever is shown is a line (`isLine_of_shownLines`).
-/

namespace Treewalk

namespace Text

variable {text above line : List Char} {number : Int}

/-- `line` is the line of a text with the given number, counted from one, and `above` all that comes before
it. Lines end at line feeds. -/
structure IsLine (text : List Char) (number : Int) (above line : List Char) : Prop where
  number : number = (1 + lineFeeds above : Nat)
  /-- The line begins the text or comes right after a line feed. -/
  begins : lastLine above = []
  unbroken : '\n' ∉ line
  /-- The line ends the text or comes right before a line feed. -/
  ends : ∃ below, text = above ++ line ++ below ∧ ∀ c ∈ below.head?, c = '\n'

/-- A text that holds no line break but line feeds. -/
def OnlyFeeds (text : List Char) : Prop := ∀ c ∈ text, isLineBreak c = true → c = '\n'

instance (text : List Char) : Decidable (OnlyFeeds text) :=
  List.decidableBAll (fun c => isLineBreak c = true → c = '\n') text

/-- Up to the end of one of its lines, a text has no other breaks if it has none at all. -/
theorem OnlyFeeds.upTo (feeds : OnlyFeeds text) (isLine : IsLine text number above line) :
    OnlyFeeds (above ++ line) := by
  obtain ⟨below, rfl, -⟩ := isLine.ends
  intro c listed
  exact feeds c (List.mem_append_left _ listed)

/-- Where line feeds are the only breaks, no break stands on a line, so a line is shown whole. -/
theorem OnlyFeeds.unbroken (feeds : OnlyFeeds text) (isLine : IsLine text number above line) :
    ∀ c ∈ line, isLineBreak c = false := by
  intro c listed
  cases broken : isLineBreak c with
  | false => rfl
  | true =>
      obtain rfl := feeds.upTo isLine c (List.mem_append_right _ listed) broken
      exact absurd listed isLine.unbroken

theorem OnlyFeeds.tail {c : Char} (feeds : OnlyFeeds (c :: text)) : OnlyFeeds text :=
  fun d listed => feeds d (List.mem_cons_of_mem _ listed)

theorem OnlyFeeds.head {c : Char} (feeds : OnlyFeeds (c :: text)) (other : c ≠ '\n') :
    isLineBreak c = false := by
  cases broken : isLineBreak c with
  | false => rfl
  | true => exact absurd (feeds c (by simp) broken) other

/-- A text in which every break is a line feed, or a carriage return with a line feed right behind it. -/
inductive OnlyLineEnds : List Char → Prop where
  | nil : OnlyLineEnds []
  | feed {rest : List Char} : OnlyLineEnds rest → OnlyLineEnds ('\n' :: rest)
  | returnFeed {rest : List Char} : OnlyLineEnds rest → OnlyLineEnds ('\r' :: '\n' :: rest)
  | char {c : Char} {rest : List Char} : isLineBreak c = false → OnlyLineEnds rest → OnlyLineEnds (c :: rest)

/-- The part of a text before its first break. -/
def upToBreak (text : List Char) : List Char := text.takeWhile fun c => !isLineBreak c

/-- Lines that end with line feeds alone are among those that end with line feeds or with carriage returns and
line feeds. -/
theorem OnlyFeeds.onlyLineEnds (feeds : OnlyFeeds text) : OnlyLineEnds text := by
  induction text with
  | nil => exact .nil
  | cons c text ih =>
      by_cases feed : c = '\n'
      · exact feed ▸ .feed (ih feeds.tail)
      · exact .char (feeds.head feed) (ih feeds.tail)

/-- Two such texts in a row. Neither ends with half a line end, so nothing changes where they meet. -/
theorem OnlyLineEnds.append {first second : List Char} (ends : OnlyLineEnds first)
    (ends' : OnlyLineEnds second) : OnlyLineEnds (first ++ second) := by
  induction ends with
  | nil => exact ends'
  | feed _ ih => exact .feed ih
  | returnFeed _ ih => exact .returnFeed ih
  | char unbroken _ ih => exact .char unbroken ih

theorem lastLine_tail {c : Char} (begins : lastLine (c :: text) = []) : lastLine text = [] := by
  rw [lastLine, List.rtakeWhile_eq_nil_iff] at begins ⊢
  intro nonempty
  have last := begins (List.cons_ne_nil c text)
  rwa [List.getLast_cons nonempty] at last

/-- The text above a line ends its lines as the whole text does: the cut is behind a line feed, and so no
carriage return is parted from its line feed. -/
theorem OnlyLineEnds.upTo (ends : OnlyLineEnds text) {rest : List Char} (same : text = above ++ rest)
    (begins : lastLine above = []) : OnlyLineEnds above := by
  induction ends generalizing above with
  | nil =>
      obtain ⟨rfl, -⟩ := List.append_eq_nil_iff.mp same.symm
      exact .nil
  | feed _ ih =>
      cases above with
      | nil => exact .nil
      | cons c above =>
          obtain ⟨rfl, rest⟩ := List.cons.inj same
          exact .feed (ih rest (lastLine_tail begins))
  | char unbroken _ ih =>
      cases above with
      | nil => exact .nil
      | cons c above =>
          obtain ⟨rfl, rest⟩ := List.cons.inj same
          exact .char unbroken (ih rest (lastLine_tail begins))
  | returnFeed _ ih =>
      cases above with
      | nil => exact .nil
      | cons c above =>
          obtain ⟨rfl, rest⟩ := List.cons.inj same
          cases above with
          | nil => cases begins
          | cons d above =>
              obtain ⟨rfl, later⟩ := List.cons.inj rest
              exact .returnFeed (ih later (lastLine_tail (lastLine_tail begins)))

/-- On a line of such a text a break can only come last: it is the carriage return of the line's end. -/
theorem OnlyLineEnds.unbroken (ends : OnlyLineEnds text) {front rest : List Char} {next : Char}
    (same : text = above ++ (front ++ next :: rest)) (noFeed : '\n' ∉ front ++ [next]) :
    ∀ c ∈ front, isLineBreak c = false := by
  -- where the line begins there is no line feed
  have starts {front later : List Char} (noFeed : '\n' ∉ front ++ [next])
      (begins : '\n' :: later = front ++ next :: rest) : False := by
    cases front with
    | nil => exact noFeed ((List.cons.inj begins).1 ▸ List.mem_cons_self)
    | cons c front => exact noFeed ((List.cons.inj begins).1 ▸ List.mem_cons_self)
  induction ends generalizing above front with
  | nil => simp at same
  | feed _ ih =>
      cases above with
      | nil => exact (starts noFeed same).elim
      | cons _ above => exact ih (List.cons.inj same).2 noFeed
  | char unbroken _ ih =>
      cases above with
      | cons _ above => exact ih (List.cons.inj same).2 noFeed
      | nil =>
          cases front with
          | nil => exact fun c listed => absurd listed List.not_mem_nil
          | cons c front =>
              obtain ⟨rfl, later⟩ := List.cons.inj same
              have noFeed : '\n' ∉ front ++ [next] := fun listed => noFeed (List.mem_cons_of_mem _ listed)
              exact List.forall_mem_cons.mpr ⟨unbroken, @ih [] front later noFeed⟩
  | returnFeed _ ih =>
      cases above with
      | nil =>
          cases front with
          | nil => exact fun c listed => absurd listed List.not_mem_nil
          | cons c front =>
              obtain ⟨-, later⟩ := List.cons.inj same
              exact (starts (fun listed => noFeed (List.mem_cons_of_mem _ listed)) later).elim
      | cons _ above =>
          cases above with
          | nil => exact (starts noFeed (List.cons.inj same).2).elim
          | cons _ above => exact ih (List.cons.inj (List.cons.inj same).2).2 noFeed

theorem all_ne_feed (unbroken : '\n' ∉ text) : ∀ c ∈ text, (c != '\n') = true := by
  intro c listed
  have other : c ≠ '\n' := fun same => unbroken (same ▸ listed)
  simpa using other

theorem not_mem_lastLine (text : List Char) : '\n' ∉ lastLine text := by
  intro listed
  simpa using List.mem_rtakeWhile_imp listed

/-- Every text is some whole lines and a last line, either of which may be empty. -/
theorem exists_above (text : List Char) : ∃ above, text = above ++ lastLine text ∧ lastLine above = [] := by
  refine ⟨text.rdropWhile (· != '\n'), List.rdropWhile_append_rtakeWhile.symm, ?_⟩
  apply List.rtakeWhile_eq_nil_iff.mpr
  exact List.rdropWhile_last_not _ text

/-- The text before a part that stands at an offset, the part, and the text after it. -/
theorem exists_parts {text part : List Char} {offset : Nat} (nonempty : part ≠ [])
    (stands : (text.drop offset).take part.length = part) :
    ∃ before after, text = before ++ part ++ after ∧ before.length = offset := by
  have length := congrArg List.length stands
  have positive := List.length_pos_iff.mpr nonempty
  rw [List.length_take, List.length_drop] at length
  refine ⟨text.take offset, (text.drop offset).drop part.length, ?_, ?_⟩
  · have rest := List.take_append_drop part.length (text.drop offset)
    rw [stands] at rest
    rw [List.append_assoc, rest, List.take_append_drop]
  · rw [List.length_take]
    omega

/-- The line that a place in a text belongs to: it begins behind the last line feed before the place and goes on
to the next one after it. Its number counts the line feeds before. -/
theorem isLine_of_append (before rest : List Char) : ∃ above,
    IsLine (before ++ rest) (1 + lineFeeds before : Nat) above
        (lastLine before ++ rest.takeWhile (· != '\n')) ∧
      before.length = above.length + (lastLine before).length := by
  obtain ⟨above, same, begins⟩ := exists_above before
  have unbroken : '\n' ∉ rest.takeWhile (· != '\n') := by
    intro listed
    simpa using all_takeWhile rest _ listed
  have count : lineFeeds before = lineFeeds above := by
    rw [same, lineFeeds_append, lineFeeds_eq_zero.mpr (not_mem_lastLine before), Nat.add_zero]
  refine ⟨above, ⟨by rw [count], begins, ?_, rest.dropWhile (· != '\n'), ?_, ?_⟩, ?_⟩
  · simpa using ⟨not_mem_lastLine before, unbroken⟩
  · rw [← List.append_assoc, ← same, List.append_assoc, List.takeWhile_append_dropWhile]
  · intro c first
    simpa using avoids_dropWhile (p := (· != '\n')) rest c first
  · rw [← List.length_append, ← same]

/-! ### Shown lines -/

/-- Above a place as many lines are shown as there are line feeds, whether or not carriage returns stand in
front of them. -/
theorem shownLinesFrom_append (before : List Char) {more : List Char} (ends : OnlyLineEnds more)
    (rest : List Char) : ∃ shown, shown.length = lineFeeds more ∧
      shownLinesFrom (lastLine before).reverse false (more ++ rest) =
        shown ++ shownLinesFrom (lastLine (before ++ more)).reverse false rest := by
  have broken : isLineBreak '\n' = true := by decide
  induction ends generalizing before with
  | nil => exact ⟨[], rfl, by simp⟩
  | @feed more _ ih =>
      obtain ⟨shown, length, same⟩ := ih (before ++ ['\n'])
      rw [List.append_assoc, List.singleton_append, lastLine_concat] at same
      refine ⟨lastLine before :: shown, by simp [length, lineFeeds], ?_⟩
      simpa [shownLinesFrom, broken] using same
  | @returnFeed more _ ih =>
      obtain ⟨shown, length, same⟩ := ih (before ++ ['\r'] ++ ['\n'])
      have returned : isLineBreak '\r' = true := by decide
      rw [lastLine_concat] at same
      refine ⟨lastLine before :: shown, by simp [length, lineFeeds], ?_⟩
      simpa [shownLinesFrom, broken, returned] using same
  | @char c more unbroken _ ih =>
      obtain ⟨shown, length, same⟩ := ih (before ++ [c])
      have feed : c ≠ '\n' := by
        rintro rfl
        rw [broken] at unbroken
        cases unbroken
      rw [List.append_assoc, List.singleton_append, lastLine_concat] at same
      refine ⟨shown, by simp [length, lineFeeds, feed], ?_⟩
      simpa [shownLinesFrom, unbroken, feed] using same

/-- The line shown next goes up to the next break. If nothing at all is left, no line is shown, which is why the
line must not be empty. -/
theorem shownLinesFrom_eq_cons (before rest : List Char)
    (nonempty : before ++ upToBreak rest ≠ []) :
    ∃ later, shownLinesFrom before.reverse false rest = (before ++ upToBreak rest) :: later := by
  induction rest generalizing before with
  | nil =>
      have some : before ≠ [] := by simpa [upToBreak] using nonempty
      exact ⟨[], by simp [shownLinesFrom, upToBreak, some]⟩
  | cons c rest ih =>
      cases broken : isLineBreak c with
      | true => exact ⟨shownLinesFrom [] (c == '\r') rest, by simp [shownLinesFrom, upToBreak, broken]⟩
      | false =>
          obtain ⟨later, shows⟩ := ih (before ++ [c]) (by simp)
          refine ⟨later, ?_⟩
          simpa [shownLinesFrom, upToBreak, broken] using shows

/-- A line feed ends what is shown of a line, so nothing below it matters. -/
theorem upToBreak_append {below : List Char} (next : ∀ c ∈ below.head?, c = '\n') (text : List Char) :
    upToBreak (text ++ below) = upToBreak text := by
  induction text with
  | nil =>
      cases below with
      | nil => rfl
      | cons c below =>
          obtain rfl := next c rfl
          rfl
  | cons c text ih =>
      cases broken : isLineBreak c with
      | true => simp [upToBreak, broken]
      | false => simpa [upToBreak, broken] using ih

theorem upToBreak_eq_append {front : List Char} (unbroken : ∀ c ∈ front, isLineBreak c = false)
    (back : List Char) : upToBreak (front ++ back) = front ++ upToBreak back := by
  apply List.takeWhile_append_of_pos
  intro c listed
  rw [unbroken c listed]
  rfl

theorem upToBreak_eq_self (unbroken : ∀ c ∈ text, isLineBreak c = false) : upToBreak text = text := by
  simpa [upToBreak] using upToBreak_eq_append unbroken []

/-- A line is shown under its number, up to the first break on it, when the lines above it end with line feeds,
alone or behind carriage returns. A line of which nothing is shown need not be there at all. -/
theorem shownLines_of_isLine (isLine : IsLine text number above line) (ends : OnlyLineEnds above)
    (nonempty : upToBreak line ≠ []) : (shownLines text)[number.toNat - 1]? = some (upToBreak line) := by
  obtain ⟨below, rfl, next⟩ := isLine.ends
  obtain ⟨shown, length, same⟩ := shownLinesFrom_append [] ends (line ++ below)
  have index : number.toNat - 1 = shown.length := by
    have numbered := isLine.number
    omega
  obtain ⟨later, shows⟩ := shownLinesFrom_eq_cons [] (line ++ below)
    (by simpa [upToBreak_append next] using nonempty)
  rw [List.nil_append, isLine.begins, List.reverse_nil, ← List.append_assoc] at same
  rw [List.reverse_nil, List.nil_append, upToBreak_append next] at shows
  have whole : shownLines (above ++ line ++ below) = shown ++ upToBreak line :: later := by
    rw [← shows]
    exact same
  rw [whole, index, List.getElem?_append_right (Nat.le_refl _), Nat.sub_self]
  rfl

/-- Without other breaks, whatever is shown is a line. By induction over the text, with the part of the line
that was passed already as an argument. -/
theorem isLine_of_shownLinesFrom (before : List Char) {rest : List Char} (feeds : OnlyFeeds rest) {k : Nat}
    (shown : (shownLinesFrom (lastLine before).reverse false rest)[k]? = some line) :
    ∃ above, IsLine (before ++ rest) (1 + lineFeeds before + k : Nat) above line := by
  induction rest generalizing before k with
  | nil =>
      by_cases empty : lastLine before = []
      · simp [shownLinesFrom, empty] at shown
      · have first : k = 0 ∧ lastLine before = line := by
          cases k <;> simp_all [shownLinesFrom]
        obtain ⟨rfl, rfl⟩ := first
        obtain ⟨above, isLine, -⟩ := isLine_of_append before []
        exact ⟨above, by simpa using isLine⟩
  | cons c rest ih =>
      have next (k : Nat)
          (later : (shownLinesFrom (lastLine (before ++ [c])).reverse false rest)[k]? = some line) :
          ∃ above, IsLine (before ++ c :: rest) (1 + lineFeeds (before ++ [c]) + k : Nat) above line := by
        simpa using ih (before ++ [c]) feeds.tail later
      by_cases feed : c = '\n'
      · subst feed
        have broken : isLineBreak '\n' = true := by decide
        simp only [shownLinesFrom, broken] at shown
        cases k with
        | zero =>
            obtain rfl : lastLine before = line := by simpa using shown
            obtain ⟨above, isLine, -⟩ := isLine_of_append before ('\n' :: rest)
            exact ⟨above, by simpa using isLine⟩
        | succ k =>
            have count : 1 + lineFeeds (before ++ ['\n']) + k = 1 + lineFeeds before + (k + 1) := by
              rw [lineFeeds_concat, if_pos rfl]
              omega
            rw [← count]
            exact next k (by simpa [lastLine_concat] using shown)
      · have count : lineFeeds (before ++ [c]) = lineFeeds before := by
          rw [lineFeeds_concat, if_neg feed]
        rw [← count]
        exact next k (by simpa [lastLine_concat, feed, shownLinesFrom, feeds.head feed] using shown)

/-- Where line feeds are the only breaks, a line is shown under its own number. -/
theorem isLine_of_shownLines (feeds : OnlyFeeds text) {k : Nat} (shown : (shownLines text)[k]? = some line) :
    ∃ above, IsLine text (1 + k : Nat) above line := by
  simpa [lineFeeds] using isLine_of_shownLinesFrom [] feeds shown

end Text

end Treewalk

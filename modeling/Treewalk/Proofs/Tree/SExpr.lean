import Treewalk.Proofs.Token.Lexical

/-!
Parenthesised texts. An `SExpr` is a word, a quoted text, or a list of these; its text puts the items of a list
between parentheses with one blank between two of them. Quoted texts are written as they are, without
escapes, so they may hold blanks, parentheses and line feeds, but no quote. A text of this form can be read in
one way only (`SExpr.Sound.separable`).
-/

namespace Treewalk

open Text

inductive SExpr where
  | word (text : String)
  | quoted (text : String)
  | list (items : List SExpr)

namespace SExpr

mutual

/-- The text of an expression. -/
def text : SExpr → List Char
  | .word w => w.toList
  | .quoted w => '"' :: w.toList ++ ['"']
  | .list items => '(' :: (trailing items).drop 1 ++ [')']

/-- The texts of items, each behind a blank. -/
def trailing : List SExpr → List Char
  | [] => []
  | s :: more => ' ' :: s.text ++ trailing more

end

/-- The characters that end a word. -/
def breaks : List Char := [' ', '(', ')', '"']

/-- A text that can stand as a word. -/
def IsWord (text : List Char) : Prop := text ≠ [] ∧ ∀ c ∈ text, c ∉ breaks

instance (text : List Char) : Decidable (IsWord text) :=
  decidable_of_iff ((!text.isEmpty && text.all fun c => !breaks.contains c) = true) (by simp [IsWord])

/-- Words are not empty and do not break, and no quote stands inside quotes. -/
inductive Sound : SExpr → Prop where
  | word {w} : IsWord w.toList → Sound (.word w)
  | quoted {w} : '"' ∉ w.toList → Sound (.quoted w)
  | list {items} : (∀ s ∈ items, Sound s) → Sound (.list items)

/-- What may follow an item: nothing, a blank or the end of its list. -/
def Ended (rest : List Char) : Prop := ∀ c ∈ rest.head?, c = ' ' ∨ c = ')'

variable {s t : SExpr} {items items' : List SExpr} {rest rest' : List Char}

theorem sound_list : (SExpr.list items).Sound ↔ ∀ s ∈ items, s.Sound := by
  constructor
  · intro sound
    cases sound with
    | list each => exact each
  · exact .list

/-- Behind an item comes a blank or the end of the list, and both end a word. -/
theorem ended_trailing (items : List SExpr) (rest : List Char) : Ended (trailing items ++ ')' :: rest) := by
  cases items with
  | nil => simp [trailing, Ended]
  | cons s more => simp [trailing, Ended]

/-- The character that opens an expression, unless it is a word. -/
def opening? : SExpr → Option Char
  | .word _ => none
  | .quoted _ => some '"'
  | .list _ => some '('

/-- A text begins with what opens it, or with the first character of a word. -/
theorem Sound.head (sound : s.Sound) : ∃ c more, s.text = c :: more ∧ c ≠ ' ' ∧ c ≠ ')' ∧
    s.opening? = if c = '"' ∨ c = '(' then some c else none := by
  cases sound with
  | word word =>
      obtain ⟨nonempty, unbroken⟩ := word
      obtain ⟨c, more, begins⟩ := List.exists_cons_of_ne_nil nonempty
      have first := unbroken c (by simp [begins])
      simp only [breaks, List.mem_cons, List.not_mem_nil, or_false, not_or] at first
      exact ⟨c, more, by rw [text, begins], by simp [first, opening?]⟩
  | quoted => exact ⟨_, _, rfl, by decide, by decide, rfl⟩
  | list => exact ⟨_, _, rfl, by decide, by decide, rfl⟩

/-- How an expression opens is seen from its text: by a quote, by a parenthesis, or by neither. -/
theorem Sound.opening?_eq (sound : s.Sound) (sound' : t.Sound) (same : s.text ++ rest = t.text ++ rest') :
    s.opening? = t.opening? := by
  obtain ⟨c, more, begins, -, -, opens⟩ := sound.head
  obtain ⟨c', more', begins', -, -, opens'⟩ := sound'.head
  rw [begins, begins'] at same
  rw [opens, opens', (List.cons.inj same).1]

/-- A word ends where it is followed by a break, so a word and what follows it can be told apart. -/
theorem IsWord.append_injective {w w' : List Char} (word : IsWord w) (word' : IsWord w')
    (ended : Ended rest) (ended' : Ended rest') (same : w ++ rest = w' ++ rest') : w = w' ∧ rest = rest' := by
  have inside {w : List Char} (word : IsWord w) : ∀ c ∈ w, decide (c ∉ breaks) = true :=
    fun c listed => decide_eq_true (word.2 c listed)
  have avoids {rest : List Char} (ended : Ended rest) : Avoids (fun c => decide (c ∉ breaks)) rest := by
    intro c begins
    rcases ended c begins with rfl | rfl <;> rfl
  constructor
  · rw [← takeWhile_append (inside word) (avoids ended), same, takeWhile_append (inside word') (avoids ended')]
  · rw [← dropWhile_append (inside word) (avoids ended), same, dropWhile_append (inside word') (avoids ended')]

/-- A quoted text ends at the next quote, as no quote stands inside of it. -/
theorem quoted_append_injective {w w' : List Char} (unquoted : '"' ∉ w) (unquoted' : '"' ∉ w')
    (same : w ++ '"' :: rest = w' ++ '"' :: rest') : w = w' ∧ rest = rest' := by
  have first := Piece.afterQuote_append unquoted rest
  rw [same, Piece.afterQuote_append unquoted' rest'] at first
  simp only [Prod.mk.injEq, Piece.token.injEq] at first
  simpa using And.intro first.1.2.symm first.2.symm

/-- The text of an item tells where the item ends. -/
def Separable (s : SExpr) : Prop := ∀ (t : SExpr) (rest rest' : List Char), t.Sound → Ended rest →
  Ended rest' → s.text ++ rest = t.text ++ rest' → s = t ∧ rest = rest'

/-- Items behind blanks can be told apart when each of them can. By induction over the first list. -/
theorem trailing_append_injective (each : ∀ s ∈ items, s.Separable) (sound : ∀ t ∈ items', t.Sound)
    (same : trailing items ++ ')' :: rest = trailing items' ++ ')' :: rest') :
    items = items' ∧ rest = rest' := by
  induction items generalizing items' with
  | nil =>
      cases items' with
      | nil => simpa [trailing] using same
      | cons t more' => simp [trailing] at same
  | cons s more ih =>
      cases items' with
      | nil => simp [trailing] at same
      | cons t more' =>
          simp only [trailing, List.cons_append, List.append_assoc, List.cons.injEq, true_and] at same
          obtain ⟨rfl, later⟩ := each s (by simp) t _ _ (sound t (by simp)) (ended_trailing more rest)
            (ended_trailing more' rest') same
          obtain ⟨rfl, ends⟩ := ih (fun u listed => each u (by simp [listed]))
            (fun u listed => sound u (by simp [listed])) later
          exact ⟨rfl, ends⟩

/-- Without the first blank, nothing is lost: no item begins like the end of a list. -/
theorem drop_trailing_append (sound : ∀ s ∈ items, s.Sound) (sound' : ∀ t ∈ items', t.Sound)
    (same : (trailing items).drop 1 ++ ')' :: rest = (trailing items').drop 1 ++ ')' :: rest') :
    trailing items ++ ')' :: rest = trailing items' ++ ')' :: rest' := by
  have nonempty {s : SExpr} {more rest rest' : List Char} (sound : s.Sound)
      (same : ')' :: rest = s.text ++ more ++ rest') : False := by
    obtain ⟨c, text, begins, -, other, -⟩ := sound.head
    rw [begins] at same
    exact other (List.cons.inj same).1.symm
  cases items with
  | nil =>
      cases items' with
      | nil => exact same
      | cons t more' => exact (nonempty (sound' t (by simp)) same).elim
  | cons s more =>
      cases items' with
      | nil => exact (nonempty (sound s (by simp)) same.symm).elim
      | cons t more' => exact congrArg (' ' :: ·) same

/-- Every text tells where it ends, whatever follows it. By induction over the expression, one case for each
kind of atom and one for lists. -/
theorem Sound.separable (sound : s.Sound) : s.Separable := by
  -- The first character of a text leaves only the same kind of item for the other one.
  induction sound with
  | @word w word =>
      intro t rest rest' sound' ended ended' same
      have opens := (Sound.word word).opening?_eq sound' same
      cases sound' with
      | word word' =>
          obtain ⟨words, ends⟩ := word.append_injective word' ended ended' same
          exact ⟨congrArg SExpr.word (String.toList_inj.mp words), ends⟩
      | quoted | list => cases opens
  | @quoted w unquoted =>
      intro t rest rest' sound' ended ended' same
      have opens := (Sound.quoted unquoted).opening?_eq sound' same
      cases sound' with
      | quoted unquoted' =>
          simp only [text, List.cons_append, List.append_assoc, List.cons.injEq, true_and] at same
          obtain ⟨texts, ends⟩ := quoted_append_injective unquoted unquoted' same
          exact ⟨congrArg SExpr.quoted (String.toList_inj.mp texts), ends⟩
      | word => cases opens
      | list => simp [opening?] at opens
  | @list items each ih =>
      intro t rest rest' sound' ended ended' same
      have opens := (Sound.list each).opening?_eq sound' same
      cases sound' with
      | list each' =>
          simp only [text, List.cons_append, List.append_assoc, List.cons.injEq, true_and] at same
          obtain ⟨rfl, ends⟩ := trailing_append_injective ih each' (drop_trailing_append each each' same)
          exact ⟨rfl, ends⟩
      | word => cases opens
      | quoted => simp [opening?] at opens

/-- Two expressions with one text are the same. Writing outlines loses nothing, as long as they are sound. -/
theorem Sound.eq_of_text_eq (sound : s.Sound) (sound' : t.Sound) (same : s.text = t.text) : s = t := by
  have ended : Ended [] := by simp [Ended]
  exact (sound.separable t [] [] sound' ended ended (by rw [same])).1

/-! ### Joined texts -/

theorem trailing_eq (items : List SExpr) : trailing items = (items.map text).flatMap (' ' :: ·) := by
  induction items with
  | nil => simp [trailing]
  | cons s more ih => simp [trailing, ih]

/-- Items in a row are written in a row. -/
theorem trailing_append (items items' : List SExpr) :
    trailing (items ++ items') = trailing items ++ trailing items' := by
  simp [trailing_eq]

theorem trailing_flatMap {α : Type} (cs : List α) (f : α → List SExpr) :
    trailing (cs.flatMap f) = (cs.map fun c => trailing (f c)).flatten := by
  induction cs with
  | nil => simp [trailing]
  | cons c cs ih => rw [List.flatMap_cons, trailing_append, ih, List.map_cons, List.flatten_cons]

/-- Joining texts by blanks is writing each behind a blank, the first blank aside. -/
theorem toList_intercalate_cons (head : String) (parts : List String) :
    ' ' :: (" ".intercalate (head :: parts)).toList = ((head :: parts).map String.toList).flatMap (' ' :: ·) := by
  induction parts generalizing head with
  | nil => simp
  | cons part parts ih =>
      rw [String.intercalate_cons_cons, String.toList_append, String.toList_append, List.map_cons,
        List.flatMap_cons, ← ih part]
      simp

/-- Texts with a blank between two of them are written as the items of a list are, without the first blank. -/
theorem toList_intercalate {parts : List String} (same : parts.map String.toList = items.map text) :
    (" ".intercalate parts).toList = (trailing items).drop 1 := by
  cases parts with
  | nil =>
      obtain rfl := List.map_eq_nil_iff.mp same.symm
      rfl
  | cons head parts => rw [trailing_eq, ← same, ← toList_intercalate_cons, List.drop_one, List.tail_cons]

end SExpr

end Treewalk

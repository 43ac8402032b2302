import Treewalk.Token.Scan

/-!
The lexical rules, as a relation between a piece and the text after it. `Piece.Stands p after` says that
`p` is what the rules make of the beginning of `p.text ++ after`: the characters of `p` have the form of
its kind, and what comes after them does not lengthen it. `Piece.Splits` puts such pieces in a row.

* `first_stands` and `first_eq_of_stands`: the first piece of a text is the one that stands in front of
  the rest.
* `splits_split` and `split_eq_of_splits`: the pieces of a text are the only row of pieces that covers it.
-/

namespace Treewalk

open Text

/-- A text does not begin with a character that satisfies `p`. -/
def Text.Avoids (p : Char → Bool) (text : List Char) : Prop := ∀ c ∈ text.head?, p c = false

namespace Text

variable {p : Char → Bool} {inside after : List Char}

theorem avoids_nil : Avoids p [] := by
  simp [Avoids]

theorem avoids_cons {c : Char} {text : List Char} : Avoids p (c :: text) ↔ p c = false := by
  simp [Avoids]

/-- What is left after dropping the longest run does not go on with the run. -/
theorem avoids_dropWhile (text : List Char) : Avoids p (text.dropWhile p) := by
  intro c begins
  have stopped := List.head?_dropWhile_not p text
  rw [begins] at stopped
  exact stopped

theorem all_takeWhile (text : List Char) : ∀ c ∈ text.takeWhile p, p c = true :=
  List.all_eq_true.mp List.all_takeWhile

/-- A run that is not continued behind it is the longest one, so `takeWhile` finds exactly it. -/
theorem takeWhile_append (all : ∀ c ∈ inside, p c = true) (avoids : Avoids p after) :
    (inside ++ after).takeWhile p = inside := by
  rw [List.takeWhile_append_of_pos all]
  cases after with
  | nil => simp
  | cons c after => simp [avoids_cons.mp avoids]

/-- What follows a run that is not continued is what `dropWhile` leaves. -/
theorem dropWhile_append (all : ∀ c ∈ inside, p c = true) (avoids : Avoids p after) :
    (inside ++ after).dropWhile p = after := by
  rw [List.dropWhile_append_of_pos all]
  cases after with
  | nil => simp
  | cons c after => simp [avoids_cons.mp avoids]

end Text

namespace Piece

/-! ### Block comments -/

/-- A text that holds no end mark of a block comment. -/
def Unclosed (text : List Char) : Prop := ¬ ['*', '/'] <:+: text

instance (text : List Char) : Decidable (Unclosed text) := inferInstanceAs (Decidable (¬ _))

/-- No end mark in a text, by its first character: none further on, and none right here. -/
theorem unclosed_cons {c : Char} {text : List Char} :
    Unclosed (c :: text) ↔ Unclosed text ∧ ¬ (c = '*' ∧ ∃ rest, text = '/' :: rest) := by
  unfold Unclosed
  rw [List.infix_cons_iff, not_or, and_comm]
  apply and_congr_right
  intro _
  apply not_congr
  constructor
  · rintro ⟨rest, same⟩
    simp only [List.cons_append, List.nil_append, List.cons.injEq] at same
    exact ⟨same.1.symm, rest, same.2.symm⟩
  · rintro ⟨rfl, rest, rfl⟩
    exact ⟨rest, rfl⟩

/-- When no end is found, there is no end mark anywhere in the text. -/
theorem closeComment_none {text : List Char} (none : closeComment text = none) : Unclosed text := by
  fun_induction closeComment text with
  | case1 => simp [Unclosed]
  | case2 rest => simp at none
  | case3 c rest other ih =>
      rw [unclosed_cons]
      constructor
      · exact ih (by simpa using none)
      · rintro ⟨rfl, rest', rfl⟩
        exact other rest' rfl rfl

/-- A comment ends with its first end mark: the mark is there, and none comes before it. By induction over
the text. -/
theorem closeComment_some {text inside after : List Char}
    (closed : closeComment text = some (inside, after)) :
    ∃ body, inside = body ++ ['*', '/'] ∧ text = inside ++ after ∧ Unclosed (body ++ ['*']) := by
  fun_induction closeComment text generalizing inside with
  | case1 => simp at closed
  | case2 rest =>
      simp only [Option.some.injEq, Prod.mk.injEq] at closed
      obtain ⟨rfl, rfl⟩ := closed
      exact ⟨[], rfl, rfl, by decide⟩
  | case3 c rest other ih =>
      obtain ⟨⟨inside', after'⟩, found, same⟩ := Option.map_eq_some_iff.mp closed
      simp only [Prod.mk.injEq] at same
      obtain ⟨rfl, rfl⟩ := same
      obtain ⟨body, rfl, rfl, unclosed⟩ := ih found
      refine ⟨c :: body, rfl, rfl, ?_⟩
      rw [List.cons_append, unclosed_cons]
      refine ⟨unclosed, ?_⟩
      rintro ⟨rfl, rest', begins⟩
      -- then the comment would have ended here
      cases body with
      | nil => simp at begins
      | cons d body =>
          simp only [List.cons_append, List.cons.injEq] at begins
          obtain ⟨rfl, -⟩ := begins
          exact other _ rfl rfl

/-- Without an end mark in the text, no end is found. -/
theorem closeComment_unclosed {text : List Char} (unclosed : Unclosed text) :
    closeComment text = none := by
  cases found : closeComment text with
  | none => rfl
  | some parts =>
      obtain ⟨body, inside, rfl, -⟩ := closeComment_some found
      exfalso
      apply unclosed
      rw [inside]
      exact ⟨body, parts.2, by simp⟩

/-- The first end mark is found. A star just before it must not be taken for its beginning, hence the condition
on `body ++ ['*']`. -/
theorem closeComment_append {body : List Char} (unclosed : Unclosed (body ++ ['*'])) (after : List Char) :
    closeComment (body ++ '*' :: '/' :: after) = some (body ++ ['*', '/'], after) := by
  induction body with
  | nil => rfl
  | cons c body ih =>
      rw [List.cons_append, unclosed_cons] at unclosed
      obtain ⟨unclosed, notHere⟩ := unclosed
      rw [List.cons_append, closeComment]
      · simp [ih unclosed]
      · rintro rest rfl begins
        cases body with
        | nil => simp at begins
        | cons d body =>
            simp only [List.cons_append, List.cons.injEq] at begins
            exact notHere ⟨rfl, body ++ ['*'], by simp [begins.1]⟩

/-! ### The rules -/

/-- A character that no rule takes. -/
structure Stray (c : Char) : Prop where
  single : singleSign? c = none
  lengthened : lengthenedSign? c = none
  slash : c ≠ '/'
  space : isSpace c = false
  quote : c ≠ '"'
  digit : isDigit c = false
  nameStart : isNameStart c = false

/-- The kind of a word. -/
def wordKind (word : List Char) : TokenKind := (TokenKind.ofWord? (String.ofList word)).getD .identifier

/-- A piece that is the first one of its text followed by `after`. -/
inductive Stands : Piece → List Char → Prop where
  | single {c kind after} : singleSign? c = some kind → Stands (.token kind [c]) after
  | alone {c alone lengthened after} : lengthenedSign? c = some (alone, lengthened) →
      Avoids (· == '=') after → Stands (.token alone [c]) after
  | lengthened {c alone lengthened after} : lengthenedSign? c = some (alone, lengthened) →
      Stands (.token lengthened [c, '=']) after
  | slash {after} : Avoids (fun c => c == '/' || c == '*') after → Stands (.token .slash ['/']) after
  | string {inside after} : '"' ∉ inside → Stands (.token .string ('"' :: inside ++ ['"'])) after
  | whole {digits after} : digits ≠ [] → (∀ c ∈ digits, isDigit c = true) → Avoids isDigit after →
      (∀ rest, after = '.' :: rest → Avoids isDigit rest) → Stands (.token .number digits) after
  | fraction {digits places after} : digits ≠ [] → places ≠ [] → (∀ c ∈ digits, isDigit c = true) →
      (∀ c ∈ places, isDigit c = true) → Avoids isDigit after →
      Stands (.token .number (digits ++ '.' :: places)) after
  | word {c word after} : isNameStart c = true → (∀ d ∈ word, isNamePart d = true) →
      Avoids isNamePart after → Stands (.token (wordKind (c :: word)) (c :: word)) after
  | blank {c after} : isSpace c = true → Stands (.blank c) after
  | lineComment {inside after} : '\n' ∉ inside → Avoids (· != '\n') after →
      Stands (.lineComment ('/' :: '/' :: inside)) after
  | blockComment {body after} : Unclosed (body ++ ['*']) →
      Stands (.blockComment ('/' :: '*' :: (body ++ ['*', '/']))) after
  | stray {c after} : Stray c → Stands (.stray c) after
  | openString {inside} : '"' ∉ inside → Stands (.openString ('"' :: inside)) []
  | openComment {inside} : Unclosed inside → Stands (.openComment ('/' :: '*' :: inside)) []

/-! ### The first piece of a text -/

/-- The three readings of a slash stand in front of what they leave, and make up the text together with it. -/
theorem afterSlash_stands {rest after : List Char} {p : Piece} (first : afterSlash rest = (p, after)) :
    '/' :: rest = p.text ++ after ∧ Stands p after := by
  unfold afterSlash at first
  split at first
  next more =>
    obtain ⟨rfl, rfl⟩ := Prod.mk.injEq .. ▸ first
    have inside : '\n' ∉ more.takeWhile (· != '\n') := by
      intro listed
      simpa using all_takeWhile more _ listed
    refine ⟨?_, .lineComment inside (avoids_dropWhile more)⟩
    simp [text, List.takeWhile_append_dropWhile]
  next more =>
    split at first
    next inside rest closed =>
      obtain ⟨rfl, rfl⟩ := Prod.mk.injEq .. ▸ first
      obtain ⟨body, rfl, rfl, unclosed⟩ := closeComment_some closed
      exact ⟨by simp [text], .blockComment unclosed⟩
    next unclosed =>
      obtain ⟨rfl, rfl⟩ := Prod.mk.injEq .. ▸ first
      exact ⟨by simp [text], .openComment (closeComment_none unclosed)⟩
  next notSlash notStar =>
    obtain ⟨rfl, rfl⟩ := Prod.mk.injEq .. ▸ first
    refine ⟨rfl, .slash fun c begins => ?_⟩
    cases rest with
    | nil => cases begins
    | cons d rest =>
        cases begins
        simp only [Bool.or_eq_false_iff, beq_eq_false_iff_ne]
        exact ⟨fun same => notSlash rest (same ▸ rfl), fun same => notStar rest (same ▸ rfl)⟩

/-- A string up to its closing quote, or an open string up to the end, makes up the text with what it leaves. -/
theorem afterQuote_stands {rest after : List Char} {p : Piece} (first : afterQuote rest = (p, after)) :
    '"' :: rest = p.text ++ after ∧ Stands p after := by
  have split : rest.takeWhile (· != '"') ++ rest.dropWhile (· != '"') = rest :=
    List.takeWhile_append_dropWhile
  have inside : '"' ∉ rest.takeWhile (· != '"') := by
    intro listed
    simpa using all_takeWhile rest _ listed
  unfold afterQuote at first
  split at first
  next ended =>
    obtain ⟨rfl, rfl⟩ := Prod.mk.injEq .. ▸ first
    rw [ended, List.append_nil] at split
    rw [split] at inside
    exact ⟨by simp [text], .openString inside⟩
  next quote rest' found =>
    obtain ⟨rfl, rfl⟩ := Prod.mk.injEq .. ▸ first
    have closing : quote = '"' := by
      have stopped := avoids_dropWhile (p := (· != '"')) rest
      rw [found, avoids_cons] at stopped
      simpa using stopped
    subst closing
    rw [found] at split
    exact ⟨by simpa [text] using split.symm, .string inside⟩

/-- A number is the longest run of digits with at most one point inside it, and makes up the text with what it
leaves. -/
theorem numberFrom_stands {c : Char} {rest after : List Char} {p : Piece} (digit : isDigit c = true)
    (first : numberFrom c rest = (p, after)) : c :: rest = p.text ++ after ∧ Stands p after := by
  have split : rest.takeWhile isDigit ++ rest.dropWhile isDigit = rest :=
    List.takeWhile_append_dropWhile
  have digits : ∀ d ∈ c :: rest.takeWhile isDigit, isDigit d = true := by
    intro d listed
    rcases List.mem_cons.mp listed with rfl | later
    · exact digit
    · exact all_takeWhile rest d later
  have avoids := avoids_dropWhile (p := isDigit) rest
  unfold numberFrom at first
  dsimp only at first
  split at first
  next d more found =>
    split at first
    next place =>
      obtain ⟨rfl, rfl⟩ := Prod.mk.injEq .. ▸ first
      have places : ∀ e ∈ d :: more.takeWhile isDigit, isDigit e = true := by
        intro e listed
        rcases List.mem_cons.mp listed with rfl | later
        · exact place
        · exact all_takeWhile more e later
      rw [found] at split
      refine ⟨?_, .fraction (by simp) (by simp) digits places (avoids_dropWhile more)⟩
      simpa [text, List.takeWhile_append_dropWhile] using split.symm
    next other =>
      obtain ⟨rfl, rfl⟩ := Prod.mk.injEq .. ▸ first
      rw [found] at avoids split
      refine ⟨?_, .whole (by simp) digits avoids fun rest' same => ?_⟩
      · simpa [text] using split.symm
      · cases same
        exact avoids_cons.mpr (by simpa using other)
  next other =>
    obtain ⟨rfl, rfl⟩ := Prod.mk.injEq .. ▸ first
    refine ⟨?_, .whole (by simp) digits avoids fun rest' same => ?_⟩
    · simp [text, split]
    · cases rest' with
      | nil => exact avoids_nil
      | cons d more => exact absurd same (other d more)

/-- A word is the longest run of letters and digits, and makes up the text with what it leaves. -/
theorem wordFrom_stands {c : Char} {rest after : List Char} {p : Piece} (start : isNameStart c = true)
    (first : wordFrom c rest = (p, after)) : c :: rest = p.text ++ after ∧ Stands p after := by
  unfold wordFrom at first
  obtain ⟨rfl, rfl⟩ := Prod.mk.injEq .. ▸ first
  constructor
  · simp [text, List.takeWhile_append_dropWhile]
  · exact .word start (all_takeWhile rest) (avoids_dropWhile rest)

/-- The first piece of a text stands in front of the rest. This is the step of scanning, with one case for each
kind of first character. -/
theorem first_stands {c : Char} {rest after : List Char} {p : Piece} (found : first c rest = (p, after)) :
    c :: rest = p.text ++ after ∧ Stands p after := by
  unfold first at found
  split at found
  next kind single =>
    obtain ⟨rfl, rfl⟩ := Prod.mk.injEq .. ▸ found
    exact ⟨rfl, .single single⟩
  next notSingle =>
    split at found
    next alone lengthened sign =>
      split at found
      next more =>
        obtain ⟨rfl, rfl⟩ := Prod.mk.injEq .. ▸ found
        exact ⟨rfl, .lengthened sign⟩
      next other =>
        obtain ⟨rfl, rfl⟩ := Prod.mk.injEq .. ▸ found
        refine ⟨rfl, .alone sign fun d begins => ?_⟩
        cases rest with
        | nil => cases begins
        | cons e rest =>
            cases begins
            simp only [beq_eq_false_iff_ne]
            exact fun same => other rest (same ▸ rfl)
    next notSign =>
      split at found
      next slash =>
        obtain rfl := eq_of_beq slash
        exact afterSlash_stands found
      next notSlash =>
        split at found
        next space =>
          obtain ⟨rfl, rfl⟩ := Prod.mk.injEq .. ▸ found
          exact ⟨rfl, .blank space⟩
        next notSpace =>
          split at found
          next quote =>
            obtain rfl := eq_of_beq quote
            exact afterQuote_stands found
          next notQuote =>
            split at found
            next digit => exact numberFrom_stands digit found
            next notDigit =>
              split at found
              next start => exact wordFrom_stands start found
              next notStart =>
                obtain ⟨rfl, rfl⟩ := Prod.mk.injEq .. ▸ found
                refine ⟨rfl, .stray ⟨notSingle, notSign, ?_, ?_, ?_, ?_, ?_⟩⟩
                · simpa using notSlash
                · simpa using notSpace
                · simpa using notQuote
                · simpa using notDigit
                · simpa using notStart

/-! ### Characters of one class begin no piece of another -/

/-- The characters that begin a sign. -/
def signs : List Char :=
  ['(', ')', '\x7b', '\x7d', ',', '.', '-', '+', ';', '*', '?', ':', '!', '=', '<', '>', '/']

/-- The signs of one character are among the listed signs. Classes of characters that avoid the list begin no
sign. -/
theorem mem_signs_of_singleSign? {c : Char} {kind : TokenKind} (single : singleSign? c = some kind) :
    c ∈ signs := by
  unfold singleSign? at single
  split at single <;> first | decide | cases single

theorem mem_signs_of_lengthenedSign? {c : Char} {kinds : TokenKind × TokenKind}
    (sign : lengthenedSign? c = some kinds) : c ∈ signs := by
  unfold lengthenedSign? at sign
  split at sign <;> first | decide | cases sign

section Unsigned

variable {c : Char} {rest : List Char}

/-- What begins with no sign is a blank, a string, a number, a word or a stray character. -/
theorem first_unsigned (unsigned : c ∉ signs) : first c rest =
    if isSpace c then (.blank c, rest)
    else if c == '"' then afterQuote rest
    else if isDigit c then numberFrom c rest
    else if isNameStart c then wordFrom c rest
    else (.stray c, rest) := by
  have single : singleSign? c = none := by
    cases found : singleSign? c with
    | none => rfl
    | some kind => exact absurd (mem_signs_of_singleSign? found) unsigned
  have lengthened : lengthenedSign? c = none := by
    cases found : lengthenedSign? c with
    | none => rfl
    | some kinds => exact absurd (mem_signs_of_lengthenedSign? found) unsigned
  have slash : ¬ (c == '/') = true := by
    intro same
    exact unsigned (eq_of_beq same ▸ by decide)
  rw [first, single]
  dsimp only
  rw [lengthened]
  dsimp only
  rw [if_neg slash]

end Unsigned

/-- A class of characters is apart from a list of characters that it does not hold. -/
theorem not_mem_of_class {c : Char} {p : Char → Bool} {others : List Char} (inside : p c = true)
    (never : others.all (fun d => !p d) = true) : c ∉ others := by
  intro listed
  have outside := List.all_eq_true.mp never c listed
  simp [inside] at outside

def spaces : List Char := [' ', '\r', '\t', '\n']

/-- Blanks, as a list. Finite classes are told apart by comparing lists, and so are digits below. -/
theorem isSpace_iff {c : Char} : isSpace c = true ↔ c ∈ spaces := by
  simp [isSpace, spaces, or_assoc]

def decimals : List Char := ['0', '1', '2', '3', '4', '5', '6', '7', '8', '9']

theorem isDigit_iff {c : Char} : isDigit c = true ↔ c ∈ decimals := by
  constructor
  · intro digit
    have bounds : 48 ≤ c.toNat ∧ c.toNat ≤ 57 := by
      simpa [isDigit, Char.isDigit, UInt32.le_iff_toNat_le] using digit
    have listed : ∀ k < 10, Char.ofNat (48 + k) ∈ decimals := by decide
    have found := listed (c.toNat - 48) (by omega)
    rwa [Nat.add_sub_cancel' bounds.1, Char.ofNat_toNat] at found
  · intro listed
    have digits : decimals.all isDigit = true := by decide
    exact List.all_eq_true.mp digits c listed

/-! ### What stands in front of the rest is the first piece -/

section Computed

variable {c : Char} {inside after : List Char}

theorem first_blank (space : isSpace c = true) : first c after = (.blank c, after) := by
  have unsigned : c ∉ signs := not_mem_of_class space (by decide)
  rw [first_unsigned unsigned, if_pos space]

theorem first_quote : first '"' after = afterQuote after := by
  rw [first_unsigned (by decide)]
  rfl

/-- A digit begins a number and nothing else, as no digit is a sign or a blank or a quote. -/
theorem first_digit (digit : isDigit c = true) : first c after = numberFrom c after := by
  have unsigned : c ∉ signs := not_mem_of_class digit (by decide)
  have notSpace : c ∉ spaces := not_mem_of_class digit (by decide)
  have notQuote : c ∉ ['"'] := not_mem_of_class digit (by decide)
  rw [first_unsigned unsigned, if_neg (mt isSpace_iff.mp notSpace), if_neg (by simpa using notQuote),
    if_pos digit]

/-- A letter begins a word and nothing else: no letter is a sign, a blank, a quote or a digit. -/
theorem first_nameStart (start : isNameStart c = true) : first c after = wordFrom c after := by
  have unsigned : c ∉ signs := not_mem_of_class start (by decide)
  have notSpace : c ∉ spaces := not_mem_of_class start (by decide)
  have notQuote : c ∉ ['"'] := not_mem_of_class start (by decide)
  have notDigit : c ∉ decimals := not_mem_of_class start (by decide)
  rw [first_unsigned unsigned, if_neg (mt isSpace_iff.mp notSpace), if_neg (by simpa using notQuote),
    if_neg (mt isDigit_iff.mp notDigit), if_pos start]

theorem first_stray (stray : Stray c) : first c after = (.stray c, after) := by
  simp [first, stray.single, stray.lengthened, stray.slash, stray.space, stray.quote, stray.digit,
    stray.nameStart]

/-- No character is both a sign that can be lengthened and one that cannot. -/
theorem singleSign?_of_lengthenedSign? {kinds : TokenKind × TokenKind}
    (sign : lengthenedSign? c = some kinds) : singleSign? c = none := by
  unfold lengthenedSign? at sign
  split at sign <;> first | rfl | cases sign

/-- A sign that could be lengthened stays alone unless an equals sign follows. -/
theorem first_alone {alone lengthened : TokenKind} (sign : lengthenedSign? c = some (alone, lengthened))
    (avoids : Avoids (· == '=') after) : first c after = (.token alone [c], after) := by
  rw [first, singleSign?_of_lengthenedSign? sign]
  dsimp only
  rw [sign]
  dsimp only
  split
  · exact absurd (avoids_cons.mp avoids) (by decide)
  · rfl

/-- An equals sign behind it always lengthens such a sign. -/
theorem first_lengthened {alone lengthened : TokenKind}
    (sign : lengthenedSign? c = some (alone, lengthened)) :
    first c ('=' :: after) = (.token lengthened [c, '='], after) := by
  simp [first, singleSign?_of_lengthenedSign? sign, sign]

theorem first_slash : first '/' after = afterSlash after := rfl

theorem afterSlash_eq (avoids : Avoids (fun c => c == '/' || c == '*') after) :
    afterSlash after = (.token .slash ['/'], after) := by
  cases after with
  | nil => rfl
  | cons d after =>
      have other := avoids_cons.mp avoids
      simp only [Bool.or_eq_false_iff, beq_eq_false_iff_ne] at other
      rw [afterSlash]
      · exact fun rest same => other.1 (List.cons.inj same).1
      · exact fun rest same => other.2 (List.cons.inj same).1

/-- A line comment goes up to the line feed, which stays outside, or to the end of the text. -/
theorem afterSlash_line (unbroken : '\n' ∉ inside) (avoids : Avoids (· != '\n') after) :
    afterSlash ('/' :: (inside ++ after)) = (.lineComment ('/' :: '/' :: inside), after) := by
  have all : ∀ d ∈ inside, (d != '\n') = true := by
    intro d listed
    have other : d ≠ '\n' := fun same => unbroken (same ▸ listed)
    simpa using other
  rw [afterSlash, takeWhile_append all avoids, dropWhile_append all avoids]

/-- A string ends at the first quote after its opening one. -/
theorem afterQuote_append (unquoted : '"' ∉ inside) (after : List Char) :
    afterQuote (inside ++ '"' :: after) = (.token .string ('"' :: inside ++ ['"']), after) := by
  have all : ∀ d ∈ inside, (d != '"') = true := by
    intro d listed
    have other : d ≠ '"' := fun same => unquoted (same ▸ listed)
    simpa using other
  have avoids : Avoids (· != '"') ('"' :: after) := avoids_cons.mpr rfl
  rw [afterQuote, dropWhile_append all avoids]
  dsimp only
  rw [takeWhile_append all avoids]

/-- Without another quote the string is open up to the end of the text, line feeds included. -/
theorem afterQuote_open (unquoted : '"' ∉ inside) :
    afterQuote inside = (.openString ('"' :: inside), []) := by
  have all : ∀ d ∈ inside, (d != '"') = true := by
    intro d listed
    have other : d ≠ '"' := fun same => unquoted (same ▸ listed)
    simpa using other
  have ended : inside.dropWhile (· != '"') = [] := by
    simpa using dropWhile_append all avoids_nil
  rw [afterQuote, ended]

/-- Digits that no point with a digit behind it follows are a whole number. -/
theorem numberFrom_whole (digits : ∀ d ∈ inside, isDigit d = true) (avoids : Avoids isDigit after)
    (unpointed : ∀ rest, after = '.' :: rest → Avoids isDigit rest) :
    numberFrom c (inside ++ after) = (.token .number (c :: inside), after) := by
  unfold numberFrom
  dsimp only
  rw [takeWhile_append digits avoids, dropWhile_append digits avoids]
  split
  next d more =>
    have other := avoids_cons.mp (unpointed _ rfl)
    rw [if_neg (by simp [other])]
  · rfl

/-- A point belongs to a number when digits follow it; then all of them do. -/
theorem numberFrom_fraction {places : List Char} (digits : ∀ d ∈ inside, isDigit d = true)
    (nonempty : places ≠ []) (decimal : ∀ d ∈ places, isDigit d = true)
    (avoids : Avoids isDigit after) :
    numberFrom c (inside ++ '.' :: (places ++ after)) =
      (.token .number (c :: inside ++ '.' :: places), after) := by
  obtain ⟨d, more, rfl⟩ := List.exists_cons_of_ne_nil nonempty
  have pointed : Avoids isDigit ('.' :: (d :: more ++ after)) := avoids_cons.mpr (by decide)
  have later : ∀ e ∈ more, isDigit e = true := fun e listed => decimal e (by simp [listed])
  unfold numberFrom
  rw [takeWhile_append digits pointed, dropWhile_append digits pointed]
  simp only [List.cons_append]
  rw [if_pos (decimal d (by simp)), takeWhile_append later avoids, dropWhile_append later avoids]

/-- A word goes as far as its letters and digits do. Whether it is a name or a reserved word is decided by the
whole of it. -/
theorem wordFrom_append (word : ∀ d ∈ inside, isNamePart d = true) (avoids : Avoids isNamePart after) :
    wordFrom c (inside ++ after) = (.token (wordKind (c :: inside)) (c :: inside), after) := by
  unfold wordFrom
  rw [takeWhile_append word avoids, dropWhile_append word avoids]
  rfl

end Computed

/-- What stands in front of the rest is the first piece of the whole. So the rules for pieces are deterministic,
and scanning follows them. One case for each rule. -/
theorem first_eq_of_stands {p : Piece} {c : Char} {text after : List Char} (stands : Stands p after)
    (begins : p.text = c :: text) : first c (text ++ after) = (p, after) := by
  cases stands with
  | single single =>
      cases begins
      simp [first, single]
  | alone sign avoids =>
      cases begins
      exact first_alone sign avoids
  | lengthened sign =>
      cases begins
      exact first_lengthened sign
  | slash avoids =>
      cases begins
      exact afterSlash_eq avoids
  | string unquoted =>
      cases begins
      have computed := afterQuote_append unquoted after
      simpa [first_quote] using computed
  | whole nonempty digits avoids unpointed =>
      cases begins
      have digit := digits c (by simp)
      have others : ∀ d ∈ text, isDigit d = true := fun d listed => digits d (by simp [listed])
      rw [first_digit digit]
      exact numberFrom_whole others avoids unpointed
  | @fraction digits places after nonempty some all decimal avoids =>
      obtain ⟨d, more, rfl⟩ := List.exists_cons_of_ne_nil nonempty
      cases begins
      have digit := all c (by simp)
      have others : ∀ d ∈ more, isDigit d = true := fun d listed => all d (by simp [listed])
      have computed := numberFrom_fraction (c := c) others some decimal avoids
      simpa [first_digit digit] using computed
  | word start word avoids =>
      cases begins
      rw [first_nameStart start]
      exact wordFrom_append word avoids
  | blank space =>
      cases begins
      exact first_blank space
  | lineComment inside avoids =>
      cases begins
      exact afterSlash_line inside avoids
  | blockComment unclosed =>
      cases begins
      have computed := closeComment_append unclosed after
      simp [first_slash, afterSlash, computed]
  | stray stray =>
      cases begins
      exact first_stray stray
  | openString unquoted =>
      cases begins
      rw [first_quote, List.append_nil]
      exact afterQuote_open unquoted
  | openComment unclosed =>
      cases begins
      have computed := closeComment_unclosed unclosed
      simp [first_slash, afterSlash, computed]

/-! ### All pieces of a text -/

/-- Pieces in a row that cover a text, each the first one of what is left. -/
inductive Splits : List Char → List Piece → Prop where
  | nil : Splits [] []
  | cons {p after ps} : Stands p after → Splits after ps → Splits (p.text ++ after) (p :: ps)

/-- No piece is empty, so splitting a text comes to an end. -/
theorem Stands.text_ne_nil {p : Piece} {after : List Char} (stands : Stands p after) : p.text ≠ [] := by
  cases stands with
  | whole nonempty => exact nonempty
  | single | alone | lengthened | slash | string | fraction | word | blank | lineComment | blockComment
  | stray | openString | openComment => simp [text]

/-- With as much fuel as characters, splitting covers the text. By induction over the fuel, each piece taking at
least one character. -/
theorem splitUpTo_splits (fuel : Nat) (source : List Char) (enough : source.length ≤ fuel) :
    Splits source (splitUpTo fuel source) := by
  induction fuel generalizing source with
  | zero =>
      obtain rfl := List.length_eq_zero_iff.mp (Nat.le_zero.mp enough)
      exact .nil
  | succ fuel ih =>
      cases source with
      | nil => exact .nil
      | cons c rest =>
          cases found : first c rest with
          | mk p after =>
              obtain ⟨whole, stands⟩ := first_stands found
              have shorter : after.length ≤ fuel := by
                have lengths := congrArg List.length whole
                have positive := List.length_pos_iff.mpr stands.text_ne_nil
                simp only [List.length_cons, List.length_append] at lengths enough
                omega
              rw [splitUpTo, found, whole]
              exact .cons stands (ih after shorter)

/-- The pieces of a text cover it, each standing in front of the rest. -/
theorem splits_split (source : List Char) : Splits source (split source) :=
  splitUpTo_splits source.length source (Nat.le_refl _)

/-- A row of pieces that covers a text is found by splitting it, since the first piece of a text is determined
by the text. -/
theorem splitUpTo_eq_of_splits {source : List Char} {ps : List Piece} (splits : Splits source ps)
    (fuel : Nat) (enough : source.length ≤ fuel) : splitUpTo fuel source = ps := by
  induction splits generalizing fuel with
  | nil => cases fuel <;> rfl
  | @cons p after ps stands _ ih =>
      obtain ⟨c, text, begins⟩ := List.exists_cons_of_ne_nil stands.text_ne_nil
      rw [begins] at enough ⊢
      cases fuel with
      | zero => simp at enough
      | succ fuel =>
          have short : after.length ≤ fuel := by
            simp only [List.length_append, List.length_cons] at enough
            omega
          rw [List.cons_append, splitUpTo, first_eq_of_stands stands begins]
          dsimp only
          rw [ih fuel short]

/-- **Texts fall into pieces in one way.** A row of pieces that covers a text is the row of its pieces. With
`splits_split`, a text falls into pieces in exactly one way, and proofs about scanning use the rules only. -/
theorem split_eq_of_splits {source : List Char} {ps : List Piece} (splits : Splits source ps) :
    split source = ps :=
  splitUpTo_eq_of_splits splits source.length (Nat.le_refl _)

end Piece

end Treewalk

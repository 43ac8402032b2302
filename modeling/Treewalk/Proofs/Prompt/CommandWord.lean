import Treewalk.Proofs.Prompt
import Treewalk.Proofs.Token.Rules

/-!
Command words as names. A line that begins with `exit` or `help` and goes on is code: the prompt cuts it into
the word and an argument, and puts them together again with one space. The cut follows the prompt's own notion
of a word, which is ASCII, and of a blank, which is wider than the scanner's. So the new text scans like the
line exactly when no letter follows the word directly, and no blank in front of the argument is one that the
scanner does not know.
-/

namespace Treewalk

open Text

namespace Text

variable {p : Char → Bool} {text more : List Char}

theorem Avoids.shorten (avoids : Avoids p (text ++ more)) : Avoids p text := by
  cases text with
  | nil => exact avoids_nil
  | cons c text => exact avoids_cons.mpr (avoids_cons.mp avoids)

theorem dropWhile_eq_self (avoids : Avoids p text) : text.dropWhile p = text :=
  @dropWhile_append p [] text (by simp) avoids

/-! ### Blanks -/

/-- The blanks around a line, by their code points. -/
def blankCodes : List Nat :=
  [0x09, 0x0A, 0x0B, 0x0C, 0x0D, 0x1C, 0x1D, 0x1E, 0x1F, 0x20, 0x85, 0xA0, 0x1680, 0x2000, 0x2001, 0x2002,
    0x2003, 0x2004, 0x2005, 0x2006, 0x2007, 0x2008, 0x2009, 0x200A, 0x2028, 0x2029, 0x202F, 0x205F, 0x3000]

/-- The blanks that a prompt strips are finitely many code points. -/
theorem mem_blankCodes {c : Char} (blank : isBlank c = true) : c.toNat ∈ blankCodes := by
  simp only [isBlank, Bool.or_eq_true, decide_eq_true_eq, beq_iff_eq] at blank
  simp only [blankCodes, List.mem_cons, List.not_mem_nil, or_false]
  omega

/-- What holds of each of the blanks holds of all characters that are one. -/
theorem of_isBlank {P : Char → Prop} (each : ∀ n ∈ blankCodes, P (Char.ofNat n)) {c : Char}
    (blank : isBlank c = true) : P c := by
  have found := each c.toNat (mem_blankCodes blank)
  rwa [Char.ofNat_toNat] at found

/-- A text that does not begin or end with a blank, cut in two: only in front of its second part are there
blanks to strip. -/
theorem strip_of_append (stripped : strip (text ++ more) = text ++ more) : strip more = more.dropWhile isBlank := by
  have ends : Avoids isBlank (text ++ more).reverse := by
    rw [← stripped, strip, List.reverse_reverse]
    exact avoids_dropWhile _
  have last : Avoids isBlank (more.dropWhile isBlank).reverse := by
    rw [← List.takeWhile_append_dropWhile (p := isBlank) (l := more), ← List.append_assoc,
      List.reverse_append] at ends
    exact ends.shorten
  rw [strip, dropWhile_eq_self last, List.reverse_reverse]

end Text

namespace Piece

theorem content?_token (kind : TokenKind) (text : List Char) :
    content? (.token kind text) = some (kind, String.ofList text, PlacedPiece.literal kind text) := rfl

theorem fault?_token (kind : TokenKind) (text : List Char) : fault? (.token kind text) = none := rfl

/-- What the scanner makes of a blank of the prompt. -/
def ofBlank (c : Char) : Piece := if isSpace c then .blank c else .stray c

@[simp]
theorem text_ofBlank (c : Char) : (ofBlank c).text = [c] := by
  unfold ofBlank
  split <;> rfl

/-- Blanks say nothing, also where they are faults. So they matter for the faults of a text only, and not for
its tokens. -/
theorem contents_ofBlank (gap : List Char) : (gap.map ofBlank).filterMap content? = [] := by
  have silent (c : Char) : (ofBlank c).content? = none := by
    unfold ofBlank
    split <;> rfl
  simp only [List.filterMap_map, List.filterMap_eq_nil_iff]
  exact fun c _ => silent c

/-- Blanks of the prompt that are no blanks of the scanner are reported. The prompt strips more characters than
the scanner skips, and this is where the two differ. -/
theorem faults_ofBlank {gap : List Char} :
    (gap.map ofBlank).filterMap fault? = [] ↔ ∀ c ∈ gap, isSpace c = true := by
  have sound (c : Char) : (ofBlank c).fault? = none ↔ isSpace c = true := by
    unfold ofBlank
    split <;> simp_all [fault?]
  simp only [List.filterMap_map, List.filterMap_eq_nil_iff]
  exact forall₂_congr fun c _ => sound c

/-- Blanks of the prompt are blanks of the scanner or begin nothing. -/
theorem stands_ofBlank {c : Char} (blank : isBlank c = true) (after : List Char) : Stands (ofBlank c) after := by
  have each : ∀ n ∈ blankCodes, first (Char.ofNat n) [] = (ofBlank (Char.ofNat n), []) := by decide +kernel
  have found := of_isBlank (P := fun c => first c [] = (ofBlank c, [])) each blank
  have stands := (first_stands found).2
  unfold ofBlank at stands ⊢
  split
  next space => exact .blank space
  next strange =>
    rw [if_neg strange] at stands
    cases stands with
    | stray stray => exact .stray stray

/-- Blanks in front of a text are pieces of their own, one for each character, and the text behind them splits
as it does alone. -/
theorem split_blanks {gap : List Char} (blanks : ∀ c ∈ gap, isBlank c = true) (text : List Char) :
    split (gap ++ text) = gap.map ofBlank ++ split text := by
  apply split_eq_of_splits
  induction gap with
  | nil => exact splits_split text
  | cons c gap ih =>
      have others := ih fun d listed => blanks d (by simp [listed])
      have whole := Splits.cons (stands_ofBlank (blanks c (by simp)) _) others
      rwa [text_ofBlank] at whole

/-- A word that nothing lengthens is the first piece of its text. -/
theorem split_word_of_avoids {c : Char} {word rest : List Char} (start : isNameStart c = true)
    (parts : ∀ d ∈ word, isNamePart d = true) (avoids : Avoids isNamePart rest) :
    split (c :: word ++ rest) = .token (wordKind (c :: word)) (c :: word) :: split rest :=
  split_eq_of_splits (.cons (.word start parts avoids) (splits_split rest))

/-- A word goes as far as the characters of a name behind it. Unlike `split_word_of_avoids` this asks nothing of
what stands behind the word. -/
theorem split_word {c : Char} {word : List Char} (start : isNameStart c = true)
    (parts : ∀ d ∈ word, isNamePart d = true) (rest : List Char) :
    split (c :: word ++ rest) =
      .token (wordKind (c :: word ++ rest.takeWhile isNamePart)) (c :: word ++ rest.takeWhile isNamePart) ::
        split (rest.dropWhile isNamePart) := by
  have longer : ∀ d ∈ word ++ rest.takeWhile isNamePart, isNamePart d = true := by
    intro d listed
    rcases List.mem_append.mp listed with inside | behind
    · exact parts d inside
    · exact all_takeWhile rest d behind
  have whole := split_word_of_avoids start longer (avoids_dropWhile rest)
  rwa [List.cons_append, List.append_assoc, List.takeWhile_append_dropWhile] at whole

end Piece

namespace Scan

/-- Two scans with the same tokens, apart from where they stand, and the same messages. -/
def Alike (a b : Scan) : Prop :=
  a.tokens.map Token.content = b.tokens.map Token.content ∧
    a.faults.map Diagnostic.message = b.faults.map Diagnostic.message

/-- Two texts scan alike exactly when their pieces say the same and are reported with the same messages. Where
the pieces stand does not matter. -/
theorem alike_iff {a b : List Char} : (ofChars a).Alike (ofChars b) ↔
    (Piece.split a).filterMap Piece.content? = (Piece.split b).filterMap Piece.content? ∧
      ((Piece.split a).filterMap Piece.fault?).map LexicalFault.message =
        ((Piece.split b).filterMap Piece.fault?).map LexicalFault.message := by
  unfold Alike
  rw [tokens_ofChars, tokens_ofChars, faults_ofChars, faults_ofChars, List.map_append, List.map_append,
    PlacedPiece.map_content_ofPieces, PlacedPiece.map_content_ofPieces, PlacedPiece.map_message_ofPieces,
    PlacedPiece.map_message_ofPieces]
  have ended : [endToken a].map Token.content = [endToken b].map Token.content := rfl
  rw [ended, List.append_left_inj]

variable {c : Char} {word rest gap argument : List Char}

theorem avoids_space (text : List Char) : Avoids isNamePart (' ' :: text) := avoids_cons.mpr (by decide)

/-- A letter behind a word belongs to it, unless there is a space between them. -/
theorem not_alike_of_letter (start : isNameStart c = true) (parts : ∀ d ∈ word, isNamePart d = true)
    (joined : ¬ Avoids isNamePart rest) (argument : List Char) :
    ¬ (ofChars (c :: word ++ ' ' :: argument)).Alike (ofChars (c :: word ++ rest)) := by
  intro alike
  have contents := (alike_iff.mp alike).1
  rw [Piece.split_word_of_avoids start parts (avoids_space argument), Piece.split_word start parts rest,
    List.filterMap_cons_some (Piece.content?_token _ _), List.filterMap_cons_some (Piece.content?_token _ _)]
    at contents
  have lexemes := congrArg (fun content => content.2.1) (List.cons.inj contents).1
  have words : c :: word = c :: word ++ rest.takeWhile isNamePart := String.ofList_injective lexemes
  have none : rest.takeWhile isNamePart = [] := List.self_eq_append_right.mp words
  have behind := List.takeWhile_append_dropWhile (p := isNamePart) (l := rest)
  rw [none, List.nil_append] at behind
  exact joined (behind ▸ avoids_dropWhile rest)

/-- Between a word and what follows it, a space says the same as other blanks of the scanner. -/
theorem alike_iff_of_avoids (start : isNameStart c = true) (parts : ∀ d ∈ word, isNamePart d = true)
    (blanks : ∀ d ∈ gap, isBlank d = true) (avoids : Avoids isNamePart (gap ++ argument)) :
    (ofChars (c :: word ++ ' ' :: argument)).Alike (ofChars (c :: word ++ (gap ++ argument))) ↔
      ∀ d ∈ gap, Piece.isSpace d = true := by
  have spaced : Piece.split (' ' :: argument) = [' '].map Piece.ofBlank ++ Piece.split argument :=
    @Piece.split_blanks [' '] (List.all_eq_true.mp rfl) argument
  rw [alike_iff, Piece.split_word_of_avoids start parts avoids,
    Piece.split_word_of_avoids start parts (avoids_space argument), spaced, Piece.split_blanks blanks]
  simp only [List.filterMap_cons_some (Piece.content?_token _ _),
    List.filterMap_cons_none (Piece.fault?_token _ _), List.filterMap_append, Piece.contents_ofBlank,
    List.map_append, List.nil_append, true_and]
  -- what is left of the line is its own faults in the gap, in front of those of the argument
  rw [Piece.faults_ofBlank.mpr (List.all_eq_true.mp rfl), List.map_nil, List.nil_append,
    List.self_eq_append_left, List.map_eq_nil_iff, Piece.faults_ofBlank]

end Scan

namespace Request

/-- The words that a program can use as names although they are commands. -/
def IsCommandWord (word : List Char) : Prop := word = "exit".toList ∨ word = "help".toList

variable {line word : List Char}

/-- The words of commands are names for the scanner, so a line that begins with one begins with a word token. -/
theorem IsCommandWord.name (command : IsCommandWord word) : ∃ c parts, word = c :: parts ∧
    isNameStart c = true ∧ ∀ d ∈ parts, isNamePart d = true := by
  rcases command with rfl | rfl
  · exact ⟨'e', ['x', 'i', 't'], rfl, rfl, List.all_eq_true.mp rfl⟩
  · exact ⟨'h', ['e', 'l', 'p'], rfl, rfl, List.all_eq_true.mp rfl⟩

/-- A stripped line with a word in front is read as it is: it is not empty, and no question mark stands in front
of it. -/
theorem ofLine_eq_ofStripped (stripped : strip line = line) (worded : line.takeWhile isWordPart ≠ []) :
    ofLine line = ofStripped line := by
  unfold ofLine
  rw [stripped]
  split
  · exact absurd rfl worded
  · exact absurd rfl worded
  · exact absurd rfl worded
  · rfl

/-- A command word with an argument is put together again with one space, whatever stood between the two in
the line. -/
theorem text?_of_commandWord (command : IsCommandWord word) (stripped : strip line = line)
    (begins : line.takeWhile isWordPart = word) (argued : strip (line.dropWhile isWordPart) ≠ []) :
    (ofLine line).text? = some (word ++ ' ' :: strip (line.dropWhile isWordPart)) := by
  obtain ⟨c, parts, spelled, -, -⟩ := command.name
  have some : ¬ (strip (line.dropWhile isWordPart)).isEmpty = true := by simpa using argued
  rw [ofLine_eq_ofStripped stripped (by simp [begins, spelled]), ofStripped, begins]
  rcases command with rfl | rfl
  · exact if_neg some
  · exact if_neg some

/-- What begins behind a word of the prompt continues a name only if it is a letter. The words of the prompt
take digits and underscores already, but ASCII letters only. -/
theorem avoids_isNamePart_iff : Avoids isNamePart (line.dropWhile isWordPart) ↔
    ∀ c ∈ (line.dropWhile isWordPart).head?, isLetter c = false := by
  refine forall₂_congr fun c begins => ?_
  have cut := avoids_dropWhile (p := isWordPart) line c begins
  simp only [isWordPart, Char.isAlphanum, Bool.or_eq_false_iff] at cut
  simp [isNamePart, isNameStart, isDigit, cut]

end Request

namespace Prompt

/-- **When a line put together again scans alike.** A stripped line that begins with the word `exit` or `help`
and has an argument adds a text to the source that is pending. The text scans like the line exactly when no
letter stands directly behind the word and every blank between the word and its argument is one that the
scanner skips. -/
theorem rejoined_line_scans_alike {line word : List Char} (command : Request.IsCommandWord word)
    (stripped : strip line = line) (begins : line.takeWhile Request.isWordPart = word)
    (argued : strip (line.dropWhile Request.isWordPart) ≠ []) :
    let text := word ++ ' ' :: strip (line.dropWhile Request.isWordPart)
    (∀ limits (p : Prompt), p.feed limits line = p.addCode limits text) ∧
    ((Scan.ofChars text).Alike (Scan.ofChars line) ↔
      (∀ c ∈ (line.dropWhile Request.isWordPart).head?, isLetter c = false) ∧
        ∀ c ∈ (line.dropWhile Request.isWordPart).takeWhile isBlank, Piece.isSpace c = true) := by
  intro text
  have adds : (Request.ofLine line).text? = some text :=
    Request.text?_of_commandWord command stripped begins argued
  obtain ⟨c, parts, rfl, start, named⟩ := command.name
  constructor
  · intro limits p
    rw [feed_text adds, addText, if_neg (by simp [text])]
  · have cut : c :: parts ++ line.dropWhile Request.isWordPart = line := by
      rw [← begins, List.takeWhile_append_dropWhile]
    rw [← Request.avoids_isNamePart_iff]
    dsimp only [text]
    generalize line.dropWhile Request.isWordPart = rest at cut
    subst cut
    rw [strip_of_append stripped]
    by_cases apart : Avoids isNamePart rest
    · have gap := List.takeWhile_append_dropWhile (p := isBlank) (l := rest)
      have alike := Scan.alike_iff_of_avoids start named (all_takeWhile rest) (gap.symm ▸ apart)
      rw [gap] at alike
      rw [alike, and_iff_right apart]
    · exact iff_of_false (Scan.not_alike_of_letter start named apart _) fun both => apart both.1

/-- A tab behind the word is as good as a space, but a letter outside ASCII is cut off the name it belongs to. -/
theorem rejoined_line_scans_alike_tab_letter :
    let tab := "exit\t= help(1);".toList
    let letter := "exité = 1;".toList
    Request.IsCommandWord "exit".toList ∧
    (strip tab = tab ∧ tab.takeWhile Request.isWordPart = "exit".toList ∧
      strip (tab.dropWhile Request.isWordPart) ≠ []) ∧
    (strip letter = letter ∧ letter.takeWhile Request.isWordPart = "exit".toList ∧
      strip (letter.dropWhile Request.isWordPart) ≠ []) ∧
    (Scan.ofChars "exit = help(1);".toList).Alike (Scan.ofChars tab) ∧
    ¬ (Scan.ofChars "exit é = 1;".toList).Alike (Scan.ofChars letter) := by
  intro tab letter
  have command : Request.IsCommandWord "exit".toList := .inl rfl
  have first : strip tab = tab ∧ tab.takeWhile Request.isWordPart = "exit".toList ∧
      strip (tab.dropWhile Request.isWordPart) ≠ [] := by decide
  have second : strip letter = letter ∧ letter.takeWhile Request.isWordPart = "exit".toList ∧
      strip (letter.dropWhile Request.isWordPart) ≠ [] := by decide
  refine ⟨command, first, second, ?_, fun alike => ?_⟩
  · refine (rejoined_line_scans_alike command first.1 first.2.1 first.2.2).2.mpr ⟨?_, List.all_eq_true.mp rfl⟩
    rintro c ⟨⟩
    rfl
  · have apart := ((rejoined_line_scans_alike command second.1 second.2.1 second.2.2).2.mp alike).1
    exact absurd (apart 'é' rfl) (by decide)

end Prompt

end Treewalk

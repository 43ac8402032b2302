import Treewalk.Proofs.Token
import Treewalk.Proofs.Token.Lexical

/-!
Scanning by offsets. A scanner can keep the whole source and offsets into it: where the lexeme begins, which
character comes next, and where the current line begins. Every branch then moves these itself, and a line feed
inside a string or a comment is noticed by the loop that runs over it. `Scanner` is that machine.

* `scanToken_eq`: one step of the machine consumes the first piece of what is left, and adds the token or the
  fault of that piece.
* `Placed.consumeAll`: the machine's line and line start are the position that the consumed text leads to.
* `scanAll_eq` and `scan_eq`: a whole run gives the tokens and the faults of the pieces of the source, each where
  the pieces before it end, and the end token where the source ends.
-/

namespace Treewalk

open Text

/-- What a scanner over a source keeps. -/
structure Scanner where
  /-- The offset of the lexeme that is being scanned. -/
  start : Nat
  /-- The offset of the next character. -/
  current : Nat
  line : Nat
  /-- The offset of the first character of the current line. -/
  lineStart : Nat
  tokens : Array Token
  faults : Array Diagnostic

namespace Scanner

def initial : Scanner := ⟨0, 0, 1, 0, #[], #[]⟩

def advance (s : Scanner) : Scanner := { s with current := s.current + 1 }

/-- Goes to the next line. The line feed before it has just been passed. -/
def newline (s : Scanner) : Scanner := { s with line := s.line + 1, lineStart := s.current }

def report (s : Scanner) (line : Nat) (f : LexicalFault) : Scanner :=
  { s with faults := s.faults.push (.onLine line f.message) }

section Steps

variable (source : List Char)

/-- The part of the source from one offset up to another. -/
def slice (first last : Nat) : List Char := (source.drop first).take (last - first)

/-- Adds a token for the lexeme up to here. A lexeme that began on an earlier line has no column. -/
def addToken (s : Scanner) (kind : TokenKind) (literal : Constant) : Scanner :=
  let column : Int := s.start - s.lineStart
  { s with
    tokens := s.tokens.push {
      kind
      lexeme := String.ofList (slice source s.start s.current)
      literal
      line := s.line
      column := if column < 0 then none else some column } }

/-- Goes over the next character, which may be a line feed. -/
def pass (s : Scanner) : Scanner :=
  if source[s.current]? = some '\n' then s.advance.newline else s.advance

theorem lt_length_of_any {p : Char → Bool} {i : Nat} (found : (source[i]?).any p = true) :
    i < source.length := by
  apply Nat.lt_of_not_le
  intro outside
  rw [List.getElem?_eq_none outside] at found
  cases found

/-- Goes on while there is a character that satisfies `p`. Line feeds are not looked for. -/
def advanceWhile (p : Char → Bool) (s : Scanner) : Scanner :=
  if (source[s.current]?).any p then advanceWhile p s.advance else s
termination_by source.length - s.current
decreasing_by
  have inside := lt_length_of_any source ‹_›
  change source.length - (s.current + 1) < source.length - s.current
  omega

/-- Whether or not it is a line feed, one character is passed. The loops end by this. -/
theorem current_pass (s : Scanner) : (s.pass source).current = s.current + 1 := by
  unfold pass
  split <;> rfl

/-- Goes on to the next quote, or to the end. -/
def toQuote (s : Scanner) : Scanner :=
  if (source[s.current]?).any (· != '"') then toQuote (s.pass source) else s
termination_by source.length - s.current
decreasing_by
  have inside := lt_length_of_any source ‹_›
  rw [current_pass]
  omega

/-- Goes on behind the end mark of a block comment that began on `startLine`. -/
def closeComment (startLine : Nat) (s : Scanner) : Scanner :=
  if source[s.current]? = some '*' ∧ source[s.current + 1]? = some '/' then
    { s with current := s.current + 2 }
  else if s.current < source.length then closeComment startLine (s.pass source)
  else s.report startLine .unterminatedComment
termination_by source.length - s.current
decreasing_by
  rw [current_pass]
  omega

/-- What follows a slash. -/
def slash (s : Scanner) : Scanner :=
  if source[s.current]? = some '/' then s.advance.advanceWhile source (· != '\n')
  else if source[s.current]? = some '*' then closeComment source s.line s.advance
  else s.addToken source .slash .nil

/-- What follows a quote. -/
def string (s : Scanner) : Scanner :=
  let s := s.toQuote source
  if source.length ≤ s.current then s.report s.line .unterminatedString
  else
    let s := s.advance
    s.addToken source .string (.text (String.ofList (slice source (s.start + 1) (s.current - 1))))

/-- What follows a digit. -/
def number (s : Scanner) : Scanner :=
  let s := s.advanceWhile source isDigit
  let s :=
    if source[s.current]? = some '.' ∧ (source[s.current + 1]?).any isDigit then
      s.advance.advanceWhile source isDigit
    else s
  s.addToken source .number (.number (Decimal.ofDigits (slice source s.start s.current)).toFloat)

/-- What follows the first character of a name. -/
def word (s : Scanner) : Scanner :=
  let s := s.advanceWhile source isNamePart
  s.addToken source (Piece.wordKind (slice source s.start s.current)) .nil

/-- What follows a character that begins no other sign. -/
def otherwise (s : Scanner) (c : Char) : Scanner :=
  if c == '/' then s.slash source
  else if c == '\n' then s.newline
  else if c ∈ [' ', '\r', '\t'] then s
  else if c == '"' then s.string source
  else if isDigit c then s.number source
  else if isNameStart c then s.word source
  else s.report s.line (.unexpected c)

/-- Scans one lexeme, which begins with `c`. -/
def scanToken (s : Scanner) (c : Char) : Scanner :=
  match Piece.singleSign? c with
  | some kind => s.advance.addToken source kind .nil
  | none =>
    match Piece.lengthenedSign? c with
    | some (alone, lengthened) =>
      if source[s.advance.current]? = some '=' then s.advance.advance.addToken source lengthened .nil
      else s.advance.addToken source alone .nil
    | none => s.advance.otherwise source c

end Steps

/-! ### Consuming a text -/

/-- Goes over a character. -/
def consume (s : Scanner) (c : Char) : Scanner := if c = '\n' then s.advance.newline else s.advance

/-- Goes over a text, character by character. -/
def consumeAll (s : Scanner) (text : List Char) : Scanner := text.foldl consume s

section Consuming

variable (s : Scanner) (c : Char) (text more : List Char)

@[simp]
theorem consumeAll_nil : s.consumeAll [] = s := rfl

@[simp]
theorem consumeAll_cons : s.consumeAll (c :: text) = (s.consume c).consumeAll text := rfl

theorem consumeAll_append : s.consumeAll (text ++ more) = (s.consumeAll text).consumeAll more :=
  List.foldl_append

theorem consume_of_ne (other : c ≠ '\n') : s.consume c = s.advance := if_neg other

/-- A character of a class without the line feed is passed by going one further. Every branch of the machine but
those for blanks, strings and comments knows its characters in this way. -/
theorem consume_of_class (P : Char → Prop) (inside : P c) (never : ¬ P '\n') : s.consume c = s.advance := by
  apply consume_of_ne
  rintro rfl
  exact never inside

@[simp]
theorem current_consume : (s.consume c).current = s.current + 1 := by
  unfold consume
  split <;> rfl

/-- The next character is as many characters further on as were consumed, line feeds included. -/
theorem current_consumeAll : (s.consumeAll text).current = s.current + text.length := by
  induction text generalizing s with
  | nil => rfl
  | cons c text ih =>
      rw [consumeAll_cons, ih, current_consume, List.length_cons]
      omega

theorem consumeAll_keeps : (s.consumeAll text).start = s.start ∧
    (s.consumeAll text).tokens = s.tokens ∧ (s.consumeAll text).faults = s.faults := by
  induction text generalizing s with
  | nil => exact ⟨rfl, rfl, rfl⟩
  | cons c text ih =>
      have one : (s.consume c).start = s.start ∧ (s.consume c).tokens = s.tokens ∧
          (s.consume c).faults = s.faults := by
        unfold consume
        split <;> exact ⟨rfl, rfl, rfl⟩
      rw [consumeAll_cons, ← one.1, ← one.2.1, ← one.2.2]
      exact ih (s.consume c)

end Consuming

/-! ### Loops -/

/-- What is left of the source from the next character on. -/
def Ahead (source : List Char) (s : Scanner) (rest : List Char) : Prop := source.drop s.current = rest

section Loops

variable {source rest : List Char} {s : Scanner} {c : Char}

/-- The character at the offset is the first one of what is ahead; at the end of the source there is none. Every
look of the machine at its source goes through this. -/
theorem Ahead.peek (ahead : Ahead source s rest) : source[s.current]? = rest.head? := by
  rw [← ahead, List.head?_drop]

theorem Ahead.peekNext (ahead : Ahead source s (c :: rest)) : source[s.current + 1]? = rest.head? := by
  rw [← List.head?_drop, ← List.tail_drop, ahead]
  rfl

/-- Behind a text that was consumed lies what followed it. -/
theorem Ahead.consumeAll (text : List Char) (ahead : Ahead source s (text ++ rest)) :
    Ahead source (s.consumeAll text) rest := by
  rw [Ahead, current_consumeAll, ← List.drop_drop, ahead, List.drop_left]

theorem Ahead.consume (ahead : Ahead source s (c :: rest)) : Ahead source (s.consume c) rest :=
  Ahead.consumeAll [c] ahead

/-- Behind the longest run of characters that satisfy `p` lies what is left when that run is dropped. All loops
of the machine but that of comments end in this way. -/
theorem Ahead.afterWhile (p : Char → Bool) (ahead : Ahead source s rest) :
    Ahead source (s.consumeAll (rest.takeWhile p)) (rest.dropWhile p) := by
  apply Ahead.consumeAll
  rwa [List.takeWhile_append_dropWhile]

theorem Ahead.advance (ahead : Ahead source s (c :: rest)) : Ahead source s.advance rest := by
  rw [Ahead, Scanner.advance, ← List.tail_drop, ahead]
  rfl

/-- Looking the character up in the source, or being told what it is, makes no difference. Loops over strings
and comments do the one, and the lemmas about them the other. -/
theorem Ahead.pass (ahead : Ahead source s (c :: rest)) : s.pass source = s.consume c := by
  rw [Scanner.pass, Scanner.consume, ahead.peek]
  simp

/-- The offset is at the end of the source exactly when nothing is ahead. -/
theorem Ahead.length_le (ahead : Ahead source s rest) : source.length ≤ s.current ↔ rest = [] := by
  rw [← ahead, List.drop_eq_nil_iff]

/-- A loop that does not look for line feeds consumes the characters it runs over, as long as it stops at a
line feed. -/
theorem advanceWhile_eq {p : Char → Bool} (stops : p '\n' = false) (ahead : Ahead source s rest) :
    s.advanceWhile source p = s.consumeAll (rest.takeWhile p) := by
  induction rest generalizing s with
  | nil =>
      rw [advanceWhile, ahead.peek]
      rfl
  | cons c rest ih =>
      rw [advanceWhile, ahead.peek]
      cases satisfied : p c with
      | false => simp [satisfied]
      | true =>
          have moved := s.consume_of_class c (p · = true) satisfied (by simp [stops])
          simp [satisfied, moved, ih ahead.advance]

/-- The loop of strings consumes what stands before the next quote. It notices line feeds itself, so there is no
condition on the text. -/
theorem toQuote_eq (ahead : Ahead source s rest) :
    s.toQuote source = s.consumeAll (rest.takeWhile (· != '"')) := by
  induction rest generalizing s with
  | nil =>
      rw [toQuote, ahead.peek]
      rfl
  | cons c rest ih =>
      rw [toQuote, ahead.peek]
      by_cases quote : c = '"'
      · simp [quote]
      · simp [quote, ahead.pass, ih ahead.consume]

/-- Where a comment does not end, its next character is passed. The loop looks at two characters, and a star in
front of anything but a slash is passed like any other. -/
theorem closeComment_step (ahead : Ahead source s (c :: rest))
    (other : ∀ rest', c = '*' → rest = '/' :: rest' → False) (startLine : Nat) :
    closeComment source startLine s = closeComment source startLine (s.consume c) := by
  have inside : s.current < source.length := by
    apply Nat.lt_of_not_le
    intro ended
    cases ahead.length_le.mp ended
  rw [closeComment, ahead.peek, ahead.peekNext, if_neg, if_pos inside, ahead.pass]
  rintro ⟨star, slash⟩
  cases rest with
  | nil => cases slash
  | cons d rest => exact other rest (Option.some.inj star) (by rw [Option.some.inj slash])

/-- The loop of block comments consumes the comment up to its first end mark and that mark. The mark holds no
line feed, so its two characters may be passed at once. -/
theorem closeComment_some {inside after : List Char} (ahead : Ahead source s rest) (startLine : Nat)
    (closed : Piece.closeComment rest = some (inside, after)) :
    closeComment source startLine s = s.consumeAll inside := by
  fun_induction Piece.closeComment rest generalizing s inside with
  | case1 => cases closed
  | case2 rest =>
      -- the end mark is passed in one step of two characters, neither of them a line feed
      cases closed
      rw [closeComment, ahead.peek, ahead.peekNext, if_pos ⟨rfl, rfl⟩]
      rfl
  | case3 c rest other ih =>
      obtain ⟨⟨inside', after'⟩, found, same⟩ := Option.map_eq_some_iff.mp closed
      cases same
      rw [closeComment_step ahead other, ih ahead.consume found, consumeAll_cons]

/-- A comment without an end mark is consumed to the end of the source and reported on the line that it began
on, which was kept from before the loop. -/
theorem closeComment_none (ahead : Ahead source s rest) (startLine : Nat)
    (unclosed : Piece.closeComment rest = none) :
    closeComment source startLine s = (s.consumeAll rest).report startLine .unterminatedComment := by
  fun_induction Piece.closeComment rest generalizing s with
  | case1 =>
      have ended := ahead.length_le.mpr rfl
      rw [closeComment, ahead.peek, if_neg (by simp), if_neg (by omega)]
      rfl
  | case2 rest => cases unclosed
  | case3 c rest other ih =>
      rw [closeComment_step ahead other, ih ahead.consume (by simpa using unclosed), consumeAll_cons]

end Loops

/-! ### One step -/

section Step

variable {source rest : List Char} {s : Scanner} {c : Char}

/-- The text between two offsets is the text consumed between them. Lexemes are cut out of the source by
offsets, and this gives them their text. -/
theorem Ahead.slice_eq (text : List Char) (ahead : Ahead source s (text ++ rest)) :
    slice source s.current (s.consumeAll text).current = text := by
  rw [slice, ahead, current_consumeAll, Nat.add_sub_cancel_left, List.take_left]

/-- From where a lexeme begins, it is the text consumed. -/
theorem Ahead.lexeme (text : List Char) (ahead : Ahead source s (text ++ rest)) (begun : s.start = s.current) :
    slice source (s.consumeAll text).start (s.consumeAll text).current = text := by
  rw [(consumeAll_keeps s text).1, begun, ahead.slice_eq]

/-- What scanning a piece does to a scanner in front of it: the piece is consumed, and its token or its fault
is added. -/
def emit (source : List Char) (s : Scanner) : Piece → Scanner
  | .token kind text => (s.consumeAll text).addToken source kind (PlacedPiece.literal kind text)
  | .blank c => s.consume c
  | .lineComment text => s.consumeAll text
  | .blockComment text => s.consumeAll text
  | .stray c => (s.consume c).report s.line (.unexpected c)
  | .openString text => (s.consumeAll text).report (s.consumeAll text).line .unterminatedString
  | .openComment text => (s.consumeAll text).report s.line .unterminatedComment

theorem literal_of_single {kind : TokenKind} (sign : Piece.singleSign? c = some kind) (text : List Char) :
    PlacedPiece.literal kind text = .nil := by
  unfold Piece.singleSign? at sign
  split at sign <;> cases sign <;> rfl

theorem literal_of_lengthened {alone lengthened : TokenKind}
    (sign : Piece.lengthenedSign? c = some (alone, lengthened)) (text : List Char) :
    PlacedPiece.literal alone text = .nil ∧ PlacedPiece.literal lengthened text = .nil := by
  unfold Piece.lengthenedSign? at sign
  split at sign <;> cases sign <;> exact ⟨rfl, rfl⟩

theorem literal_of_word (word text : List Char) : PlacedPiece.literal (Piece.wordKind word) text = .nil := by
  unfold Piece.wordKind TokenKind.ofWord?
  split <;> rfl

/-- A text that does not begin with a character has another one first, or none. -/
theorem head?_ne {d : Char} (other : ∀ more, rest = d :: more → False) : rest.head? ≠ some d := by
  intro begins
  obtain ⟨more, same⟩ := List.head?_eq_some_iff.mp begins
  exact other more same

/-- What follows a slash: a comment of either form, or the sign for division. A line comment stops in front of
its line feed, which the next step takes as a blank. -/
theorem slash_eq (ahead : Ahead source s ('/' :: rest)) :
    s.advance.slash source = s.emit source (Piece.afterSlash rest).1 := by
  unfold slash
  rw [ahead.advance.peek]
  fun_cases Piece.afterSlash rest with
  | case1 more =>
      have inside := advanceWhile_eq (p := (· != '\n')) rfl ahead.advance.advance
      rw [List.head?_cons, if_pos rfl, inside]
      rfl
  | case2 more inside after closed =>
      rw [List.head?_cons, if_neg (by simp), if_pos rfl, closeComment_some ahead.advance.advance _ closed]
      rfl
  | case3 more unclosed =>
      rw [List.head?_cons, if_neg (by simp), if_pos rfl, closeComment_none ahead.advance.advance _ unclosed]
      rfl
  | case4 _ notSlash notStar =>
      rw [if_neg (head?_ne notSlash), if_neg (head?_ne notStar)]
      rfl

/-- What follows a quote. The literal is cut out of the source between the two quotes, by offsets that lie one
inside those of the lexeme. -/
theorem string_eq (ahead : Ahead source s ('"' :: rest)) (begun : s.start = s.current) :
    s.advance.string source = s.emit source (Piece.afterQuote rest).1 := by
  have parts : rest.takeWhile (· != '"') ++ rest.dropWhile (· != '"') = rest := List.takeWhile_append_dropWhile
  have ends := ahead.advance.afterWhile (· != '"')
  unfold string
  simp only [toQuote_eq ahead.advance]
  fun_cases Piece.afterQuote rest with
  | case1 ended =>
      rw [ended, List.append_nil] at parts
      rw [ended, parts] at ends
      rw [parts, if_pos (ends.length_le.mpr rfl)]
      rfl
  | case2 quote after found =>
      have atQuote : Ahead source s.advance (rest.takeWhile (· != '"') ++ quote :: after) := by
        rw [← found, parts]
        exact ahead.advance
      have isQuote : quote = '"' := by
        have stopped := List.head?_dropWhile_not (· != '"') rest
        simpa [found] using stopped
      have inside := Ahead.slice_eq _ atQuote
      rw [found] at ends
      generalize rest.takeWhile (· != '"') = content at *
      have behind : (s.advance.consumeAll content).advance = s.consumeAll ('"' :: content ++ [quote]) := by
        rw [List.cons_append, consumeAll_cons, consumeAll_append, isQuote]
        rfl
      have unfinished : ¬ source.length ≤ (s.advance.consumeAll content).current := by
        rw [ends.length_le]
        simp
      -- the literal lies between the quotes, which are the first and the last character of the lexeme
      have first : (s.consumeAll ('"' :: content ++ [quote])).start + 1 = s.advance.current := by
        rw [(consumeAll_keeps _ _).1, begun]
        rfl
      have last : (s.consumeAll ('"' :: content ++ [quote])).current - 1 =
          (s.advance.consumeAll content).current := by
        rw [← behind]
        rfl
      rw [if_neg unfinished, behind, first, last, inside, emit]
      simp [PlacedPiece.literal]

/-- The text of a number, cut out of the source from its first digit on, is the text that was consumed. -/
theorem addToken_number {text : List Char} (ahead : Ahead source s (text ++ rest)) (begun : s.start = s.current) :
    (s.consumeAll text).addToken source .number (.number
      (Decimal.ofDigits (slice source (s.consumeAll text).start (s.consumeAll text).current)).toFloat) =
        s.emit source (.token .number text) := by
  rw [ahead.lexeme text begun]
  rfl

/-- What follows a digit. The point is looked at before it is passed, since it belongs to the number only if a
digit comes behind it. -/
theorem number_eq (ahead : Ahead source s (c :: rest)) (begun : s.start = s.current) (digit : isDigit c = true) :
    s.advance.number source = s.emit source (Piece.numberFrom c rest).1 := by
  have moved := s.consume_of_class c (isDigit · = true) digit (by decide)
  have loop := advanceWhile_eq (p := isDigit) (by decide) ahead.advance
  have ends := ahead.advance.afterWhile isDigit
  have covers : c :: rest = (c :: rest.takeWhile isDigit) ++ rest.dropWhile isDigit := by
    rw [List.cons_append, List.takeWhile_append_dropWhile]
  rw [← moved, ← consumeAll_cons] at loop ends
  unfold number
  rw [← moved]
  simp only [loop, ends.peek]
  fun_cases Piece.numberFrom c rest with
  | case1 whole d more found decimal =>
      rw [found] at ends covers
      have places := advanceWhile_eq (p := isDigit) (by decide) ends.advance
      rw [List.takeWhile_cons_of_pos decimal] at places
      have pointed : (s.consumeAll (c :: rest.takeWhile isDigit)).advance.consumeAll
          (d :: more.takeWhile isDigit) = s.consumeAll (whole ++ '.' :: d :: more.takeWhile isDigit) := by
        rw [consumeAll_append]
        rfl
      rw [found, ends.peekNext, if_pos ⟨rfl, decimal⟩, places, pointed]
      apply addToken_number _ begun
      · exact more.dropWhile isDigit
      · rw [covers] at ahead
        simpa [whole] using ahead
  | case2 whole d more found unpointed =>
      rw [found] at ends
      rw [ends.peekNext, if_neg (by simpa using fun _ => unpointed)]
      rw [covers] at ahead
      exact addToken_number ahead begun
  | case3 whole unpointed =>
      -- the machine looks at the character behind the point only if there is a point
      have short : ¬ ((rest.dropWhile isDigit).head? = some '.' ∧
          (source[(s.consumeAll (c :: rest.takeWhile isDigit)).current + 1]?).any isDigit = true) := by
        rintro ⟨point, place⟩
        obtain ⟨more, found⟩ := List.head?_eq_some_iff.mp point
        rw [found] at ends
        rw [ends.peekNext] at place
        cases more with
        | nil => cases place
        | cons d more => exact unpointed d more found
      rw [if_neg short]
      rw [covers] at ahead
      exact addToken_number ahead begun

/-- What follows the first letter of a name. Whether the word is reserved is asked of the text cut out of the
source. -/
theorem word_eq (ahead : Ahead source s (c :: rest)) (begun : s.start = s.current)
    (letter : isNameStart c = true) :
    s.advance.word source = s.emit source (Piece.wordFrom c rest).1 := by
  have whole : s.advance.consumeAll (rest.takeWhile isNamePart) =
      s.consumeAll (c :: rest.takeWhile isNamePart) := by
    rw [consumeAll_cons, s.consume_of_class c (isNameStart · = true) letter (by decide)]
  have lexeme : slice source (s.consumeAll (c :: rest.takeWhile isNamePart)).start
      (s.consumeAll (c :: rest.takeWhile isNamePart)).current = c :: rest.takeWhile isNamePart := by
    apply Ahead.lexeme _ _ begun
    · exact rest.dropWhile isNamePart
    · rwa [List.cons_append, List.takeWhile_append_dropWhile]
  unfold word
  simp only [advanceWhile_eq (p := isNamePart) (by decide) ahead.advance]
  rw [whole, lexeme, ← literal_of_word]
  rfl

/-- A line feed moves to the next line, and any other blank only moves on; both are what consuming the blank
does. -/
theorem blank_eq (notSlash : ¬ (c == '/') = true) (space : Piece.isSpace c = true) :
    s.advance.otherwise source c = s.consume c := by
  unfold otherwise consume
  rw [if_neg notSlash]
  by_cases feed : c = '\n'
  · simp [feed]
  · have blank : c ∈ [' ', '\r', '\t'] := by simpa [Piece.isSpace, feed, or_assoc] using space
    simp [feed, blank]

/-- The branches that are left when a character is no sign, no blank and no quote: a number, a word, or a fault
that is reported and passed over. -/
theorem otherwise_of_not_space (notSlash : ¬ (c == '/') = true) (notSpace : ¬ Piece.isSpace c = true)
    (notQuote : ¬ (c == '"') = true) : s.otherwise source c =
      if isDigit c then s.number source
      else if isNameStart c then s.word source
      else s.report s.line (.unexpected c) := by
  have notFeed : ¬ (c == '\n') = true := by
    intro feed
    exact notSpace (by simp [Piece.isSpace, feed])
  have notBlank : ¬ c ∈ [' ', '\r', '\t'] := by
    intro blank
    exact notSpace (by simpa [Piece.isSpace, notFeed, or_assoc] using blank)
  rw [otherwise, if_neg notSlash, if_neg notFeed, if_neg notBlank, if_neg notQuote]

/-- **One step of the machine.** The first piece of what is ahead is consumed, whichever branch the first
character leads to, and its token or its fault is added. One case for each form of piece. -/
theorem scanToken_eq (ahead : Ahead source s (c :: rest)) (begun : s.start = s.current) :
    s.scanToken source c = s.emit source (Piece.first c rest).1 := by
  unfold scanToken
  fun_cases Piece.first c rest with
  | case1 _ kind single =>
      have moved := s.consume_of_class c (Piece.singleSign? · = some kind) single nofun
      rw [single, emit, literal_of_single single, consumeAll_cons, moved]
      rfl
  | case2 notSingle alone lengthened sign more =>
      have moved := s.consume_of_class c (Piece.lengthenedSign? · = some (alone, lengthened)) sign nofun
      rw [notSingle, sign, emit, (literal_of_lengthened sign _).2, consumeAll_cons, moved]
      simp only [ahead.advance.peek, List.head?_cons, if_true]
      rfl
  | case3 _ notSingle alone lengthened sign notEqual =>
      have moved := s.consume_of_class c (Piece.lengthenedSign? · = some (alone, lengthened)) sign nofun
      rw [notSingle, sign, emit, (literal_of_lengthened sign _).1, consumeAll_cons, moved]
      simp only [ahead.advance.peek, if_neg (head?_ne notEqual)]
      rfl
  | case4 _ notSingle notSign slash =>
      cases eq_of_beq slash
      exact slash_eq ahead
  | case5 _ notSingle notSign notSlash space =>
      rw [notSingle, notSign]
      exact blank_eq notSlash space
  | case6 _ notSingle notSign notSlash notSpace quote =>
      cases eq_of_beq quote
      exact string_eq ahead begun
  | case7 _ notSingle notSign notSlash notSpace notQuote digit =>
      rw [notSingle, notSign, ← number_eq ahead begun digit]
      simp only [otherwise_of_not_space notSlash notSpace notQuote, if_pos digit]
  | case8 _ notSingle notSign notSlash notSpace notQuote notDigit letter =>
      rw [notSingle, notSign, ← word_eq ahead begun letter]
      simp only [otherwise_of_not_space notSlash notSpace notQuote, if_neg notDigit, if_pos letter]
  | case9 _ notSingle notSign notSlash notSpace notQuote notDigit notLetter =>
      have moved := s.consume_of_class c (¬ Piece.isSpace · = true) notSpace (by decide)
      rw [notSingle, notSign, emit, moved]
      simp only [otherwise_of_not_space notSlash notSpace notQuote, if_neg notDigit, if_neg notLetter]
      rfl

end Step

/-! ### Positions -/

/-- The machine stands at a position: on its line, and as far from the start of the line as its column says. -/
structure Placed (s : Scanner) (pos : Position) : Prop where
  line : s.line = pos.line
  column : s.lineStart + pos.column = s.current

section Positions

variable {source rest : List Char} {s : Scanner} {pos : Position}

/-- A line feed leads to the start of the next line, any other character one column further. The machine keeps
where its line begins, and the column is counted from there. -/
theorem Placed.consume (placed : s.Placed pos) (c : Char) : (s.consume c).Placed (pos.next c) := by
  obtain ⟨line, column⟩ := placed
  unfold Scanner.consume Position.next
  split
  · exact ⟨congrArg (· + 1) line, rfl⟩
  · exact ⟨line, congrArg (· + 1) column⟩

/-- Consuming a text leads to the position after it. By induction over the text, one `Placed.consume` for
each character. -/
theorem Placed.consumeAll (placed : s.Placed pos) (text : List Char) :
    (s.consumeAll text).Placed (pos.after text) := by
  induction text generalizing s pos with
  | nil => exact placed
  | cons c text ih => exact ih (placed.consume c)

/-- A text without a line feed leaves the line as it is. Any other one leads to a line that begins after the
place it was consumed from. -/
theorem consumeAll_line (s : Scanner) (text : List Char) :
    (s.consumeAll text).line = s.line ∧ (s.consumeAll text).lineStart = s.lineStart ∨
    s.line < (s.consumeAll text).line ∧ s.current < (s.consumeAll text).lineStart := by
  induction text generalizing s with
  | nil => exact .inl ⟨rfl, rfl⟩
  | cons c text ih =>
      have later := ih (s.consume c)
      rw [consumeAll_cons]
      by_cases feed : c = '\n'
      · have moved : s.consume c = s.advance.newline := if_pos feed
        rw [moved] at later ⊢
        simp only [newline, advance] at later ⊢
        omega
      · have moved : s.consume c = s.advance := if_neg feed
        rw [moved] at later ⊢
        simp only [advance] at later ⊢
        omega

/-- The column of a lexeme is that of its first character, unless the lexeme goes over several lines. -/
theorem column_eq (placed : s.Placed pos) (begun : s.start = s.current) (text : List Char) :
    (if ((s.consumeAll text).start : Int) - (s.consumeAll text).lineStart < 0 then none
      else some (((s.consumeAll text).start : Int) - (s.consumeAll text).lineStart)) =
      if (pos.after text).line = pos.line then some (pos.column : Int) else none := by
  have line := (placed.consumeAll text).line
  have column := placed.column
  rw [(consumeAll_keeps s text).1, begun, ← line, ← placed.line]
  rcases consumeAll_line s text with ⟨sameLine, sameStart⟩ | ⟨below, after⟩
  · rw [if_neg (by omega), if_pos sameLine, sameStart]
    congr 1
    omega
  · rw [if_pos (by omega), if_neg (by omega)]

end Positions

/-! ### A whole run -/

section Runs

variable {source rest after : List Char} {s : Scanner} {pos : Position} {p : Piece}

/-- Behind a piece that was scanned lies what followed it. Adding its token or its fault takes no character. -/
theorem Ahead.emit (ahead : Ahead source s (p.text ++ after)) : Ahead source (s.emit source p) after := by
  cases p with
  | blank c | stray c => exact ahead.consume
  | token _ text | lineComment text | blockComment text | openString text | openComment text =>
      exact ahead.consumeAll text

theorem current_emit (source : List Char) (s : Scanner) (p : Piece) :
    (s.emit source p).current = s.current + p.text.length := by
  cases p with
  | blank c | stray c => exact current_consume s c
  | token _ text | lineComment text | blockComment text | openString text | openComment text =>
      exact current_consumeAll s text

/-- Adding a token or a fault moves nothing, so a step leads to the position after its piece. -/
theorem Placed.emit (placed : s.Placed pos) : (s.emit source p).Placed (pos.after p.text) := by
  have behind := placed.consumeAll p.text
  cases p <;> exact ⟨behind.line, behind.column⟩

/-- A step adds the token of its piece, with the line that the piece ends on, and with the column it begins at
unless it goes over several lines. -/
theorem tokens_emit (placed : s.Placed pos) (begun : s.start = s.current)
    (ahead : Ahead source s (p.text ++ after)) : (s.emit source p).tokens.toList =
      s.tokens.toList ++ (PlacedPiece.token? ⟨pos, p⟩).toList := by
  have kept := (consumeAll_keeps s p.text).2.1
  cases p with
  | token kind text =>
      simp only [emit, addToken, PlacedPiece.token?, PlacedPiece.stop, Piece.text, column_eq placed begun text,
        ahead.lexeme text begun, (placed.consumeAll text).line, (consumeAll_keeps s text).2.1,
        Array.toList_push, Option.toList_some]
      rfl
  | blank | lineComment | blockComment | stray | openString | openComment =>
      exact (congrArg Array.toList kept).trans (List.append_nil _).symm

/-- A step adds the fault of its piece: a stray character and an open comment on the line they begin on, an open
string on the line it runs to. -/
theorem faults_emit (placed : s.Placed pos) : (s.emit source p).faults.toList =
      s.faults.toList ++ (PlacedPiece.fault? ⟨pos, p⟩).toList := by
  have kept := (consumeAll_keeps s p.text).2.2
  have added (line : Nat) (f : LexicalFault) : ((s.consumeAll p.text).report line f).faults.toList =
      s.faults.toList ++ [.onLine line f.message] := by
    rw [report, kept, Array.toList_push]
  cases p with
  | stray c => exact (added s.line (.unexpected c)).trans (by rw [placed.line]; rfl)
  | openString text =>
      exact (added _ .unterminatedString).trans (by rw [(placed.consumeAll _).line]; rfl)
  | openComment text => exact (added s.line .unterminatedComment).trans (by rw [placed.line]; rfl)
  | token | blank | lineComment | blockComment =>
      exact (congrArg Array.toList kept).trans (List.append_nil _).symm

/-- Begins a lexeme at the next character. -/
def beginLexeme (s : Scanner) : Scanner := { s with start := s.current }

theorem ahead_of_peek {c : Char} (peek : source[s.current]? = some c) :
    Ahead source s (c :: source.drop (s.current + 1)) := by
  obtain ⟨inside, rfl⟩ := List.getElem?_eq_some_iff.mp peek
  exact List.drop_eq_getElem_cons inside

/-- Every step takes at least one character, since no piece is empty. So the run ends on every source. -/
theorem current_scanToken {c : Char} (peek : source[s.current]? = some c) :
    s.current < (s.beginLexeme.scanToken source c).current := by
  have ahead : Ahead source s.beginLexeme _ := ahead_of_peek peek
  have found : Piece.first c (source.drop (s.current + 1)) = (_, _) := rfl
  have nonempty := (Piece.first_stands found).2.text_ne_nil
  have positive := List.length_pos_iff.mpr nonempty
  rw [scanToken_eq ahead rfl, current_emit]
  exact Nat.lt_add_of_pos_right positive

/-- Scans lexeme after lexeme up to the end of the source. -/
def scanAll (source : List Char) (s : Scanner) : Scanner :=
  match _ : source[s.current]? with
  | none => s
  | some c => scanAll source (s.beginLexeme.scanToken source c)
termination_by source.length - s.current
decreasing_by
  have peek : source[s.current]? = some c := ‹_›
  have inside := (List.getElem?_eq_some_iff.mp peek).1
  have further := current_scanToken peek
  omega

theorem scanAll_nil (ahead : Ahead source s []) : s.scanAll source = s := by
  rw [scanAll]
  split
  next => rfl
  next c peek =>
    rw [ahead.peek] at peek
    cases peek

/-- A run is its first step and the run from there on. With this the recursion on offsets is gone, and whole
runs are proved by induction over pieces. -/
theorem scanAll_cons {c : Char} (ahead : Ahead source s (c :: rest)) :
    s.scanAll source = (s.beginLexeme.emit source (Piece.first c rest).1).scanAll source := by
  rw [scanAll]
  split
  next peek =>
    rw [ahead.peek] at peek
    cases peek
  next d peek =>
    rw [ahead.peek] at peek
    cases peek
    have begun : Ahead source s.beginLexeme (c :: rest) := ahead
    rw [scanToken_eq begun rfl]

/-- What the first piece gives comes first, and the others are placed after its text. -/
theorem filterMap_ofPieces {α : Type} (f : PlacedPiece → Option α) (pos : Position) (p : Piece)
    (ps : List Piece) :
    (PlacedPiece.ofPieces pos (p :: ps)).filterMap f =
      (f ⟨pos, p⟩).toList ++ (PlacedPiece.ofPieces (pos.after p.text) ps).filterMap f := by
  rw [PlacedPiece.ofPieces, List.filterMap_cons]
  cases f ⟨pos, p⟩ <;> rfl

/-- **A whole run.** From a position on it adds the tokens and the faults of the pieces ahead, each
where its piece stands, and ends at the position after them. By induction over the pieces, with the
position as invariant. -/
theorem scanAll_eq {ps : List Piece} (splits : Piece.Splits rest ps) (ahead : Ahead source s rest)
    (placed : s.Placed pos) :
    (s.scanAll source).tokens.toList =
      s.tokens.toList ++ (PlacedPiece.ofPieces pos ps).filterMap PlacedPiece.token? ∧
    (s.scanAll source).faults.toList =
      s.faults.toList ++ (PlacedPiece.ofPieces pos ps).filterMap PlacedPiece.fault? ∧
    (s.scanAll source).Placed (pos.after rest) := by
  induction splits generalizing s pos with
  | nil =>
      rw [scanAll_nil ahead]
      simp [PlacedPiece.ofPieces, placed, Position.after]
  | @cons p after ps stands _ ih =>
      obtain ⟨c, text, begins⟩ := List.exists_cons_of_ne_nil stands.text_ne_nil
      have begun : Ahead source s.beginLexeme (p.text ++ after) := ahead
      have here : s.beginLexeme.Placed pos := ⟨placed.line, placed.column⟩
      have step : s.scanAll source = (s.beginLexeme.emit source p).scanAll source := by
        rw [begins, List.cons_append] at ahead
        rw [scanAll_cons ahead, Piece.first_eq_of_stands stands begins]
      obtain ⟨tokens, faults, stop⟩ := ih begun.emit here.emit
      rw [tokens_emit here rfl begun] at tokens
      rw [faults_emit here] at faults
      rw [step, tokens, faults, Position.after_append, filterMap_ofPieces, filterMap_ofPieces,
        List.append_assoc, List.append_assoc]
      exact ⟨rfl, rfl, stop⟩

end Runs

/-- The scan of a source, with the end token where the run stops. -/
def scan (source : List Char) : Scan :=
  let s := initial.scanAll source
  ⟨s.tokens.toList ++ [⟨.endOfInput, "", .nil, s.line, some (s.current - s.lineStart)⟩], s.faults.toList⟩

/-- **The machine agrees with the pieces.** The machine that keeps offsets gives exactly the tokens and the
faults that placing the pieces of the source gives, the end token included. -/
theorem scan_eq (source : List Char) : scan source = Scan.ofChars source := by
  have ahead : Ahead source initial source := rfl
  have placed : initial.Placed .start := ⟨rfl, rfl⟩
  obtain ⟨tokens, faults, stop⟩ := scanAll_eq (Piece.splits_split source) ahead placed
  have column : (((initial.scanAll source).current : Int) - (initial.scanAll source).lineStart) =
      (Position.start.after source).column := by
    have column := stop.column
    omega
  have ended : (⟨.endOfInput, "", .nil, (initial.scanAll source).line,
      some ((initial.scanAll source).current - (initial.scanAll source).lineStart)⟩ : Token) =
        Scan.endToken source := by
    rw [column, stop.line]
    rfl
  rw [scan, ended, tokens, faults]
  rfl

end Scanner

end Treewalk

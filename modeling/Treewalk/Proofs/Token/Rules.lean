import Treewalk.Proofs.Token.Joining

/-!
The lexical grammar by itself. `Piece.Lexeme kind text` lists the texts that are tokens of a kind, without
regard to what stands around them. From it, `Piece.Lexical p after` says what a piece may be in front of the
text `after`: a token is the longest lexeme there, a comment runs as far as its rule says, and what begins
none of these is a fault. No other condition holds the pieces apart, and yet every text can be cut in one
way only (`Piece.makesUp_iff`), the way that scanning cuts it.
-/

namespace Treewalk

open Text

namespace Piece

/-! ### Lexemes -/

/-- The signs and their spellings. -/
def signLexemes : List (TokenKind × List Char) := [
  (.leftParen, ['(']), (.rightParen, [')']), (.leftBrace, ['\x7b']), (.rightBrace, ['\x7d']),
  (.comma, [',']), (.dot, ['.']), (.minus, ['-']), (.plus, ['+']), (.semicolon, [';']),
  (.slash, ['/']), (.star, ['*']), (.question, ['?']), (.colon, [':']),
  (.bang, ['!']), (.bangEqual, ['!', '=']), (.equal, ['=']), (.equalEqual, ['=', '=']),
  (.greater, ['>']), (.greaterEqual, ['>', '=']), (.less, ['<']), (.lessEqual, ['<', '='])]

/-- The texts that are tokens of a kind. A word is a reserved one only as a whole. -/
inductive Lexeme : TokenKind → List Char → Prop where
  | sign {kind text} : (kind, text) ∈ signLexemes → Lexeme kind text
  | string {inside} : '"' ∉ inside → Lexeme .string ('"' :: inside ++ ['"'])
  | whole {digits} : digits ≠ [] → (∀ c ∈ digits, c ∈ decimals) → Lexeme .number digits
  | fraction {digits places} : digits ≠ [] → places ≠ [] → (∀ c ∈ digits, c ∈ decimals) →
      (∀ c ∈ places, c ∈ decimals) → Lexeme .number (digits ++ '.' :: places)
  | word {c word} : isNameStart c = true → (∀ d ∈ word, isNamePart d = true) →
      Lexeme (wordKind (c :: word)) (c :: word)

/-- How a sign is recognised by its first character. -/
inductive Sign : TokenKind → List Char → Prop where
  | single {c kind} : singleSign? c = some kind → Sign kind [c]
  | alone {c alone lengthened} : lengthenedSign? c = some (alone, lengthened) → Sign alone [c]
  | lengthened {c alone lengthened} : lengthenedSign? c = some (alone, lengthened) →
      Sign lengthened [c, '=']
  | slash : Sign .slash ['/']

/-- The table of signs holds exactly the signs of the grammar. -/
theorem mem_signLexemes_iff {kind : TokenKind} {text : List Char} :
    (kind, text) ∈ signLexemes ↔ Sign kind text := by
  constructor
  · intro listed
    simp only [signLexemes, List.mem_cons, List.not_mem_nil, or_false, Prod.mk.injEq] at listed
    rcases listed with ⟨rfl, rfl⟩ | ⟨rfl, rfl⟩ | ⟨rfl, rfl⟩ | ⟨rfl, rfl⟩ | ⟨rfl, rfl⟩ | ⟨rfl, rfl⟩ |
      ⟨rfl, rfl⟩ | ⟨rfl, rfl⟩ | ⟨rfl, rfl⟩ | ⟨rfl, rfl⟩ | ⟨rfl, rfl⟩ | ⟨rfl, rfl⟩ | ⟨rfl, rfl⟩ |
      ⟨rfl, rfl⟩ | ⟨rfl, rfl⟩ | ⟨rfl, rfl⟩ | ⟨rfl, rfl⟩ | ⟨rfl, rfl⟩ | ⟨rfl, rfl⟩ | ⟨rfl, rfl⟩ | ⟨rfl, rfl⟩
    case inr.inr.inr.inr.inr.inr.inr.inr.inr.inl => exact .slash
    all_goals first
      | exact .single rfl
      | exact .alone rfl
      | exact .lengthened rfl
  · intro sign
    cases sign with
    | single sign =>
        unfold singleSign? at sign
        split at sign <;> cases sign <;> decide
    | alone sign =>
        unfold lengthenedSign? at sign
        split at sign <;> cases sign <;> decide
    | lengthened sign =>
        unfold lengthenedSign? at sign
        split at sign <;> cases sign <;> decide
    | slash => decide

section Lexemes

variable {p : Piece} {kind kind' : TokenKind} {text after more : List Char}

/-- What stands in front of a text stands in front of its beginnings. A piece can only be lengthened by what
follows it, and less follows it there. -/
theorem Stands.shorten (stands : Stands p after) (shorter : more <+: after) : Stands p more := by
  have avoids {q : Char → Bool} {longer shorter : List Char} (begins : shorter <+: longer)
      (avoids : Avoids q longer) : Avoids q shorter := by
    obtain ⟨rest, rfl⟩ := begins
    cases shorter with
    | nil => exact avoids_nil
    | cons c shorter => exact avoids_cons.mpr (avoids_cons.mp avoids)
  cases stands with
  | single sign => exact .single sign
  | alone sign other => exact .alone sign (avoids shorter other)
  | lengthened sign => exact .lengthened sign
  | slash other => exact .slash (avoids shorter other)
  | string unquoted => exact .string unquoted
  | whole nonempty digits ended unpointed =>
      apply Stands.whole nonempty digits (avoids shorter ended)
      rintro rest rfl
      obtain ⟨others, rfl⟩ := shorter
      exact avoids (List.prefix_append rest others) (unpointed _ rfl)
  | fraction nonempty some digits places ended =>
      exact .fraction nonempty some digits places (avoids shorter ended)
  | word start word ended => exact .word start word (avoids shorter ended)
  | blank space => exact .blank space
  | lineComment unbroken ended => exact .lineComment unbroken (avoids shorter ended)
  | blockComment unclosed => exact .blockComment unclosed
  | stray stray => exact .stray stray
  | openString unquoted =>
      obtain rfl := List.prefix_nil.mp shorter
      exact .openString unquoted
  | openComment unclosed =>
      obtain rfl := List.prefix_nil.mp shorter
      exact .openComment unclosed

/-- A lexeme is what stands at the end of a text, where nothing can lengthen it. So the grammar of lexemes and
the rules of scanning are the same rules. -/
theorem lexeme_iff : Lexeme kind text ↔ Stands (.token kind text) [] := by
  constructor
  · intro lexeme
    cases lexeme with
    | sign listed =>
        cases mem_signLexemes_iff.mp listed with
        | single sign => exact .single sign
        | alone sign => exact .alone sign avoids_nil
        | lengthened sign => exact .lengthened sign
        | slash => exact .slash avoids_nil
    | string unquoted => exact .string unquoted
    | whole nonempty digits =>
        apply Stands.whole nonempty (fun c listed => isDigit_iff.mpr (digits c listed)) avoids_nil
        rintro rest ⟨⟩
    | fraction nonempty some digits places =>
        exact .fraction nonempty some (fun c listed => isDigit_iff.mpr (digits c listed))
          (fun c listed => isDigit_iff.mpr (places c listed)) avoids_nil
    | word start word => exact .word start word avoids_nil
  · intro stands
    cases stands with
    | single sign => exact .sign (mem_signLexemes_iff.mpr (.single sign))
    | alone sign => exact .sign (mem_signLexemes_iff.mpr (.alone sign))
    | lengthened sign => exact .sign (mem_signLexemes_iff.mpr (.lengthened sign))
    | slash => exact .sign (mem_signLexemes_iff.mpr .slash)
    | string unquoted => exact .string unquoted
    | whole nonempty digits => exact .whole nonempty fun c listed => isDigit_iff.mp (digits c listed)
    | fraction nonempty some digits places =>
        exact .fraction nonempty some (fun c listed => isDigit_iff.mp (digits c listed))
          fun c listed => isDigit_iff.mp (places c listed)
    | word start word => exact .word start word

/-- Whatever stands as a token is a lexeme of its kind. -/
theorem Stands.lexeme (stands : Stands (.token kind text) after) : Lexeme kind text :=
  lexeme_iff.mpr (stands.shorten List.nil_prefix)

/-- No lexeme of any kind is longer than the token that stands there. This is maximal munch: among all lexemes
that begin there, scanning takes the longest. -/
theorem Stands.longest (stands : Stands (.token kind text) after) (begins : more <+: after)
    (longer : Lexeme kind' (text ++ more)) : more = [] := by
  obtain ⟨c, rest, spelled⟩ := List.exists_cons_of_ne_nil (l := text) stands.text_ne_nil
  have short := first_eq_of_stands (stands.shorten begins) spelled
  have spelled' : (token kind' (text ++ more)).text = c :: (rest ++ more) := by simp [Piece.text, spelled]
  have long := first_eq_of_stands (lexeme_iff.mp longer) spelled'
  rw [List.append_nil, short] at long
  exact (Prod.mk.inj long).2

end Lexemes

/-! ### Pieces in their places -/

/-- A text that begins with the opening of a comment. -/
def OpensComment (text : List Char) : Prop :=
  ∃ more, text = '/' :: '/' :: more ∨ text = '/' :: '*' :: more

/-- `body` ends where the first end mark of a comment begins. -/
def ClosesFirst (body after : List Char) : Prop :=
  ∀ before rest, body ++ '*' :: '/' :: after = before ++ '*' :: '/' :: rest → body.length ≤ before.length

/-- What a piece may be in front of a text. -/
inductive Lexical : Piece → List Char → Prop where
  /-- A token is the longest lexeme of all, and begins no comment. -/
  | token {kind text after} : Lexeme kind text →
      (∀ more kind', more <+: after → Lexeme kind' (text ++ more) → more = []) →
      ¬ OpensComment (text ++ after) → Lexical (.token kind text) after
  | blank {c after} : c ∈ spaces → Lexical (.blank c) after
  /-- Up to a line feed, which is left out, or to the end. -/
  | lineComment {inside after} : '\n' ∉ inside → (∀ c ∈ after.head?, c = '\n') →
      Lexical (.lineComment ('/' :: '/' :: inside)) after
  /-- Up to the first end mark that lies wholly behind the opening. -/
  | blockComment {body after} : ClosesFirst body after →
      Lexical (.blockComment ('/' :: '*' :: (body ++ ['*', '/']))) after
  /-- A character that begins nothing else. -/
  | stray {c after} : (∀ kind text, ¬ Lexeme kind (c :: text)) → c ∉ spaces → Lexical (.stray c) after
  /-- Open up to the end of the text. -/
  | openString {inside} : '"' ∉ inside → Lexical (.openString ('"' :: inside)) []
  | openComment {inside} : Unclosed inside → Lexical (.openComment ('/' :: '*' :: inside)) []

/-- A comment whose text holds no end mark is closed by the first one. The star in front of the mark is part of
the condition, since it could begin an earlier mark. -/
theorem unclosed_iff {body after : List Char} : Unclosed (body ++ ['*']) ↔ ClosesFirst body after := by
  constructor
  · intro unclosed before rest same
    apply Nat.le_of_not_lt
    intro sooner
    -- an earlier end mark would lie within the body and the star behind it
    have marked : before ++ ['*', '/'] <+: body ++ ['*'] := by
      have early : before ++ ['*', '/'] <+: body ++ '*' :: '/' :: after := by
        rw [same]
        exact ⟨rest, by simp⟩
      have late : body ++ ['*'] <+: body ++ '*' :: '/' :: after := ⟨'/' :: after, by simp⟩
      apply List.prefix_of_prefix_length_le early late
      simp only [List.length_append, List.length_cons, List.length_nil]
      omega
    exact unclosed ((List.suffix_append before _).isInfix.trans marked.isInfix)
  · rintro first ⟨before, rest, inside⟩
    have lengths := congrArg List.length inside
    simp only [List.length_append, List.length_cons, List.length_nil] at lengths
    have same : body ++ '*' :: '/' :: after = before ++ '*' :: '/' :: (rest ++ '/' :: after) := by
      calc body ++ '*' :: '/' :: after = (body ++ ['*']) ++ '/' :: after := by simp
        _ = (before ++ ['*', '/'] ++ rest) ++ '/' :: after := by rw [inside]
        _ = before ++ '*' :: '/' :: (rest ++ '/' :: after) := by simp
    have later := first before _ same
    omega

/-- No token stands where a comment opens, since a slash in front of a slash or of a star is no sign
by itself. -/
theorem not_opensComment {kind : TokenKind} {text after : List Char} (stands : Stands (.token kind text) after) :
    ¬ OpensComment (text ++ after) := by
  obtain ⟨c, rest, spelled⟩ := List.exists_cons_of_ne_nil (l := text) stands.text_ne_nil
  have found := first_eq_of_stands stands spelled
  rw [spelled, List.cons_append]
  rintro ⟨more, opened | opened⟩
  · obtain ⟨rfl, begins⟩ := List.cons.inj opened
    rw [begins, first_slash, afterSlash] at found
    cases found
  · obtain ⟨rfl, begins⟩ := List.cons.inj opened
    rw [begins, first_slash, afterSlash] at found
    split at found <;> cases found

/-- A character that no rule takes is no blank and begins no lexeme. So exactly the characters that could begin
nothing are reported by themselves. -/
theorem stray_iff {c : Char} : Stray c ↔ (∀ kind text, ¬ Lexeme kind (c :: text)) ∧ c ∉ spaces := by
  constructor
  · intro stray
    constructor
    · intro kind text lexeme
      have found := first_eq_of_stands (lexeme_iff.mp lexeme) rfl
      rw [first_stray stray] at found
      cases found
    · intro space
      have never := stray.space
      rw [isSpace_iff.mpr space] at never
      cases never
  · rintro ⟨never, unspaced⟩
    have unsigned {kind : TokenKind} {text : List Char} : ¬ Sign kind (c :: text) := fun sign =>
      never kind text (.sign (mem_signLexemes_iff.mpr sign))
    refine ⟨?_, ?_, ?_, ?_, ?_, ?_, ?_⟩
    · exact Option.eq_none_iff_forall_ne_some.mpr fun kind sign => unsigned (.single sign)
    · exact Option.eq_none_iff_forall_ne_some.mpr fun kinds sign => unsigned (.alone sign)
    · rintro rfl
      exact unsigned .slash
    · exact Bool.eq_false_iff.mpr fun space => unspaced (isSpace_iff.mp space)
    · rintro rfl
      exact never .string ['"'] (@Lexeme.string [] (by simp))
    · refine Bool.eq_false_iff.mpr fun digit => never .number [] (.whole (by simp) ?_)
      simpa using isDigit_iff.mp digit
    · exact Bool.eq_false_iff.mpr fun start => never _ [] (.word start (by simp))

/-- A lexeme that nothing lengthens stands where it is, unless a comment opens there. With `Stands.longest` this
makes standing and being longest the same. -/
theorem stands_of_longest {kind : TokenKind} {text after : List Char} (lexeme : Lexeme kind text)
    (longest : ∀ more kind', more <+: after → Lexeme kind' (text ++ more) → more = [])
    (unopened : ¬ OpensComment (text ++ after)) : Stands (.token kind text) after := by
  -- whatever could come next would make a longer lexeme
  have avoids {q : Char → Bool} (longer : ∀ c, q c = true → ∃ kind', Lexeme kind' (text ++ [c])) :
      Avoids q after := by
    intro c begins
    apply Bool.eq_false_iff.mpr
    intro taken
    obtain ⟨kind', lexeme'⟩ := longer c taken
    obtain ⟨rest, rfl⟩ : ∃ rest, after = c :: rest := List.head?_eq_some_iff.mp begins
    cases longest [c] kind' ⟨rest, rfl⟩ lexeme'
  cases lexeme with
  | sign listed =>
      cases mem_signLexemes_iff.mp listed with
      | single sign => exact .single sign
      | @alone c alone lengthened sign =>
          apply Stands.alone sign
          apply avoids
          intro d equals
          obtain rfl := eq_of_beq equals
          exact ⟨lengthened, .sign (mem_signLexemes_iff.mpr (.lengthened sign))⟩
      | lengthened sign => exact .lengthened sign
      | slash =>
          apply Stands.slash
          intro c begins
          obtain ⟨rest, rfl⟩ : ∃ rest, after = c :: rest := List.head?_eq_some_iff.mp begins
          apply Bool.eq_false_iff.mpr
          intro opens
          rcases Bool.or_eq_true_iff.mp opens with slash | star
          · obtain rfl := eq_of_beq slash
            exact unopened ⟨rest, .inl rfl⟩
          · obtain rfl := eq_of_beq star
            exact unopened ⟨rest, .inr rfl⟩
  | string unquoted => exact .string unquoted
  | whole nonempty digits =>
      have digits' : ∀ c ∈ text, isDigit c = true := fun c listed => isDigit_iff.mpr (digits c listed)
      apply Stands.whole nonempty digits'
      · refine avoids fun c digit => ⟨.number, .whole (by simp) ?_⟩
        simpa [or_imp, forall_and] using ⟨digits, isDigit_iff.mp digit⟩
      · rintro rest rfl c begins
        obtain ⟨others, rfl⟩ : ∃ others, rest = c :: others := List.head?_eq_some_iff.mp begins
        apply Bool.eq_false_iff.mpr
        intro digit
        have longer : Lexeme .number (text ++ '.' :: [c]) :=
          .fraction nonempty (by simp) digits (by simpa using isDigit_iff.mp digit)
        cases longest ['.', c] .number ⟨others, rfl⟩ longer
  | @fraction whole places nonempty some digits decimal =>
      have digits' : ∀ c ∈ whole, isDigit c = true := fun c listed => isDigit_iff.mpr (digits c listed)
      have decimal' : ∀ c ∈ places, isDigit c = true := fun c listed => isDigit_iff.mpr (decimal c listed)
      apply Stands.fraction nonempty some digits' decimal'
      refine avoids fun c digit => ⟨.number, ?_⟩
      rw [List.append_assoc, List.cons_append]
      refine .fraction nonempty (by simp) digits ?_
      simpa [or_imp, forall_and] using ⟨decimal, isDigit_iff.mp digit⟩
  | word start word =>
      apply Stands.word start word
      refine avoids fun c part => ⟨_, .word start ?_⟩
      simpa [or_imp, forall_and] using ⟨word, part⟩

/-- What stands in front of a text is what the grammar has there. One case for each kind of piece. -/
theorem stands_iff {p : Piece} {after : List Char} : Stands p after ↔ Lexical p after := by
  constructor
  · intro stands
    have token {kind : TokenKind} {text : List Char} (stands : Stands (.token kind text) after) :
        Lexical (.token kind text) after :=
      .token stands.lexeme (fun _ _ begins => stands.longest begins) (not_opensComment stands)
    cases stands with
    | single sign => exact token (.single sign)
    | alone sign other => exact token (.alone sign other)
    | lengthened sign => exact token (.lengthened sign)
    | slash other => exact token (.slash other)
    | string unquoted => exact token (.string unquoted)
    | whole nonempty digits ended unpointed => exact token (.whole nonempty digits ended unpointed)
    | fraction nonempty some digits places ended => exact token (.fraction nonempty some digits places ended)
    | word start word ended => exact token (.word start word ended)
    | blank space => exact .blank (isSpace_iff.mp space)
    | lineComment unbroken ended =>
        exact .lineComment unbroken fun c begins => by simpa using ended c begins
    | blockComment unclosed => exact .blockComment (unclosed_iff.mp unclosed)
    | stray stray => exact .stray (stray_iff.mp stray).1 (stray_iff.mp stray).2
    | openString unquoted => exact .openString unquoted
    | openComment unclosed => exact .openComment unclosed
  · intro lexical
    cases lexical with
    | token lexeme longest unopened => exact stands_of_longest lexeme longest unopened
    | blank space => exact .blank (isSpace_iff.mpr space)
    | lineComment unbroken ended =>
        exact .lineComment unbroken fun c begins => by simpa using ended c begins
    | blockComment first => exact .blockComment (unclosed_iff.mpr first)
    | stray never unspaced => exact .stray (stray_iff.mpr ⟨never, unspaced⟩)
    | openString unquoted => exact .openString unquoted
    | openComment unclosed => exact .openComment unclosed

/-! ### Whole texts -/

/-- Pieces that make up a text, each of them as the grammar has it in front of those behind it. -/
structure MakesUp (ps : List Piece) (source : List Char) : Prop where
  text : ps.flatMap text = source
  lexical : ∀ before p behind, ps = before ++ p :: behind → Lexical p (behind.flatMap Piece.text)

/-- A text is made up of a first piece and of the pieces of the rest, and the first piece has to fit what
follows it. -/
theorem makesUp_cons {p : Piece} {ps : List Piece} {source : List Char} :
    MakesUp (p :: ps) (p.text ++ source) ↔ Lexical p source ∧ MakesUp ps source := by
  constructor
  · rintro ⟨whole, lexical⟩
    have behind : ps.flatMap text = source := List.append_cancel_left whole
    refine ⟨behind ▸ lexical [] p ps rfl, behind, ?_⟩
    rintro before q others rfl
    exact lexical (p :: before) q others rfl
  · rintro ⟨here, behind, lexical⟩
    refine ⟨by rw [List.flatMap_cons, behind], ?_⟩
    intro before q others same
    cases before with
    | nil =>
        obtain ⟨rfl, rfl⟩ := List.cons.inj same
        rwa [behind]
    | cons first before =>
        obtain ⟨rfl, rfl⟩ := List.cons.inj same
        exact lexical before q others rfl

/-- Splitting a text is making it up from pieces by the grammar. -/
theorem splits_iff {ps : List Piece} {source : List Char} : Splits source ps ↔ MakesUp ps source := by
  constructor
  · intro splits
    induction splits with
    | nil => exact ⟨rfl, fun before p behind same => by simp at same⟩
    | cons stands _ ih => exact makesUp_cons.mpr ⟨stands_iff.mp stands, ih⟩
  · intro makesUp
    induction ps generalizing source with
    | nil =>
        obtain rfl := makesUp.text
        exact .nil
    | cons p ps ih =>
        obtain rfl := makesUp.text
        rw [List.flatMap_cons] at makesUp ⊢
        obtain ⟨here, behind⟩ := makesUp_cons.mp makesUp
        exact .cons (stands_iff.mpr here) (ih behind)

/-- The grammar cuts a text in one way only, the way in which it is split. This joins the statement about the
grammar to what scanning computes. -/
theorem makesUp_iff {ps : List Piece} {source : List Char} : MakesUp ps source ↔ ps = split source := by
  rw [← splits_iff]
  constructor
  · exact fun splits => (split_eq_of_splits splits).symm
  · rintro rfl
    exact splits_split source

/-- A point without a digit behind it is no part of a number, three signs in a row are cut after the longest,
and the star of an opening does not also close the comment. -/
example : split ['1', '.', '.', '2', '!', '=', '=', '/', '*', '/'] = [.token .number ['1'], .token .dot ['.'],
    .token .dot ['.'], .token .number ['2'], .token .bangEqual ['!', '='], .token .equal ['='],
    .openComment ['/', '*', '/']] := by
  decide

/-! ### Faults -/

/-- The fault of a piece that is no part of the language. -/
def fault? : Piece → Option LexicalFault
  | .stray c => some (.unexpected c)
  | .openString _ => some .unterminatedString
  | .openComment _ => some .unterminatedComment
  | _ => none

end Piece

theorem PlacedPiece.map_message_fault? (p : PlacedPiece) :
    p.fault?.map Diagnostic.message = p.piece.fault?.map LexicalFault.message := by
  obtain ⟨start, piece⟩ := p
  cases piece <;> rfl

/-- The messages of diagnostics are those of the faulty pieces, in their order. -/
theorem PlacedPiece.map_message_ofPieces (pos : Position) (ps : List Piece) :
    ((ofPieces pos ps).filterMap fault?).map Diagnostic.message =
      (ps.filterMap Piece.fault?).map LexicalFault.message := by
  calc ((ofPieces pos ps).filterMap fault?).map Diagnostic.message
      = (ofPieces pos ps).filterMap fun p => p.piece.fault?.map LexicalFault.message := by
        rw [List.map_filterMap]
        simp only [map_message_fault?]
    _ = ((ofPieces pos ps).map piece).filterMap fun p => p.fault?.map LexicalFault.message := by
        rw [List.filterMap_map]
        rfl
    _ = (ps.filterMap Piece.fault?).map LexicalFault.message := by
        rw [map_piece_ofPieces, List.map_filterMap]

namespace Scan

/-- **Scanning follows the lexical grammar.** The pieces that the lexical grammar cuts a source into are
determined by it. Scanning gives a token for each of them that is one, with the same text, and one diagnostic
for each that is a fault, both in the order of the source; all that it passes over are blanks and comments. -/
theorem scans_by_lexical_rules (source : String) : ∃ ps : List Piece,
    Piece.MakesUp ps source.toList ∧ (∀ qs, Piece.MakesUp qs source.toList → qs = ps) ∧
    (ofSource source).tokens.map Token.content = ps.filterMap Piece.content? ++ [(.endOfInput, "", .nil)] ∧
    (ofSource source).faults.map Diagnostic.message = (ps.filterMap Piece.fault?).map LexicalFault.message ∧
    ∀ d ∈ (ofSource source).faults, d.site = .line := by
  refine ⟨Piece.split source.toList, Piece.makesUp_iff.mpr rfl, fun qs => Piece.makesUp_iff.mp, ?_, ?_, ?_⟩
  · rw [ofSource, tokens_ofChars, List.map_append, PlacedPiece.map_content_ofPieces]
    rfl
  · rw [ofSource, faults_ofChars, PlacedPiece.map_message_ofPieces]
  · exact fun d listed => site_of_mem_faults listed

end Scan

end Treewalk

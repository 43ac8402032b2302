import Treewalk.Proofs.Token
import Treewalk.Proofs.Token.Lexical

/-!
Scanning survives rescanning. The text of a token is read as that token again in front of a blank or at
the end of the input, whatever came after it before. So the lexemes of a source with one blank between
any two fall into the same tokens, whatever else there was in the source.
-/

namespace Treewalk

open Text

namespace Piece

/-- A token is not lengthened by a blank, nor by the end of the input. -/
theorem Stands.spaced {kind : TokenKind} {text before after : List Char}
    (stands : Stands (.token kind text) before) (spaced : ∀ c ∈ after.head?, c = ' ') :
    Stands (.token kind text) after := by
  have avoids {p : Char → Bool} (never : p ' ' = false) : Avoids p after := by
    intro c begins
    rw [spaced c begins]
    exact never
  cases stands with
  | single sign => exact .single sign
  | alone sign => exact .alone sign (avoids rfl)
  | lengthened sign => exact .lengthened sign
  | slash => exact .slash (avoids rfl)
  | string unquoted => exact .string unquoted
  | whole nonempty digits =>
      apply Stands.whole nonempty digits (avoids (by decide))
      rintro rest rfl
      exact absurd (spaced '.' rfl) (by decide)
  | fraction nonempty some digits places => exact .fraction nonempty some digits places (avoids (by decide))
  | word start word => exact .word start word (avoids (by decide))

theorem singleSign?_ne_endOfInput (c : Char) : singleSign? c ≠ some .endOfInput := by
  unfold singleSign?
  split <;> simp

theorem lengthenedSign?_ne_endOfInput {c : Char} {alone lengthened : TokenKind}
    (sign : lengthenedSign? c = some (alone, lengthened)) :
    alone ≠ .endOfInput ∧ lengthened ≠ .endOfInput := by
  unfold lengthenedSign? at sign
  split at sign <;> cases sign <;> decide

theorem wordKind_ne_endOfInput (word : List Char) : wordKind word ≠ .endOfInput := by
  unfold wordKind TokenKind.ofWord?
  split <;> simp

/-- No token but the last one is an end token, since no rule gives a piece of that kind. -/
theorem Stands.kind_ne_endOfInput {kind : TokenKind} {text after : List Char}
    (stands : Stands (.token kind text) after) : kind ≠ .endOfInput := by
  cases stands with
  | single sign =>
      rintro rfl
      exact singleSign?_ne_endOfInput _ sign
  | alone sign => exact (lengthenedSign?_ne_endOfInput sign).1
  | lengthened sign => exact (lengthenedSign?_ne_endOfInput sign).2
  | slash | string | whole | fraction => decide
  | word => exact wordKind_ne_endOfInput _

/-- The pieces of a row that are tokens. -/
def tokens (ps : List Piece) : List Piece := ps.filter fun p => p.content?.isSome

/-- The tokens of a row are pieces of the row. -/
theorem mem_tokens {ps : List Piece} {p : Piece} (listed : p ∈ tokens ps) :
    p ∈ ps ∧ ∃ kind text, p = .token kind text := by
  obtain ⟨member, token⟩ := List.mem_filter.mp listed
  refine ⟨member, ?_⟩
  cases p with
  | token kind text => exact ⟨kind, text, rfl⟩
  | blank | lineComment | blockComment | stray | openString | openComment =>
      simp [content?] at token

/-- Leaving out what is no token changes nothing that is said. -/
theorem filterMap_content?_tokens (ps : List Piece) :
    (tokens ps).filterMap content? = ps.filterMap content? := by
  unfold tokens
  rw [List.filterMap_filter]
  congr 1
  funext p
  cases p.content? <;> rfl

/-- Tokens that stand somewhere make up their texts with one blank between any two. By induction over the row,
each token being followed by a blank or by nothing. -/
theorem splits_intersperse {ps : List Piece} (tokens : ∀ p ∈ ps, ∃ kind text, p = .token kind text)
    (stand : ∀ p ∈ ps, ∃ before, Stands p before) :
    Splits ((ps.intersperse (.blank ' ')).flatMap text) (ps.intersperse (.blank ' ')) := by
  induction ps with
  | nil => exact .nil
  | cons p ps ih =>
      obtain ⟨kind, content, rfl⟩ := tokens p (by simp)
      obtain ⟨before, stands⟩ := stand _ (List.mem_cons_self ..)
      have others := ih (fun q listed => tokens q (by simp [listed]))
        (fun q listed => stand q (by simp [listed]))
      cases ps with
      | nil => exact .cons (stands.spaced (by simp)) .nil
      | cons q ps =>
          rw [List.intersperse_cons_cons, List.flatMap_cons, List.flatMap_cons]
          apply Splits.cons
          · exact stands.spaced (by simp [text])
          · exact .cons (.blank rfl) others

/-- Blanks between pieces say nothing, so the tokens of the row are those of the pieces. -/
theorem filterMap_content?_intersperse (ps : List Piece) :
    (ps.intersperse (.blank ' ')).filterMap content? = ps.filterMap content? := by
  induction ps with
  | nil => rfl
  | cons p ps ih =>
      cases ps with
      | nil => rfl
      | cons q ps =>
          have unsaid : content? (.blank ' ') = none := rfl
          rw [List.intersperse_cons_cons]
          simp only [List.filterMap_cons (a := p), List.filterMap_cons_none unsaid, ih]

/-- The text of pieces with one piece between any two is their texts, joined by its text. -/
theorem flatMap_text_intersperse (ps : List Piece) (sep : Piece) :
    (ps.intersperse sep).flatMap text = sep.text.intercalate (ps.map text) := by
  unfold List.intercalate
  induction ps with
  | nil => rfl
  | cons p ps ih =>
      cases ps with
      | nil => rfl
      | cons q ps =>
          rw [List.intersperse_cons_cons, List.flatMap_cons, List.flatMap_cons, ih]
          simp [List.intersperse_cons_cons]

/-- The lexemes of tokens are the texts of their pieces. -/
theorem map_toList_content? (ps : List Piece) :
    (ps.filterMap content?).map (fun content => content.2.1.toList) = (tokens ps).map text := by
  induction ps with
  | nil => rfl
  | cons p ps ih =>
      cases p with
      | token kind word =>
          show (String.ofList word).toList :: _ = word :: _
          rw [String.toList_ofList, ih]
          rfl
      | blank | lineComment | blockComment | stray | openString | openComment => exact ih

theorem mem_intersperse {ps : List Piece} {p sep : Piece} (listed : p ∈ ps.intersperse sep) :
    p ∈ ps ∨ p = sep := by
  induction ps with
  | nil => cases listed
  | cons q ps ih =>
      cases ps with
      | nil => exact .inl listed
      | cons r ps =>
          rw [List.intersperse_cons_cons, List.mem_cons, List.mem_cons] at listed
          rcases listed with rfl | rfl | later
          · exact .inl (by simp)
          · exact .inr rfl
          · exact (ih later).imp_left (List.mem_cons_of_mem _)

/-- Every piece of a text stands somewhere in it, in front of the pieces that follow it. -/
theorem Splits.stands_of_mem {source : List Char} {ps : List Piece} (splits : Splits source ps)
    {p : Piece} (listed : p ∈ ps) : ∃ after, Stands p after := by
  induction splits with
  | nil => cases listed
  | cons stands _ ih =>
      rcases List.mem_cons.mp listed with rfl | later
      · exact ⟨_, stands⟩
      · exact ih later

end Piece

namespace Scan

/-- The tokens of a scan but its end token. -/
def words (s : Scan) : List Token := s.tokens.filter fun t => t.kind != .endOfInput

/-- The lexemes of a scan with one blank between any two. -/
def spacedLexemes (s : Scan) : String := " ".intercalate (s.words.map Token.lexeme)

/-- Every token but the last one is a piece of the source. -/
theorem stands_of_mem {source : List Char} {t : Token}
    (listed : t ∈ (PlacedPiece.ofPieces .start (Piece.split source)).filterMap PlacedPiece.token?) :
    ∃ after, Piece.Stands (.token t.kind t.lexeme.toList) after := by
  have content : t.content ∈ (Piece.split source).filterMap Piece.content? := by
    rw [← PlacedPiece.map_content_ofPieces .start]
    exact List.mem_map_of_mem listed
  obtain ⟨p, member, same⟩ := List.mem_filterMap.mp content
  obtain ⟨after, stands⟩ := (Piece.splits_split source).stands_of_mem member
  cases p with
  | token kind text =>
      simp only [Piece.content?, Token.content, Option.some.injEq, Prod.mk.injEq] at same
      rw [← same.1, ← same.2.1, String.toList_ofList]
      exact ⟨after, stands⟩
  | blank | lineComment | blockComment | stray | openString | openComment => cases same

theorem kind_ne_endOfInput_of_mem {source : List Char} {t : Token}
    (listed : t ∈ (PlacedPiece.ofPieces .start (Piece.split source)).filterMap PlacedPiece.token?) :
    t.kind ≠ .endOfInput := by
  obtain ⟨after, stands⟩ := stands_of_mem listed
  exact stands.kind_ne_endOfInput

/-- The tokens of a source but the end token are those of its pieces. -/
theorem words_ofChars (source : List Char) : (ofChars source).words =
    (PlacedPiece.ofPieces .start (Piece.split source)).filterMap PlacedPiece.token? := by
  rw [words, tokens_ofChars, List.filter_append, List.filter_eq_self.mpr]
  · simp [endToken]
  · intro t listed
    simpa using kind_ne_endOfInput_of_mem listed

/-- What the tokens of a source say is what its pieces say. -/
theorem map_content_words (source : List Char) :
    (ofChars source).words.map Token.content = (Piece.split source).filterMap Piece.content? := by
  rw [words_ofChars, PlacedPiece.map_content_ofPieces]

/-- The pieces of spaced lexemes are the tokens of the source and the blanks between them, and nothing else. -/
theorem split_spacedLexemes (source : List Char) : Piece.split (ofChars source).spacedLexemes.toList =
    (Piece.tokens (Piece.split source)).intersperse (.blank ' ') := by
  have lexemes : ((ofChars source).words.map Token.lexeme).map String.toList =
      (Piece.tokens (Piece.split source)).map Piece.text := by
    rw [← Piece.map_toList_content?, ← map_content_words]
    simp [Token.content]
  have joined : (ofChars source).spacedLexemes.toList =
      ((Piece.tokens (Piece.split source)).intersperse (.blank ' ')).flatMap Piece.text := by
    rw [spacedLexemes, String.toList_intercalate, lexemes, Piece.flatMap_text_intersperse]
    rfl
  rw [joined]
  apply Piece.split_eq_of_splits
  apply Piece.splits_intersperse
  · exact fun p listed => (Piece.mem_tokens listed).2
  · exact fun p listed => (Piece.splits_split source).stands_of_mem (Piece.mem_tokens listed).1

/-- **Lexemes survive rescanning.** The lexemes of a source, with one blank between any two, scan without a
fault to tokens that say the same in the same order. -/
theorem rescan_spacedLexemes (source : String) :
    (ofSource (ofSource source).spacedLexemes).faults = [] ∧
    ∃ copies last, (ofSource (ofSource source).spacedLexemes).tokens = copies ++ [last] ∧
      last.kind = .endOfInput ∧
      copies.map Token.content = (ofSource source).words.map Token.content := by
  have split := split_spacedLexemes source.toList
  constructor
  · rw [ofSource, faults_ofChars, ofSource, split, PlacedPiece.faults_ofPieces_eq_nil_iff]
    intro p listed
    rcases Piece.mem_intersperse listed with member | rfl
    · obtain ⟨-, kind, text, rfl⟩ := Piece.mem_tokens member
      rfl
    · rfl
  · refine ⟨_, _, tokens_ofChars _, rfl, ?_⟩
    rw [PlacedPiece.map_content_ofPieces, ofSource, split, Piece.filterMap_content?_intersperse,
      Piece.filterMap_content?_tokens, map_content_words]

end Scan

end Treewalk

import Mathlib.Data.List.DropRight
import Treewalk.Proofs.Token.Joining
import Treewalk.Proofs.Token.Machine

/-!
Where tokens stand. `Token.StandsAt` ties a token to an offset of its source: the lexeme begins there, the
line counts the line feeds up to its end, and the column counts the characters of its line before it. The
position that scanning carries along is the line and column of the text consumed so far, whatever pieces
it fell into, so every token of a source stands at the offset of its piece. The machine that keeps offsets and
the start of its line in place of a position finds the same tokens and faults.
-/

namespace Treewalk

open Text

/-- What follows the last line feed of a text. -/
def Text.lastLine (text : List Char) : List Char := text.rtakeWhile (· != '\n')

namespace Text

theorem lineFeeds_append (text more : List Char) :
    lineFeeds (text ++ more) = lineFeeds text + lineFeeds more :=
  List.count_append

theorem lineFeeds_eq_zero {text : List Char} : lineFeeds text = 0 ↔ '\n' ∉ text :=
  List.count_eq_zero

/-- A line feed at the end is one line more. -/
theorem lineFeeds_concat (text : List Char) (c : Char) :
    lineFeeds (text ++ [c]) = if c = '\n' then lineFeeds text + 1 else lineFeeds text := by
  rw [lineFeeds_append]
  by_cases feed : c = '\n'
  · simp [lineFeeds, feed]
  · simp [lineFeeds, feed]

/-- A line feed at the end begins an empty line, and any other character lengthens the last one. -/
theorem lastLine_concat (text : List Char) (c : Char) :
    lastLine (text ++ [c]) = if c = '\n' then [] else lastLine text ++ [c] := by
  unfold lastLine
  rw [List.rtakeWhile_concat]
  simp

end Text

/-- Line and column of a position, by the text before it: the line feeds are counted, and the last line is
measured. By induction over the text from its end. -/
theorem Position.start_after (text : List Char) :
    Position.start.after text = ⟨1 + lineFeeds text, (lastLine text).length⟩ := by
  induction text using List.reverseRecOn with
  | nil => rfl
  | append_singleton text c ih =>
      have step : Position.start.after (text ++ [c]) = (Position.start.after text).next c :=
        Position.after_append ..
      rw [step, ih, lineFeeds_concat, lastLine_concat]
      unfold Position.next
      by_cases feed : c = '\n'
      · simp [feed, Nat.add_assoc]
      · simp [feed]

/-- A token stands at an offset of a source, and its line and column say so. -/
structure Token.StandsAt (t : Token) (source : List Char) (offset : Nat) : Prop where
  nonempty : t.lexeme ≠ ""
  lexeme : (source.drop offset).take t.lexeme.length = t.lexeme.toList
  /-- The line that the lexeme ends on. -/
  line : t.line = (1 + lineFeeds (source.take (offset + t.lexeme.length)) : Nat)
  /-- The column is missing exactly when the lexeme goes over several lines. -/
  column : t.column =
    if '\n' ∈ t.lexeme.toList then none else some ((lastLine (source.take offset)).length : Int)

/-- One token begins after the other one, and not before it ends. -/
def Token.Apart (a b : Nat × Token) : Prop := a.1 < b.1 ∧ a.1 + a.2.lexeme.length ≤ b.1

namespace PlacedPiece

/-- A token stands where its piece does: its lexeme is cut out of the source there, and its line and column are
those of that place. -/
theorem standsAt_of_token? {before : List Char} {p : Piece} {t : Token} (nonempty : p.text ≠ [])
    (found : token? ⟨Position.start.after before, p⟩ = some t) (rest : List Char) :
    t.lexeme.toList = p.text ∧ t.StandsAt (before ++ p.text ++ rest) before.length := by
  obtain ⟨line, placed⟩ := place_of_token? found
  have stop : PlacedPiece.stop ⟨Position.start.after before, p⟩ =
      ⟨1 + lineFeeds (before ++ p.text), (lastLine (before ++ p.text)).length⟩ := by
    rw [← Position.start_after, Position.after_append]
    rfl
  have column : t.column =
      if '\n' ∈ p.text then none else some ((lastLine before).length : Int) := by
    rw [placed, stop, Position.start_after]
    by_cases broken : '\n' ∈ p.text
    · simp [lineFeeds_append, lineFeeds_eq_zero, broken]
    · simp [lineFeeds_append, lineFeeds_eq_zero, broken]
  rw [stop] at line
  cases p with
  | token kind text =>
      obtain rfl := Option.some.inj found
      have lexeme : (String.ofList text).toList = text := String.toList_ofList
      have length : (String.ofList text).length = text.length := String.length_ofList
      have upTo : (before ++ text ++ rest).take (before.length + text.length) = before ++ text := by
        rw [← List.length_append, List.take_left]
      refine ⟨lexeme, ?_, ?_, ?_, ?_⟩
      · intro empty
        exact nonempty (String.ofList_eq_empty_iff.mp empty)
      · simp [Piece.text]
      · rw [line, Piece.text, length, upTo]
      · rw [column, Piece.text, lexeme, List.append_assoc, List.take_left]
  | blank | lineComment | blockComment | stray | openString | openComment => cases found

/-- The tokens among pieces that follow `before`, each with its offset. By induction over the pieces, with the
text before them growing. -/
theorem exists_offsets {ps : List Piece} (nonempty : ∀ p ∈ ps, p.text ≠ []) (before : List Char) :
    ∃ words : List (Nat × Token),
      (ofPieces (Position.start.after before) ps).filterMap token? = words.map Prod.snd ∧
      (∀ a ∈ words, before.length ≤ a.1 ∧ a.2.StandsAt (before ++ ps.flatMap Piece.text) a.1) ∧
      words.Pairwise Token.Apart := by
  induction ps generalizing before with
  | nil => exact ⟨[], rfl, by simp, .nil⟩
  | cons p ps ih =>
      have filled : p.text ≠ [] := nonempty p (by simp)
      obtain ⟨words, tokens, stand, apart⟩ := ih (fun q listed => nonempty q (by simp [listed]))
        (before ++ p.text)
      have moved : (Position.start.after before).after p.text = Position.start.after (before ++ p.text) :=
        (Position.after_append ..).symm
      have later : ∀ a ∈ words, before.length + p.text.length ≤ a.1 := by
        intro a listed
        simpa using (stand a listed).1
      have others : ∀ a ∈ words, before.length ≤ a.1 ∧
          a.2.StandsAt (before ++ (p :: ps).flatMap Piece.text) a.1 := by
        intro a listed
        have after := later a listed
        exact ⟨by omega, by simpa using (stand a listed).2⟩
      rw [ofPieces, List.filterMap_cons, moved, tokens]
      cases found : token? ⟨Position.start.after before, p⟩ with
      | none => exact ⟨words, rfl, others, apart⟩
      | some t =>
          obtain ⟨lexeme, here⟩ := standsAt_of_token? filled found (ps.flatMap Piece.text)
          refine ⟨(before.length, t) :: words, rfl, ?_, .cons ?_ apart⟩
          · intro a listed
            rcases List.mem_cons.mp listed with rfl | more
            · exact ⟨Nat.le_refl _, by simpa using here⟩
            · exact others a more
          · intro a listed
            have positive := List.length_pos_iff.mpr filled
            have length : t.lexeme.length = p.text.length := by rw [← lexeme, String.length_toList]
            have after := later a listed
            exact ⟨by dsimp only; omega, by dsimp only; omega⟩

end PlacedPiece

/-- No piece of a source is empty, so offsets grow from piece to piece. -/
theorem Piece.text_ne_nil_of_mem_split {source : List Char} : ∀ p ∈ split source, p.text ≠ [] := by
  intro p listed
  obtain ⟨after, stands⟩ := (splits_split source).stands_of_mem listed
  exact stands.text_ne_nil

/-- Only a string can go over several lines. So a token without a column is a string. -/
theorem Piece.Stands.kind_of_feed {kind : TokenKind} {text after : List Char}
    (stands : Stands (.token kind text) after) (broken : '\n' ∈ text) : kind = .string := by
  have never {p : Char → Bool} (apart : p '\n' = false) {part : List Char} (inside : ∀ c ∈ part, p c = true) :
      '\n' ∉ part := by
    intro listed
    rw [inside _ listed] at apart
    cases apart
  cases stands with
  | single sign =>
      obtain rfl := List.mem_singleton.mp broken
      cases sign
  | alone sign =>
      obtain rfl := List.mem_singleton.mp broken
      cases sign
  | lengthened sign =>
      obtain rfl : '\n' = _ := by simpa using broken
      cases sign
  | slash => simp at broken
  | string => rfl
  | whole nonempty digits => exact absurd broken (never (by decide) digits)
  | fraction nonempty some digits places =>
      have inside := never (by decide) digits
      have inside' := never (by decide) places
      simp [inside, inside'] at broken
  | word start word =>
      rcases List.mem_cons.mp broken with rfl | later
      · exact absurd start (by decide)
      · exact absurd later (never (by decide) word)

namespace Scan

/-- The tokens of a source but the end token, each with its offset: they stand there, and do not overlap. -/
theorem words_stand (source : List Char) : ∃ words : List (Nat × Token),
    (ofChars source).words = words.map Prod.snd ∧ (∀ a ∈ words, a.2.StandsAt source a.1) ∧
      words.Pairwise Token.Apart := by
  have nonempty : ∀ p ∈ Piece.split source, p.text ≠ [] := Piece.text_ne_nil_of_mem_split
  obtain ⟨words, tokens, stand, apart⟩ := PlacedPiece.exists_offsets nonempty []
  rw [(Piece.splits_split source).flatMap_text] at stand
  exact ⟨words, (words_ofChars source).trans tokens, fun a listed => (stand a listed).2, apart⟩

/-- Every token of a source but the end token stands somewhere in it, so what a diagnostic says about a token
can be looked up in the source. -/
theorem standsAt_of_mem {source : List Char} {t : Token} (listed : t ∈ (ofChars source).tokens)
    (inner : t.kind ≠ .endOfInput) : ∃ offset, t.StandsAt source offset := by
  obtain ⟨words, same, stand, -⟩ := words_stand source
  have word : t ∈ (ofChars source).words := List.mem_filter.mpr ⟨listed, by simpa using inner⟩
  rw [same] at word
  obtain ⟨a, member, rfl⟩ := List.mem_map.mp word
  exact ⟨a.1, stand a member⟩

/-- Every such token that is not a string has a column, since it begins and ends on one line. -/
theorem exists_column {source : List Char} {t : Token} (listed : t ∈ (ofChars source).tokens)
    (inner : t.kind ≠ .endOfInput) (short : t.kind ≠ .string) : ∃ c, t.column = some c := by
  obtain ⟨offset, stands⟩ := standsAt_of_mem listed inner
  have word : t ∈ (ofChars source).words := List.mem_filter.mpr ⟨listed, by simpa using inner⟩
  rw [words_ofChars] at word
  obtain ⟨after, piece⟩ := stands_of_mem word
  have unbroken : '\n' ∉ t.lexeme.toList := fun broken => short (piece.kind_of_feed broken)
  rw [stands.column, if_neg unbroken]
  exact ⟨_, rfl⟩

end Scan

/-- Scanned columns count from the start of the line, so none is negative. Excerpts would take a negative one
from the end. -/
theorem Token.StandsAt.natural {t : Token} {source : List Char} {offset : Nat}
    (stands : t.StandsAt source offset) : ∀ c ∈ t.column, 0 ≤ c := by
  rw [stands.column]
  intro c placed
  split at placed
  · cases placed
  · obtain rfl := Option.some.inj placed
    exact Int.natCast_nonneg _

/-- What stands at an offset lies within the source. -/
theorem Token.StandsAt.bound {t : Token} {source : List Char} {offset : Nat}
    (stands : t.StandsAt source offset) : offset + t.lexeme.length ≤ source.length ∧ 0 < t.lexeme.length := by
  have length := congrArg List.length stands.lexeme
  have positive : t.lexeme.length ≠ 0 := fun empty => stands.nonempty (String.length_eq_zero_iff.mp empty)
  simp only [List.length_take, List.length_drop, String.length_toList] at length
  omega

namespace Scan

/-- **Every token stands where it says.** Scanning covers every source. Its tokens stand at increasing offsets
without overlapping, where their lines and columns say, and the last one, which alone is an end token, stands at
the end of the source. A scanner that keeps offsets, its line and where that line begins gives exactly these
tokens and the same faults. -/
theorem tokens_placed_exactly (source : String) :
    Scanner.scan source.toList = ofSource source ∧
    (Piece.split source.toList).flatMap Piece.text = source.toList ∧
    ∃ (words : List (Nat × Token)) (last : Token),
      (ofSource source).tokens = (words ++ [(source.length, last)]).map Prod.snd ∧
      (words ++ [(source.length, last)]).Pairwise Token.Apart ∧
      (∀ a ∈ words, a.2.kind ≠ .endOfInput ∧ a.2.StandsAt source.toList a.1) ∧
      last.kind = .endOfInput ∧ last.line = (1 + lineFeeds source.toList : Nat) ∧
      last.column = some ((lastLine source.toList).length : Int) := by
  refine ⟨Scanner.scan_eq source.toList, (Piece.splits_split source.toList).flatMap_text, ?_⟩
  obtain ⟨words, same, stand, apart⟩ := words_stand source.toList
  refine ⟨words, endToken source.toList, ?_, ?_, ?_, rfl, ?_, ?_⟩
  · rw [ofSource, tokens_eq_words_append, same]
    simp
  · apply List.pairwise_append.mpr
    refine ⟨apart, List.pairwise_singleton .., ?_⟩
    intro a listed b last
    obtain rfl := List.mem_singleton.mp last
    obtain ⟨bound, positive⟩ := (stand a listed).bound
    rw [String.length_toList] at bound
    exact ⟨by dsimp only; omega, bound⟩
  · intro a listed
    have word : a.2 ∈ (ofChars source.toList).words := same ▸ List.mem_map_of_mem listed
    exact ⟨kind_of_mem_words a.2 word, stand a listed⟩
  · simp [endToken, Position.start_after]
  · simp [endToken, Position.start_after]

end Scan

end Treewalk

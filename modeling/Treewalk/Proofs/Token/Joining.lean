import Treewalk.Proofs.Token.Rescan
import Treewalk.Proofs.Tree.Moved

/-!
Scanning two sources joined by a line feed. When the first one has no lexical fault, nothing of it is
open at its end and the line feed lengthens none of its pieces. So the tokens of the whole are those of
the first source and then those of the second one, moved down by the lines of the first.
-/

namespace Treewalk

open Text

namespace Text

variable {p : Char → Bool} {after more : List Char}

/-- A line feed does not continue a run that stops at line feeds. -/
theorem Avoids.append (avoids : Avoids p after) (stopped : p '\n' = false) :
    Avoids p (after ++ '\n' :: more) := by
  cases after with
  | nil => exact avoids_cons.mpr stopped
  | cons c after => exact avoids_cons.mpr (avoids_cons.mp avoids)

/-- How many lines a text adds. -/
def lineFeeds (text : List Char) : Nat := text.count '\n'

end Text

namespace Piece

/-- A line feed at the end of the text lengthens no piece that is closed. -/
theorem Stands.append {p : Piece} {after : List Char} (stands : Stands p after)
    (closed : p.isFaulty = false) (more : List Char) : Stands p (after ++ '\n' :: more) := by
  cases stands with
  | single sign => exact .single sign
  | alone sign avoids => exact .alone sign (avoids.append rfl)
  | lengthened sign => exact .lengthened sign
  | slash avoids => exact .slash (avoids.append rfl)
  | string unquoted => exact .string unquoted
  | whole nonempty digits avoids unpointed =>
      apply Stands.whole nonempty digits (avoids.append (by decide))
      intro rest point
      cases after with
      | nil => cases point
      | cons c after =>
          obtain ⟨rfl, rfl⟩ := List.cons.inj point
          exact (unpointed after rfl).append (by decide)
  | fraction nonempty some digits places avoids =>
      exact .fraction nonempty some digits places (avoids.append (by decide))
  | word start word avoids => exact .word start word (avoids.append (by decide))
  | blank space => exact .blank space
  | lineComment inside avoids => exact .lineComment inside (avoids.append rfl)
  | blockComment unclosed => exact .blockComment unclosed
  | stray | openString | openComment => cases closed

/-- The pieces of two texts, with the line feed between them as a blank, make up the whole. -/
theorem Splits.append {first second : List Char} {ps qs : List Piece} (splits : Splits first ps)
    (closed : ∀ p ∈ ps, p.isFaulty = false) (splits' : Splits second qs) :
    Splits (first ++ '\n' :: second) (ps ++ .blank '\n' :: qs) := by
  induction splits with
  | nil => exact .cons (.blank rfl) splits'
  | @cons p after ps stands _ ih =>
      rw [List.append_assoc, List.cons_append]
      apply Splits.cons
      · exact stands.append (closed p (by simp)) second
      · exact ih fun q listed => closed q (by simp [listed])

/-- Splitting two texts joined by a line feed is splitting each, if the first one leaves nothing open. -/
theorem split_append {first : List Char} (closed : ∀ p ∈ split first, p.isFaulty = false)
    (second : List Char) :
    split (first ++ '\n' :: second) = split first ++ .blank '\n' :: split second :=
  split_eq_of_splits ((splits_split first).append closed (splits_split second))

/-- The pieces of a text make it up, with nothing left out and nothing twice. -/
theorem Splits.flatMap_text {source : List Char} {ps : List Piece} (splits : Splits source ps) :
    ps.flatMap text = source := by
  induction splits with
  | nil => rfl
  | cons _ _ ih => rw [List.flatMap_cons, ih]

end Piece

/-- The position moved down by `k` lines. -/
def Position.moved (k : Nat) (p : Position) : Position := ⟨p.line + k, p.column⟩

@[simp]
theorem Position.line_moved (k : Nat) (p : Position) : (p.moved k).line = p.line + k := rfl

@[simp]
theorem Position.column_moved (k : Nat) (p : Position) : (p.moved k).column = p.column := rfl

/-- Moving down and going over a text commute. So a source further down has the same columns and moved lines. -/
theorem Position.moved_after (k : Nat) (p : Position) (text : List Char) :
    (p.moved k).after text = (p.after text).moved k := by
  induction text generalizing p with
  | nil => rfl
  | cons c text ih =>
      have step : (p.moved k).next c = (p.next c).moved k := by
        unfold next moved
        split
        · simp [Nat.add_right_comm]
        · rfl
      rw [after, List.foldl_cons, step]
      exact ih (p.next c)

/-- A line feed leads to the start of a line, whose number counts the line feeds of the text before it. By
induction over that text. -/
theorem Position.after_lineFeed (p : Position) (text : List Char) :
    p.after (text ++ ['\n']) = ⟨p.line + lineFeeds text + 1, 0⟩ := by
  induction text generalizing p with
  | nil => rfl
  | cons c text ih =>
      have step : p.after (c :: text ++ ['\n']) = (p.next c).after (text ++ ['\n']) := rfl
      rw [step, ih]
      unfold next lineFeeds
      by_cases feed : c = '\n'
      · simp [feed]
        omega
      · simp [feed]

namespace PlacedPiece

/-- Pieces behind others are placed after the text of these. -/
theorem ofPieces_append (pos : Position) (ps qs : List Piece) :
    ofPieces pos (ps ++ qs) = ofPieces pos ps ++ ofPieces (pos.after (ps.flatMap Piece.text)) qs := by
  induction ps generalizing pos with
  | nil => rfl
  | cons p ps ih => simp [ofPieces, ih, Position.after_append]

/-- A piece further down gives the same token, moved. Whether it goes over several lines does not depend on
where it begins. -/
theorem token?_moved (k : Nat) (pos : Position) (p : Piece) :
    token? ⟨pos.moved k, p⟩ = (token? ⟨pos, p⟩).map (Token.moved k) := by
  cases p with
  | token kind text =>
      simp only [token?, stop, Position.moved_after, Position.line_moved, Position.column_moved,
        Nat.add_right_cancel_iff, Int.natCast_add, Option.map_some, Token.moved]
      congr
  | blank | lineComment | blockComment | stray | openString | openComment => rfl

/-- So all tokens of pieces that are placed further down are moved. -/
theorem tokens_moved (k : Nat) (pos : Position) (ps : List Piece) :
    (ofPieces (pos.moved k) ps).filterMap token? =
      ((ofPieces pos ps).filterMap token?).map (Token.moved k) := by
  induction ps generalizing pos with
  | nil => rfl
  | cons p ps ih =>
      rw [ofPieces, ofPieces, List.filterMap_cons, List.filterMap_cons, token?_moved,
        Position.moved_after, ih]
      cases token? ⟨pos, p⟩ <;> rfl

end PlacedPiece

namespace Scan

variable {first : List Char}

theorem isFaulty_of_faults_eq_nil (silent : (ofChars first).faults = []) :
    ∀ p ∈ Piece.split first, p.isFaulty = false := by
  rwa [faults_ofChars, PlacedPiece.faults_ofPieces_eq_nil_iff] at silent

/-- The end token comes last, and the words of a source are all other tokens. -/
theorem tokens_eq_words_append (source : List Char) :
    (ofChars source).tokens = (ofChars source).words ++ [endToken source] := by
  rw [words_ofChars, tokens_ofChars]

theorem kind_of_mem_words {source : List Char} : ∀ t ∈ (ofChars source).words, t.kind ≠ .endOfInput := by
  intro t listed
  simpa using (List.mem_filter.mp listed).2

/-- Joining two sources by a line feed adds no lexical fault. -/
theorem faults_append (silent : (ofChars first).faults = []) {second : List Char}
    (silent' : (ofChars second).faults = []) : (ofChars (first ++ '\n' :: second)).faults = [] := by
  rw [faults_ofChars, PlacedPiece.faults_ofPieces_eq_nil_iff,
    Piece.split_append (isFaulty_of_faults_eq_nil silent)]
  intro p listed
  rcases List.mem_append.mp listed with before | later
  · exact isFaulty_of_faults_eq_nil silent p before
  · rcases List.mem_cons.mp later with rfl | later
    · rfl
    · exact isFaulty_of_faults_eq_nil silent' p later

/-- The tokens of two sources joined by a line feed are the words of the first, and then all tokens of the
second, moved down by the lines of the first. The end token of the first is gone. -/
theorem tokens_append (silent : (ofChars first).faults = []) (second : List Char) :
    (ofChars (first ++ '\n' :: second)).tokens =
      (ofChars first).words ++ (ofChars second).tokens.map (Token.moved (lineFeeds first + 1 : Nat)) := by
  have place : Position.start.after (first ++ ['\n']) = Position.start.moved (lineFeeds first + 1) := by
    rw [Position.after_lineFeed]
    simp [Position.moved, Position.start, Nat.add_assoc]
  have ended : endToken (first ++ '\n' :: second) =
      (endToken second).moved (lineFeeds first + 1 : Nat) := by
    have stop : Position.start.after (first ++ '\n' :: second) =
        (Position.start.after second).moved (lineFeeds first + 1) := by
      rw [← Position.moved_after, ← place, ← Position.after_append]
      simp
    simp [endToken, stop, Token.moved]
  rw [tokens_ofChars, tokens_ofChars, ended, Piece.split_append (isFaulty_of_faults_eq_nil silent),
    PlacedPiece.ofPieces_append, (Piece.splits_split first).flatMap_text, List.filterMap_append,
    ← words_ofChars, PlacedPiece.ofPieces, List.filterMap_cons_none rfl]
  have later : (Position.start.after first).after (Piece.blank '\n').text =
      Position.start.moved (lineFeeds first + 1) := by
    rw [← Position.after_append, ← place]
    rfl
  rw [later, PlacedPiece.tokens_moved, List.map_append, List.append_assoc]
  rfl

end Scan

end Treewalk

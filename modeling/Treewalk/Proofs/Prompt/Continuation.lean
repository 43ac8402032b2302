import Treewalk.Proofs.Token.Joining
import Treewalk.Prompt

/-!
When a source needs more lines. Only the kinds of its tokens count. A line feed at the end of a text adds no
token and changes none, also when a string or a comment is open there; so empty lines never complete a
source, and never make a complete one wait.
-/

namespace Treewalk

namespace Piece

/-- A line feed closes no comment, since the mark that does is a star and a slash. -/
theorem Unclosed.feed {text : List Char} (unclosed : Unclosed text) : Unclosed (text ++ ['\n']) := by
  induction text with
  | nil => decide
  | cons c text ih =>
      obtain ⟨unclosed, notHere⟩ := unclosed_cons.mp unclosed
      refine unclosed_cons.mpr ⟨ih unclosed, ?_⟩
      rintro ⟨star, rest, begins⟩
      cases text with
      | nil => simp at begins
      | cons d text => exact notHere ⟨star, text, by simpa using (List.cons.inj begins).1⟩

/-- A line feed behind a piece leaves it as it is, unless the piece is open: then it is lengthened, and was
no token before and is none after. -/
theorem Stands.feed {p : Piece} {after : List Char} (stands : Stands p after) :
    Stands p (after ++ ['\n']) ∨
      after = [] ∧ p.content? = none ∧ ∃ q, Stands q [] ∧ q.text = p.text ++ ['\n'] ∧ q.content? = none := by
  by_cases closed : p.isFaulty = false
  · exact .inl (stands.append closed [])
  · cases stands with
    | stray stray => exact .inl (.stray stray)
    | @openString inside unquoted =>
        have unquoted' : '"' ∉ inside ++ ['\n'] := by simpa using unquoted
        exact .inr ⟨rfl, rfl, _, .openString unquoted', rfl, rfl⟩
    | openComment unclosed => exact .inr ⟨rfl, rfl, _, .openComment unclosed.feed, rfl, rfl⟩
    | single | alone | lengthened | slash | string | whole | fraction | word | blank | lineComment
    | blockComment => exact absurd rfl closed

/-- A line feed behind a text leaves what its tokens say as it is. It is a blank of its own, or lengthens a
piece that is open and no token. By induction over the pieces. -/
theorem Splits.feed {source : List Char} {ps : List Piece} (splits : Splits source ps) :
    ∃ qs, Splits (source ++ ['\n']) qs ∧ qs.filterMap content? = ps.filterMap content? := by
  induction splits with
  | nil => exact ⟨[.blank '\n'], .cons (.blank rfl) .nil, rfl⟩
  | @cons p after ps stands rest ih =>
      rcases stands.feed with same | ⟨rfl, silent, q, longer, text, silent'⟩
      · obtain ⟨qs, splits, contents⟩ := ih
        refine ⟨p :: qs, ?_, ?_⟩
        · rw [List.append_assoc]
          exact .cons same splits
        · rw [List.filterMap_cons, List.filterMap_cons, contents]
      · have last : Splits (q.text ++ []) [q] := .cons longer .nil
        obtain rfl : ps = [] := by rw [← split_eq_of_splits rest]; rfl
        refine ⟨[q], ?_, ?_⟩
        · rwa [text, List.append_nil, ← List.append_nil p.text] at last
        · rw [List.filterMap_cons_none silent, List.filterMap_cons_none silent']

end Piece

/-- The kinds of the tokens of a text are told by its pieces, and the end token comes behind them. -/
theorem Scan.map_kind_tokens (source : List Char) : (ofChars source).tokens.map Token.kind =
    ((Piece.split source).filterMap Piece.content?).map Prod.fst ++ [.endOfInput] := by
  have kinds : Token.kind = Prod.fst ∘ Token.content := rfl
  rw [tokens_ofChars, List.map_append, kinds, ← List.map_map, PlacedPiece.map_content_ofPieces]
  rfl

/-- A line feed at the end of a source does not matter. So pending text, which ends in one, can be judged
without it. -/
theorem needsContinuation_feed (source : List Char) :
    needsContinuation (source ++ ['\n']) = needsContinuation source := by
  obtain ⟨qs, splits, contents⟩ := (Piece.splits_split source).feed
  unfold needsContinuation
  rw [Scan.map_kind_tokens, Scan.map_kind_tokens, Piece.split_eq_of_splits splits, contents]

end Treewalk

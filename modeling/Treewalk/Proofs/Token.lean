import Treewalk.Token.Scan

/-!
Tokens and the pieces they are made of. What a token says depends on its piece alone, and only where it
stands on the pieces before it. The tokens of a source are those of its pieces and one end token.
-/

namespace Treewalk

/-- What a token says, apart from where it stands. -/
def Token.content (t : Token) : TokenKind × String × Constant := (t.kind, t.lexeme, t.literal)

namespace Position

/-- One position lies before another one. -/
def Before (p q : Position) : Prop := p.line < q.line ∨ p.line = q.line ∧ p.column < q.column

variable {p q r : Position}

theorem Before.trans (first : p.Before q) (second : q.Before r) : p.Before r := by
  unfold Before at *
  omega

/-- Every character leads to a later position, a line feed to a later line and any other one further along
the line. -/
theorem before_next (p : Position) (c : Char) : p.Before (p.next c) := by
  unfold next
  split
  · exact .inl (Nat.lt_succ_self _)
  · exact .inr ⟨rfl, Nat.lt_succ_self _⟩

/-- The position after two texts is that after the second one, from the position after the first. -/
theorem after_append (p : Position) (text more : List Char) :
    p.after (text ++ more) = (p.after text).after more :=
  List.foldl_append

/-- Every text that is not empty leads to a later position. -/
theorem before_after (p : Position) {text : List Char} (nonempty : text ≠ []) :
    p.Before (p.after text) := by
  induction text generalizing p with
  | nil => exact absurd rfl nonempty
  | cons c text ih =>
      cases text with
      | nil => exact p.before_next c
      | cons d text => exact (p.before_next c).trans (ih (p.next c) (by simp))

end Position

namespace Piece

/-- What the token of a piece says, if it is one. -/
def content? : Piece → Option (TokenKind × String × Constant)
  | .token kind text => some (kind, String.ofList text, PlacedPiece.literal kind text)
  | _ => none

/-- A piece that is no part of the language. -/
def isFaulty : Piece → Bool
  | .stray _ | .openString _ | .openComment _ => true
  | _ => false

end Piece

namespace PlacedPiece

/-- What the token of a piece says does not depend on where the piece stands. -/
theorem map_content_token? (p : PlacedPiece) : p.token?.map Token.content = p.piece.content? := by
  obtain ⟨start, piece⟩ := p
  cases piece <;> rfl

/-- A piece is reported exactly when it is no part of the language. -/
theorem fault?_eq_none_iff (p : PlacedPiece) : p.fault? = none ↔ p.piece.isFaulty = false := by
  obtain ⟨start, piece⟩ := p
  cases piece <;> simp [fault?, Piece.isFaulty]

theorem map_piece_ofPieces (pos : Position) (ps : List Piece) : (ofPieces pos ps).map piece = ps := by
  induction ps generalizing pos with
  | nil => rfl
  | cons p ps ih => simp [ofPieces, ih]

/-- What the tokens of placed pieces say is what the pieces say, in their order. -/
theorem map_content_ofPieces (pos : Position) (ps : List Piece) :
    ((ofPieces pos ps).filterMap token?).map Token.content = ps.filterMap Piece.content? := by
  calc ((ofPieces pos ps).filterMap token?).map Token.content
      = (ofPieces pos ps).filterMap fun p => p.piece.content? := by
        rw [List.map_filterMap]
        simp only [map_content_token?]
    _ = ((ofPieces pos ps).map piece).filterMap Piece.content? := by
        rw [List.filterMap_map]
        rfl
    _ = ps.filterMap Piece.content? := by rw [map_piece_ofPieces]

/-- Nothing is reported exactly when every piece is part of the language. -/
theorem faults_ofPieces_eq_nil_iff (pos : Position) (ps : List Piece) :
    (ofPieces pos ps).filterMap fault? = [] ↔ ∀ p ∈ ps, p.isFaulty = false := by
  calc (ofPieces pos ps).filterMap fault? = []
      ↔ ∀ p ∈ (ofPieces pos ps).map piece, p.isFaulty = false := by
        simp [List.filterMap_eq_nil_iff, fault?_eq_none_iff]
    _ ↔ ∀ p ∈ ps, p.isFaulty = false := by rw [map_piece_ofPieces]

/-- A lexical fault is known by its line only. -/
theorem site_of_fault? {p : PlacedPiece} {d : Diagnostic} (found : p.fault? = some d) : d.site = .line := by
  obtain ⟨start, piece⟩ := p
  cases piece <;> cases found <;> rfl

/-- Placed pieces follow one another: each begins at the given position or later, and ends after it begins. By
induction over the pieces. -/
theorem stop_of_mem {pos : Position} {ps : List Piece} (nonempty : ∀ p ∈ ps, p.text ≠ [])
    {a : PlacedPiece} (listed : a ∈ ofPieces pos ps) :
    (a.start = pos ∨ pos.Before a.start) ∧ a.start.Before a.stop := by
  induction ps generalizing pos with
  | nil => cases listed
  | cons p ps ih =>
      have later := pos.before_after (nonempty p (by simp))
      rcases List.mem_cons.mp listed with rfl | others
      · exact ⟨.inl rfl, later⟩
      · obtain ⟨start, stop⟩ := ih (fun q member => nonempty q (by simp [member])) others
        refine ⟨.inr ?_, stop⟩
        rcases start with same | before
        · exact same ▸ later
        · exact later.trans before

/-- Each placed piece begins where an earlier one ends, or further on. -/
theorem ofPieces_pairwise {pos : Position} {ps : List Piece} (nonempty : ∀ p ∈ ps, p.text ≠ []) :
    (ofPieces pos ps).Pairwise fun a b => b.start = a.stop ∨ a.stop.Before b.start := by
  induction ps generalizing pos with
  | nil => exact .nil
  | cons p ps ih =>
      have others : ∀ q ∈ ps, q.text ≠ [] := fun q member => nonempty q (by simp [member])
      exact .cons (fun b listed => (stop_of_mem others listed).1) (ih others)

/-- A token is on the line that its piece ends on. It has the column its piece begins at, unless it goes over
several lines. -/
theorem place_of_token? {a : PlacedPiece} {t : Token} (found : a.token? = some t) :
    t.line = a.stop.line ∧
      t.column = if a.stop.line = a.start.line then some (a.start.column : Int) else none := by
  obtain ⟨start, piece⟩ := a
  cases piece <;> cases found
  exact ⟨rfl, rfl⟩

/-- Where a token stands, as messages give it, tells it apart from all others. Tokens that end on one line begin
at different columns, and only the first of them can have begun above. -/
theorem tokens_pairwise {pos : Position} {ps : List Piece} (nonempty : ∀ p ∈ ps, p.text ≠ []) :
    ((ofPieces pos ps).filterMap token?).Pairwise
      fun t u => ¬ (t.line = u.line ∧ t.column = u.column) := by
  rw [List.pairwise_filterMap]
  refine (ofPieces_pairwise nonempty).imp_of_mem fun {a b} first second later t found u found' => ?_
  obtain ⟨line, column⟩ := place_of_token? found
  obtain ⟨line', column'⟩ := place_of_token? found'
  obtain ⟨-, long⟩ := stop_of_mem nonempty first
  obtain ⟨-, long'⟩ := stop_of_mem nonempty second
  rintro ⟨sameLine, sameColumn⟩
  -- the later token begins and ends on the line that the earlier one ends on
  have lines : a.stop.line = b.stop.line := by omega
  have ordered : a.stop.line < b.start.line ∨
      a.stop.line = b.start.line ∧ a.stop.column ≤ b.start.column := by
    rcases later with same | before
    · exact .inr ⟨by rw [same], by simp [same]⟩
    · rcases before with above | ⟨same, left⟩
      · exact .inl above
      · exact .inr ⟨same, Nat.le_of_lt left⟩
  unfold Position.Before at long long'
  have short : b.stop.line = b.start.line := by omega
  rw [column, column', if_pos short] at sameColumn
  split at sameColumn
  · simp only [Option.some.injEq] at sameColumn
    omega
  · cases sameColumn

end PlacedPiece

namespace Scan

/-- The tokens of a source are those of its pieces, and one end token. -/
theorem tokens_ofChars (source : List Char) : (ofChars source).tokens =
    (PlacedPiece.ofPieces .start (Piece.split source)).filterMap PlacedPiece.token? ++
      [endToken source] := rfl

theorem faults_ofChars (source : List Char) : (ofChars source).faults =
    (PlacedPiece.ofPieces .start (Piece.split source)).filterMap PlacedPiece.fault? := rfl

theorem site_of_mem_faults {source : List Char} {d : Diagnostic} (listed : d ∈ (ofChars source).faults) :
    d.site = .line := by
  obtain ⟨p, -, found⟩ := List.mem_filterMap.mp listed
  exact PlacedPiece.site_of_fault? found

end Scan

end Treewalk

import Treewalk.Proofs.Token.Rules

/-!
A token is known by its lexeme. Every token of a source but the end token is spelled by the lexical grammar and
holds what its lexeme says (`Scan.spelled_of_mem`). So scanning the lexeme by itself gives the token back,
apart from its place (`Token.Spelled.ofLexeme_eq`).
-/

namespace Treewalk

open Text

namespace Token

/-- The token without its place. -/
def unplaced (t : Token) : Token := { t with line := 0, column := none }

/-- The lexeme is one of the token's kind, and the token holds what the lexeme says. -/
structure Spelled (t : Token) : Prop where
  lexeme : Piece.Lexeme t.kind t.lexeme.toList
  literal : t.literal = PlacedPiece.literal t.kind t.lexeme.toList

/-- The first token of a lexeme, without its place. -/
def ofLexeme (lexeme : String) : Token :=
  ((Scan.ofSource lexeme).tokens.headD (Scan.endToken [])).unplaced

variable {t u : Token}

@[simp]
theorem lexeme_unplaced (t : Token) : t.unplaced.lexeme = t.lexeme := rfl

/-- Without its place, a token is what it says. -/
theorem unplaced_eq_iff : t.unplaced = u.unplaced ↔ t.content = u.content := by
  simp [unplaced, content]

end Token

namespace Scan

/-- A lexeme by itself is scanned as one token of its kind, without a fault. -/
theorem scans_lexeme {kind : TokenKind} {text : List Char} (lexeme : Piece.Lexeme kind text) :
    (ofChars text).faults = [] ∧ ∃ t, (ofChars text).tokens = [t, endToken text] ∧
      t.content = (kind, String.ofList text, PlacedPiece.literal kind text) := by
  have pieces : Piece.split text = [.token kind text] := by
    apply Piece.split_eq_of_splits
    have covered := Piece.Splits.cons (Piece.lexeme_iff.mp lexeme) .nil
    rwa [List.append_nil] at covered
  rw [faults_ofChars, tokens_ofChars, pieces]
  exact ⟨rfl, _, rfl, rfl⟩

/-- Every token of a source is spelled, unless it is the end token: its lexeme is one of its kind, and its
literal is that of the lexeme. -/
theorem spelled_of_mem {source : List Char} {t : Token} (listed : t ∈ (ofChars source).tokens) :
    t.kind = .endOfInput ∨ t.Spelled := by
  rw [tokens_ofChars, List.mem_append, List.mem_singleton] at listed
  rcases listed with piece | rfl
  · obtain ⟨after, stands⟩ := stands_of_mem piece
    have content : t.content ∈ (Piece.split source).filterMap Piece.content? := by
      rw [← PlacedPiece.map_content_ofPieces .start]
      exact List.mem_map_of_mem piece
    obtain ⟨p, -, same⟩ := List.mem_filterMap.mp content
    refine .inr ⟨stands.lexeme, ?_⟩
    cases p with
    | token kind text =>
        simp only [Piece.content?, Token.content, Option.some.injEq, Prod.mk.injEq] at same
        rw [← same.2.2, ← same.1, ← same.2.1, String.toList_ofList]
    | blank | lineComment | blockComment | stray | openString | openComment => cases same
  · exact .inl rfl

end Scan

namespace Token.Spelled

variable {t u : Token}

/-- A spelled token is determined by its lexeme, its place aside, since scanning the lexeme again gives
the token. -/
theorem ofLexeme_eq (spelled : t.Spelled) : ofLexeme t.lexeme = t.unplaced := by
  obtain ⟨-, u, tokens, content⟩ := Scan.scans_lexeme spelled.lexeme
  rw [ofLexeme, Scan.ofSource, tokens, List.headD_cons, unplaced_eq_iff, content, String.ofList_toList,
    ← spelled.literal]
  rfl

/-- A lexeme that is read as another kind of token is not the token's. -/
theorem lexeme_ne (spelled : t.Spelled) {other : String} (kind : (ofLexeme other).kind ≠ t.kind) :
    t.lexeme ≠ other := by
  rintro rfl
  rw [spelled.ofLexeme_eq] at kind
  exact kind rfl

end Token.Spelled

end Treewalk

import Treewalk.Token.Piece
import Treewalk.Diagnostic

/-!
Scanning: the pieces of a source, each with the position it starts at, give the tokens and the
lexical faults. Nothing of the source is dropped: a piece is a token, a fault, a blank or a comment.
-/

namespace Treewalk

/-- A line, counted from one, and a column, counted from zero. -/
structure Position where
  line : Nat
  column : Nat
deriving DecidableEq, Repr

namespace Position

def start : Position := ⟨1, 0⟩

def next (p : Position) (c : Char) : Position :=
  if c = '\n' then ⟨p.line + 1, 0⟩ else ⟨p.line, p.column + 1⟩

/-- The position after a text that starts at `p`. -/
def after (p : Position) (text : List Char) : Position := text.foldl next p

end Position

/-- A fault of the lexical rules. -/
inductive LexicalFault where
  | unexpected (c : Char)
  | unterminatedString
  | unterminatedComment
deriving DecidableEq, Repr

def LexicalFault.message : LexicalFault → String
  | .unexpected c => "Unexpected character '" ++ String.singleton c ++ "'."
  | .unterminatedString => "Unterminated string."
  | .unterminatedComment => "Unterminated block comment."

/-- A piece and the position of its first character. -/
structure PlacedPiece where
  start : Position
  piece : Piece
deriving DecidableEq, Repr

namespace PlacedPiece

/-- The position after the piece. -/
def stop (p : PlacedPiece) : Position := p.start.after p.piece.text

/-- Places pieces that follow one another from `pos` on. -/
def ofPieces (pos : Position) : List Piece → List PlacedPiece
  | [] => []
  | p :: rest => ⟨pos, p⟩ :: ofPieces (pos.after p.text) rest

/-- What a token of this kind and text holds. -/
def literal (kind : TokenKind) (text : List Char) : Constant :=
  match kind with
  | .number => .number (Decimal.ofDigits text).toFloat
  | .string => .text (String.ofList (text.drop 1).dropLast)
  | _ => .nil

def token? (p : PlacedPiece) : Option Token :=
  match p.piece with
  | .token kind text =>
    some {
      kind
      lexeme := String.ofList text
      literal := literal kind text
      line := p.stop.line
      column := if p.stop.line = p.start.line then some p.start.column else none }
  | _ => none

/-- A stray character is reported on its line, an unterminated comment on the line it starts, an
unterminated string on the line it runs to. -/
def fault? (p : PlacedPiece) : Option Diagnostic :=
  match p.piece with
  | .stray c => some (.onLine p.start.line (LexicalFault.unexpected c).message)
  | .openString _ => some (.onLine p.stop.line LexicalFault.unterminatedString.message)
  | .openComment _ => some (.onLine p.start.line LexicalFault.unterminatedComment.message)
  | _ => none

end PlacedPiece

/-- What scanning a source gives. -/
structure Scan where
  /-- The tokens, with the end of the input as the last one. -/
  tokens : List Token
  faults : List Diagnostic

namespace Scan

/-- The token after the last one. -/
def endToken (source : List Char) : Token :=
  let stop := Position.start.after source
  ⟨.endOfInput, "", .nil, stop.line, some stop.column⟩

def ofChars (source : List Char) : Scan :=
  let placed := PlacedPiece.ofPieces .start (Piece.split source)
  ⟨placed.filterMap PlacedPiece.token? ++ [endToken source], placed.filterMap PlacedPiece.fault?⟩

def ofSource (source : String) : Scan := ofChars source.toList

end Scan

end Treewalk

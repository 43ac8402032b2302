import Treewalk.Text.Letter
import Treewalk.Token

/-!
Lexical pieces. Every text falls into pieces, in order and without a gap: tokens, blanks, comments,
and pieces that are no part of the language (a stray character, or a string or block comment that
never ends). The first piece of a text is the longest one its first characters allow.
-/

namespace Treewalk

open Text

inductive Piece where
  | token (kind : TokenKind) (text : List Char)
  | blank (c : Char)
  | lineComment (text : List Char)
  | blockComment (text : List Char)
  | stray (c : Char)
  | openString (text : List Char)
  | openComment (text : List Char)
deriving DecidableEq, Repr

namespace Piece

/-- The characters that a piece covers. -/
def text : Piece → List Char
  | .token _ t => t
  | .blank c => [c]
  | .lineComment t => t
  | .blockComment t => t
  | .stray c => [c]
  | .openString t => t
  | .openComment t => t

/-- Signs of one character that begin no longer sign. -/
def singleSign? : Char → Option TokenKind
  | '(' => some .leftParen
  | ')' => some .rightParen
  | '\x7b' => some .leftBrace
  | '\x7d' => some .rightBrace
  | ',' => some .comma
  | '.' => some .dot
  | '-' => some .minus
  | '+' => some .plus
  | ';' => some .semicolon
  | '*' => some .star
  | '?' => some .question
  | ':' => some .colon
  | _ => none

/-- Signs that an equals sign can lengthen: their kind alone, and their kind with it. -/
def lengthenedSign? : Char → Option (TokenKind × TokenKind)
  | '!' => some (.bang, .bangEqual)
  | '=' => some (.equal, .equalEqual)
  | '<' => some (.less, .lessEqual)
  | '>' => some (.greater, .greaterEqual)
  | _ => none

/-- Blanks between tokens. -/
def isSpace (c : Char) : Bool := c == ' ' || c == '\r' || c == '\t' || c == '\n'

/-- Splits after the first end mark of a block comment. -/
def closeComment : List Char → Option (List Char × List Char)
  | [] => none
  | '*' :: '/' :: rest => some (['*', '/'], rest)
  | c :: rest => (closeComment rest).map fun r => (c :: r.1, r.2)

/-- What follows a slash. -/
def afterSlash (rest : List Char) : Piece × List Char :=
  match rest with
  | '/' :: more =>
    (.lineComment ('/' :: '/' :: more.takeWhile (· != '\n')), more.dropWhile (· != '\n'))
  | '*' :: more =>
    match closeComment more with
    | some (inside, after) => (.blockComment ('/' :: '*' :: inside), after)
    | none => (.openComment ('/' :: '*' :: more), [])
  | _ => (.token .slash ['/'], rest)

/-- What follows a double quote. -/
def afterQuote (rest : List Char) : Piece × List Char :=
  match rest.dropWhile (· != '"') with
  | [] => (.openString ('"' :: rest), [])
  | quote :: after => (.token .string ('"' :: rest.takeWhile (· != '"') ++ [quote]), after)

/-- A number whose first digit is `c`. A point belongs to it only when a digit follows. -/
def numberFrom (c : Char) (rest : List Char) : Piece × List Char :=
  let whole := c :: rest.takeWhile isDigit
  match rest.dropWhile isDigit with
  | '.' :: d :: more =>
    if isDigit d then
      (.token .number (whole ++ '.' :: d :: more.takeWhile isDigit), more.dropWhile isDigit)
    else (.token .number whole, '.' :: d :: more)
  | after => (.token .number whole, after)

/-- A name or a reserved word that begins with `c`. -/
def wordFrom (c : Char) (rest : List Char) : Piece × List Char :=
  let word := c :: rest.takeWhile isNamePart
  (.token ((TokenKind.ofWord? (String.ofList word)).getD .identifier) word,
    rest.dropWhile isNamePart)

/-- The first piece of `c :: rest`, and what comes after it. -/
def first (c : Char) (rest : List Char) : Piece × List Char :=
  match singleSign? c with
  | some kind => (.token kind [c], rest)
  | none =>
    match lengthenedSign? c with
    | some (alone, lengthened) =>
      match rest with
      | '=' :: more => (.token lengthened [c, '='], more)
      | _ => (.token alone [c], rest)
    | none =>
      if c == '/' then afterSlash rest
      else if isSpace c then (.blank c, rest)
      else if c == '"' then afterQuote rest
      else if isDigit c then numberFrom c rest
      else if isNameStart c then wordFrom c rest
      else (.stray c, rest)

/-- The first pieces of a text, at most `fuel` of them. -/
def splitUpTo : Nat → List Char → List Piece
  | 0, _ => []
  | _ + 1, [] => []
  | fuel + 1, c :: rest =>
    match first c rest with
    | (piece, after) => piece :: splitUpTo fuel after

/-- All pieces of a text. No piece is empty, so there are at most as many as characters. -/
def split (source : List Char) : List Piece := splitUpTo source.length source

end Piece

end Treewalk

import Treewalk.Constant

/-!
Tokens: the words and signs of a program, each with the place where it was found. A token's line is
the one it ends on. Its column counts characters from the start of that line and is missing when the
token began on an earlier one. Tokens built by hand may carry any line and column.
-/

namespace Treewalk

inductive TokenKind where
  | leftParen | rightParen | leftBrace | rightBrace
  | comma | dot | minus | plus | semicolon | slash | star | question | colon
  | bang | bangEqual | equal | equalEqual | greater | greaterEqual | less | lessEqual
  | identifier | string | number
  | andWord | classWord | elseWord | falseWord | funWord | forWord | ifWord | nilWord | orWord
  | printWord | returnWord | superWord | thisWord | trueWord | varWord | whileWord
  | endOfInput
deriving DecidableEq, Repr

namespace TokenKind

def all : List TokenKind := [
  .leftParen, .rightParen, .leftBrace, .rightBrace, .comma, .dot, .minus, .plus, .semicolon,
  .slash, .star, .question, .colon, .bang, .bangEqual, .equal, .equalEqual, .greater,
  .greaterEqual, .less, .lessEqual, .identifier, .string, .number, .andWord, .classWord,
  .elseWord, .falseWord, .funWord, .forWord, .ifWord, .nilWord, .orWord, .printWord,
  .returnWord, .superWord, .thisWord, .trueWord, .varWord, .whileWord, .endOfInput]

/-- The name of a kind in the description of a token. -/
def name : TokenKind → String
  | .leftParen => "LEFT_PAREN"
  | .rightParen => "RIGHT_PAREN"
  | .leftBrace => "LEFT_BRACE"
  | .rightBrace => "RIGHT_BRACE"
  | .comma => "COMMA"
  | .dot => "DOT"
  | .minus => "MINUS"
  | .plus => "PLUS"
  | .semicolon => "SEMICOLON"
  | .slash => "SLASH"
  | .star => "STAR"
  | .question => "QUESTION"
  | .colon => "COLON"
  | .bang => "BANG"
  | .bangEqual => "BANG_EQUAL"
  | .equal => "EQUAL"
  | .equalEqual => "EQUAL_EQUAL"
  | .greater => "GREATER"
  | .greaterEqual => "GREATER_EQUAL"
  | .less => "LESS"
  | .lessEqual => "LESS_EQUAL"
  | .identifier => "IDENTIFIER"
  | .string => "STRING"
  | .number => "NUMBER"
  | .andWord => "AND"
  | .classWord => "CLASS"
  | .elseWord => "ELSE"
  | .falseWord => "FALSE"
  | .funWord => "FUN"
  | .forWord => "FOR"
  | .ifWord => "IF"
  | .nilWord => "NIL"
  | .orWord => "OR"
  | .printWord => "PRINT"
  | .returnWord => "RETURN"
  | .superWord => "SUPER"
  | .thisWord => "THIS"
  | .trueWord => "TRUE"
  | .varWord => "VAR"
  | .whileWord => "WHILE"
  | .endOfInput => "EOF"

def ofName? (n : String) : Option TokenKind := all.find? fun k => k.name == n

/-- The reserved words. -/
def ofWord? : String → Option TokenKind
  | "and" => some .andWord
  | "class" => some .classWord
  | "else" => some .elseWord
  | "false" => some .falseWord
  | "for" => some .forWord
  | "fun" => some .funWord
  | "if" => some .ifWord
  | "nil" => some .nilWord
  | "or" => some .orWord
  | "print" => some .printWord
  | "return" => some .returnWord
  | "super" => some .superWord
  | "this" => some .thisWord
  | "true" => some .trueWord
  | "var" => some .varWord
  | "while" => some .whileWord
  | _ => none

end TokenKind

structure Token where
  kind : TokenKind
  lexeme : String
  /-- What a number or a string holds; `nil` for every other token. -/
  literal : Constant
  line : Int
  column : Option Int
deriving DecidableEq

/-- Kind, lexeme and literal in one line. -/
def Token.describe (t : Token) : String :=
  t.kind.name ++ " " ++ t.lexeme ++ " " ++ t.literal.describe

end Treewalk

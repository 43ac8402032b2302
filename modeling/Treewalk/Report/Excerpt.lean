import Treewalk.Text.Style

/-!
Excerpts: a line of the source with one lexeme marked, and an underline below it. The lexeme is looked
for at the column given, and at its first occurrence when it does not stand there. A negative column
counts from the end of the line.
-/

namespace Treewalk.Excerpt

open Text

/-- The first position at which `needle` stands. -/
def indexOf? (needle : List Char) : List Char → Option Nat
  | [] => if needle.isEmpty then some 0 else none
  | c :: rest =>
    if needle.isPrefixOf (c :: rest) then some 0 else (indexOf? needle rest).map (· + 1)

/-- The position in a line of `length` characters that an index means. A negative index counts from
the end, and an index outside the line means its nearer end. -/
def position (length : Nat) (index : Int) : Nat :=
  if index < 0 then (index + length).toNat else min index.toNat length

/-- The part of a line between two indices. -/
def slice (line : List Char) (start stop : Int) : List Char :=
  let first := position line.length start
  let last := position line.length stop
  (line.drop first).take (last - first)

/-- Where the lexeme is marked; nothing when it is empty or not in the line. -/
def markAt? (line lexeme : List Char) (column : Option Int) : Option Int :=
  if lexeme.isEmpty then none
  else
    match indexOf? lexeme line with
    | none => none
    | some first =>
      match column with
      | none => some first
      | some c => if slice line c (c + lexeme.length) = lexeme then some c else some first

/-- The indentation of both lines. -/
def margin : String := "    "

/-- The line with the lexeme marked, and the underline. -/
def text? (style : Style) (line lexeme : List Char) (column : Option Int) : Option String :=
  (markAt? line lexeme column).map fun (start : Int) =>
    let stop : Int := start + lexeme.length
    margin ++ String.ofList (line.take (position line.length start)) ++
      style.alarm (String.ofList (slice line start stop)) ++
      String.ofList (line.drop (position line.length stop)) ++ "\n" ++
      margin ++ String.ofList (List.replicate start.toNat ' ') ++
      style.alarm (String.ofList ('^' :: List.replicate (lexeme.length - 1) '~'))

end Treewalk.Excerpt

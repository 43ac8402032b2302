/-!
Two ways of cutting a text into lines. A *shown line* ends at any line boundary of Unicode, which is
how a report looks up the line to quote. A *fed line* ends at a line feed only, which is how input is
handed to the prompt. In both a final boundary adds no empty line.
-/

namespace Treewalk.Text

/-- A character that ends a shown line. -/
def isLineBreak (c : Char) : Bool :=
  let n := c.toNat
  decide (0x0A ≤ n ∧ n ≤ 0x0D) || decide (0x1C ≤ n ∧ n ≤ 0x1E) || n == 0x85 || n == 0x2028 ||
    n == 0x2029

/-- Cuts after each break; `line` holds the current line so far, last character first, and
`afterReturn` says that the last break was a carriage return, which takes a line feed with it. -/
def shownLinesFrom (line : List Char) (afterReturn : Bool) : List Char → List (List Char)
  | [] => if line.isEmpty then [] else [line.reverse]
  | c :: rest =>
    if afterReturn && c == '\n' then shownLinesFrom [] false rest
    else if isLineBreak c then line.reverse :: shownLinesFrom [] (c == '\r') rest
    else shownLinesFrom (c :: line) false rest

/-- The lines of a text as a report shows them. -/
def shownLines (text : List Char) : List (List Char) := shownLinesFrom [] false text

/-- Cuts after each line feed; `line` holds the current line so far, last character first. -/
def fedLinesFrom (line : List Char) : List Char → List (List Char)
  | [] => if line.isEmpty then [] else [line.reverse]
  | c :: rest => if c == '\n' then line.reverse :: fedLinesFrom [] rest else fedLinesFrom (c :: line) rest

/-- The lines of a text as they are fed to the prompt. -/
def fedLines (text : List Char) : List (List Char) := fedLinesFrom [] text

/-- Every carriage return, with the line feed after it if there is one, becomes a line feed. -/
def unifyNewlines : List Char → List Char
  | [] => []
  | '\r' :: '\n' :: rest => '\n' :: unifyNewlines rest
  | c :: rest => (if c == '\r' then '\n' else c) :: unifyNewlines rest

end Treewalk.Text

import Treewalk.Diagnostic
import Treewalk.Report.Excerpt
import Treewalk.Text.Lines

/-!
Reports: diagnostics as they are shown, each followed by an excerpt of its line when the lexeme that
it blames is found there.
-/

namespace Treewalk.Report

open Text

/-- The message of a diagnostic, with the path of the program if it has one. -/
def headline (style : Style) (path : Option String) (d : Diagnostic) : String :=
  (match path with
    | none => ""
    | some p => style.bold (p ++ ":")) ++
    style.bold (Diagnostic.lineTag d.line) ++ style.alarm d.heading ++ d.message

/-- The excerpt under a diagnostic. -/
def excerpt? (style : Style) (lines : List (List Char)) (d : Diagnostic) : Option String :=
  if 0 < d.line then
    match lines[d.line.toNat - 1]? with
    | none => none
    | some line => Excerpt.text? style line d.lexeme.toList d.column
  else none

/-- Everything that is printed about diagnostics of a source, in order. -/
def lines (style : Style) (path : Option String) (source : String) (ds : List Diagnostic) :
    List String :=
  let shown := shownLines source.toList
  ds.flatMap fun d => headline style path d :: (excerpt? style shown d).toList

end Treewalk.Report

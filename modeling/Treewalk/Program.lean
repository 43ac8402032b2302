import Treewalk.Program.Statement
import Treewalk.Token.Scan

/-!
Programs: the statements read from a list of tokens or from a source, and the faults found on the
way. Malformed declarations are reported and left out, so there is always a program, unless nesting
goes deeper than the limit.
-/

namespace Treewalk

structure Program where
  statements : List Stmt
  faults : List Diagnostic

namespace Program

/-- Where reading starts: the tokens before the first end token, and the line of that one. A list
without an end token is read as if one stood after it on the first line. -/
def cursor (tokens : List Token) : Cursor :=
  ⟨tokens.takeWhile fun t => t.kind != .endOfInput,
    ((tokens.find? fun t => t.kind == .endOfInput).map Token.line).getD 1, #[]⟩

/-- Reads the tokens up to the first end token. -/
def ofTokens (depth : Nat) (tokens : List Token) : Option Program :=
  let start := cursor tokens
  match Parse.declarationsUpTo none (Parse.declaration depth false) start.rest.length start with
  | .ok statements c => some ⟨statements, c.reported.toList⟩
  | .error _ _ => none

/-- Scans and reads a source. The lexical faults come first. -/
def ofSource (depth : Nat) (source : String) : Option Program :=
  let scan := Scan.ofSource source
  (ofTokens depth scan.tokens).map fun p => ⟨p.statements, scan.faults ++ p.faults⟩

end Program

end Treewalk

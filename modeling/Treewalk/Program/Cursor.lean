import Treewalk.Diagnostic
import Treewalk.Program.Fault

/-!
Reading tokens one after another. A cursor holds the tokens still to be read and the faults reported
so far. A reader either gives a result, or unwinds: to the enclosing declaration when the tokens are
malformed (the fault is reported by then), or out of the whole reading when nesting is too deep. In
each case the cursor is kept.
-/

namespace Treewalk

structure Cursor where
  /-- The tokens before the end of the input that are not read yet. -/
  rest : List Token
  /-- The line of the end of the input. -/
  endLine : Int
  reported : Array Diagnostic

/-- Why a reader gives no result. -/
inductive Unwind where
  | malformed
  | tooDeep
deriving DecidableEq, Repr

/-- Reads a part of a program. -/
abbrev Parse := EStateM Unwind Cursor

namespace Cursor

def report (c : Cursor) (d : Diagnostic) : Cursor := { c with reported := c.reported.push d }

/-- The diagnostic of a fault at the next token, or at the end of the input. -/
def faultHere (c : Cursor) (fault : SyntaxFault) : Diagnostic :=
  match c.rest with
  | [] => .atEnd c.endLine fault.message
  | t :: _ => .atToken t fault.message

/-- Keywords that begin a declaration or a statement. -/
def startsStatement (kind : TokenKind) : Bool :=
  match kind with
  | .classWord | .funWord | .varWord | .forWord | .ifWord | .whileWord | .printWord
  | .returnWord => true
  | _ => false

/-- Drops tokens up to the probable start of a statement, given the token dropped last. -/
def skipAfter (last : TokenKind) : List Token → List Token
  | [] => []
  | t :: rest =>
    if last = .semicolon ∨ startsStatement t.kind then t :: rest else skipAfter t.kind rest

/-- Drops the next token, and all after it up to the probable start of a statement. -/
def synchronize (c : Cursor) : Cursor :=
  match c.rest with
  | [] => c
  | t :: rest => { c with rest := skipAfter t.kind rest }

end Cursor

namespace Parse

/-- Gives up because nesting is too deep. -/
def tooDeep {α : Type} : Parse α := throw .tooDeep

def report (t : Token) (fault : SyntaxFault) : Parse Unit :=
  fun c => .ok () (c.report (.atToken t fault.message))

def reportHere (fault : SyntaxFault) : Parse Unit :=
  fun c => .ok () (c.report (c.faultHere fault))

/-- Reports a fault at the next token and unwinds to the enclosing declaration. -/
def fail {α : Type} (fault : SyntaxFault) : Parse α :=
  fun c => .error .malformed (c.report (c.faultHere fault))

/-- Whether the next token is of this kind. -/
def nextIs (kind : TokenKind) : Parse Bool :=
  fun c =>
    match c.rest with
    | [] => .ok false c
    | t :: _ => .ok (decide (t.kind = kind)) c

/-- Reads the next token if it is of one of these kinds. -/
def accept? (kinds : List TokenKind) : Parse (Option Token) :=
  fun c =>
    match c.rest with
    | [] => .ok none c
    | t :: rest => if kinds.contains t.kind then .ok (some t) { c with rest } else .ok none c

/-- Reads the next token, which has to be of this kind. -/
def expect (kind : TokenKind) (fault : SyntaxFault) : Parse Token := do
  match ← accept? [kind] with
  | some t => return t
  | none => fail fault

/-- Reports only when something is wrong. -/
def reportIf (wrong : Bool) (reporting : Parse Unit) : Parse Unit :=
  if wrong then reporting else return ()

/-- Reads nothing when a token of kind `stop` comes next. -/
def unlessNext {α : Type} (stop : TokenKind) (p : Parse α) : Parse (Option α) := do
  if ← nextIs stop then return none else some <$> p

/-- Reads only after a token of this kind, which is read too. -/
def afterSign {α : Type} (kind : TokenKind) (p : Parse α) : Parse (Option α) := do
  match ← accept? [kind] with
  | none => return none
  | some _ => some <$> p

/-- How many tokens are left: each turn of a loop over tokens reads at least one. -/
def remaining : Parse Nat := fun c => .ok c.rest.length c

/-- One item or more, with commas between them, `count` of which were read before. `excess` is reported
at every item past the most that there may be. -/
def itemsFrom {α : Type} (excess : SyntaxFault) (item : Parse α) : Nat → Nat → Parse (List α)
  | 0, _ => return []
  | fuel + 1, count => do
    reportIf (decide (mostArguments ≤ count)) (reportHere excess)
    let first ← item
    match ← accept? [.comma] with
    | none => return [first]
    | some _ =>
      let more ← itemsFrom excess item fuel (count + 1)
      return first :: more

/-- Items with commas between them, or none, up to the closing parenthesis, which is read too. -/
def items {α : Type} (excess unclosed : SyntaxFault) (item : Parse α) : Parse (List α) := do
  let fuel ← remaining
  let found ← unlessNext .rightParen (itemsFrom excess item (fuel + 1) 0)
  let _ ← expect .rightParen unclosed
  return found.getD []

/-- Reads a declaration; after a malformed one, skips to the next statement and gives nothing. -/
def recovering {α : Type} (p : Parse α) : Parse (Option α) :=
  fun c =>
    match p c with
    | .ok a c' => .ok (some a) c'
    | .error .malformed c' => .ok none c'.synchronize
    | .error .tooDeep c' => .error .tooDeep c'

end Parse

end Treewalk

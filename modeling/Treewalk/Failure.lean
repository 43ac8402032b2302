import Treewalk.Diagnostic
import Treewalk.Limits
import Treewalk.Run.World
import Treewalk.Text.Style
import Treewalk.Text.Template

/-!
Failures that reach the outermost level, and the guard that meets them there. A guard prints what went
wrong. A fatal guard then ends the command with the status of the failure; any other guard lets things
go on, unless the failure is one that nobody expected.
-/

namespace Treewalk

open Text

/-- How a run or a command ends. -/
inductive Status where
  | ok
  | usage
  | badProgram
  | noInput
  | broken
deriving DecidableEq, Repr

def Status.code : Status → Int
  | .ok => 0
  | .usage => 64
  | .badProgram => 65
  | .noInput => 66
  | .broken => 70

/-- An error that is told to the user. -/
structure Complaint where
  message : String
  token : Option Token
  /-- Whether the interpreter itself is at fault. -/
  internal : Bool
  status : Int
deriving DecidableEq

namespace Complaint

def plain (message : String) (status : Status) : Complaint := ⟨message, none, false, status.code⟩

/-- A complaint whose message is a filled template. -/
def ofTemplate (template : String) (arguments : List String) (token : Option Token)
    (internal : Bool) (status : Int) : Complaint :=
  ⟨String.ofList (fillTemplate template.toList arguments), token, internal, status⟩

def ofFault (f : RuntimeFault) : Complaint := ⟨f.message, some f.token, false, Status.broken.code⟩

/-- The printed text. -/
def text (style : Style) (c : Complaint) : String :=
  (if c.internal then style.alarm "[internal] " else "") ++
    (match c.token with
      | none => ""
      | some t => style.bold (Diagnostic.lineTag t.line)) ++
    style.alarm "error: " ++ c.message

end Complaint

inductive Failure where
  | complaint (c : Complaint)
  | tooDeep
  | interrupted
  /-- The command is to end with this status. -/
  | exit (status : Int)
  /-- An error that the interpreter does not know, by its kind and its text. -/
  | unexpected (kind text : String)
  /-- The run does not end. -/
  | endless
deriving DecidableEq

namespace Failure

def ofStop : Stop → Failure
  | .fault f => .complaint (.ofFault f)
  | .unknownExpression form =>
    .complaint ⟨"unknown expression '" ++ form ++ "'", none, true, Status.broken.code⟩
  | .unknownStatement form =>
    .complaint ⟨"unknown statement '" ++ form ++ "'", none, true, Status.broken.code⟩
  | .unknownOperator op =>
    .unexpected "KeyError" ("<TokenType." ++ op.kind.name ++ ": " ++
      toString (TokenKind.all.idxOf op.kind + 1) ++ ">")
  | .zeroDivision _ => .unexpected "ZeroDivisionError" "float division by zero"
  | .tooDeep => .tooDeep
  | .endless => .endless

/-- What is told about a failure. -/
def complaint? : Failure → Option Complaint
  | .complaint c => some c
  | .tooDeep => some (.plain depthMessage .broken)
  | .interrupted => some (.plain "keyboard interrupt" .broken)
  | .exit _ => none
  | .unexpected kind text =>
    some ⟨"unknown error: '" ++ kind ++ ": " ++ text ++ "'", none, true, Status.broken.code⟩
  | .endless => none

end Failure

/-- What follows a failure. -/
inductive Aftermath where
  /-- Things go on. -/
  | resumed
  /-- The command ends with this status. -/
  | exits (status : Int)
  /-- The failure goes on outwards. -/
  | escapes
deriving DecidableEq, Repr

structure Guard where
  fatal : Bool
  style : Style

namespace Guard

/-- What a guard prints about a failure. -/
def message? (g : Guard) (f : Failure) : Option String := f.complaint?.map fun c => c.text g.style

def aftermath (g : Guard) (f : Failure) : Aftermath :=
  match f with
  | .exit status => .exits status
  | .endless => .escapes
  | .unexpected _ _ => if g.fatal then .exits Status.broken.code else .escapes
  | .complaint c => if g.fatal then .exits c.status else .resumed
  | .tooDeep => if g.fatal then .exits Status.broken.code else .resumed
  | .interrupted => if g.fatal then .exits Status.broken.code else .resumed

end Guard

end Treewalk

import Treewalk.Failure
import Treewalk.Program
import Treewalk.Report
import Treewalk.Run.Interpret
import Treewalk.Tree.Outline

/-!
Sessions. A session runs sources one after another in one world, so that later ones find the globals
of earlier ones. A source with a static fault is reported and not run at all. A runtime fault is
reported and ends its source; what was printed and assigned before it stays.
-/

namespace Treewalk

structure Session where
  guard : Guard
  /-- The path of the program, shown in reports. -/
  path : String
  /-- Whether the outline of a program is printed before it runs. -/
  showOutlines : Bool
  world : World

/-- How running a source ends. -/
inductive Ending where
  | finished (status : Status)
  | failed (f : Failure)
deriving DecidableEq

namespace Session

/-- Stands for the path when there is no file. -/
def promptPath : String := "<in>"

/-- Opens a session. An interactive one is never ended by a failure; any other needs a real path. -/
def «open» (guard : Guard) (path : String) (interactive showOutlines : Bool) (clock : Clock) :
    Except Complaint Session :=
  if interactive then
    .ok ⟨{ guard with fatal := false }, path, showOutlines, .initial clock⟩
  else if path = promptPath then
    .error (.plain ("'" ++ promptPath ++ "' is a reserved filename") .usage)
  else .ok ⟨guard, path, showOutlines, .initial clock⟩

/-- The path shown in reports. -/
def shownPath (s : Session) : Option String :=
  if s.path = promptPath then none else some s.path

/-- Prints the outlines of statements, up to the first that has none. -/
def printOutlines (depth : Nat) : List Stmt → EStateM Failure World Unit
  | [] => return ()
  | stmt :: rest => do
    match Outline.ofStmt depth stmt with
    | .ok line =>
      modify fun w => { w with printed := w.printed.push line }
      printOutlines depth rest
    | .error .tooDeep => throw .tooDeep
    | .error (.unprintable form) =>
      throw (.unexpected "TypeError" (OutlineFault.unprintable form).message)

/-- Prints a report. -/
def printReport (s : Session) (source : String) (ds : List Diagnostic) (w : World) : World :=
  { w with printed := w.printed ++ Report.lines s.guard.style s.shownPath source ds }

/-- Runs statements, and reports a runtime fault if there is one. -/
def interpret (limits : Limits) (s : Session) (source : String) (statements : List Stmt)
    (w : World) : Ending × World :=
  match Run.interpret limits statements [] w with
  | ⟨.ok _, diagnostics, w⟩ =>
    if hasRuntime diagnostics then (.finished .broken, s.printReport source diagnostics w)
    else (.finished .ok, w)
  | ⟨.error stop, _, w⟩ => (.failed (.ofStop stop), w)

/-- Scans, reads and runs a source in a world. -/
def runIn (limits : Limits) (s : Session) (source : String) (w : World) : Ending × World :=
  match Program.ofSource limits.depth source with
  | none => (.failed .tooDeep, w)
  | some program =>
    if hasStatic program.faults then
      (.finished .badProgram, s.printReport source program.faults w)
    else if s.showOutlines then
      match printOutlines limits.depth program.statements w with
      | .error f w => (.failed f, w)
      | .ok _ w => s.interpret limits source program.statements w
    else s.interpret limits source program.statements w

/-- What running a source gives: how it ended, the lines that it printed, and the session after. -/
structure Result where
  ending : Ending
  printed : List String
  session : Session

def run (limits : Limits) (s : Session) (source : String) : Result :=
  match s.runIn limits source { s.world with printed := #[] } with
  | (ending, w) => ⟨ending, w.printed.toList, { s with world := { w with printed := #[] } }⟩

end Session

end Treewalk

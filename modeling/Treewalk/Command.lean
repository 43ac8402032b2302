import Treewalk.Command.Arguments
import Treewalk.Prompt
import Treewalk.Text.Utf8

/-!
The command: it runs one file, or talks at the prompt. Everything that it prints and its exit status
follow from the arguments, the files and the input.
-/

namespace Treewalk

open Text

/-- What opening a file gives. -/
inductive FileContent where
  | unavailable
  | bytes (content : List Nat)

/-- What the command does. -/
structure Response where
  out : String
  err : String
  status : Int
deriving DecidableEq, Repr

namespace Command

def usage : String := "usage: lox [-h] [--ast] [--no-color] [file]\n"

def helpText : String :=
  usage ++ "\n" ++
  "Tree-walking interpreter for the lox language.\n" ++ "\n" ++
  "positional arguments:\n" ++
  "  file        script to interpret and run (if empty, goes to command-line\n" ++
  "              mode)\n" ++ "\n" ++
  "options:\n" ++
  "  -h, --help  show this help message and exit\n" ++
  "  --ast       print parsed statements before running them\n" ++
  "  --no-color  do not color error messages\n"

/-- The status of a command whose arguments are refused. -/
def refusedStatus : Int := 2

/-- What ends a command early: the guard's message and its status. -/
def failed (g : Guard) (printed : List String) (f : Failure) : Response where
  out := printedText (printed ++ (g.message? f).toList)
  err := ""
  status :=
    match g.aftermath f with
    | .exits status => status
    | _ => Status.broken.code

/-- The text of a file, or why it cannot be had. -/
def sourceOf (files : String → FileContent) (path : String) : Except Failure String :=
  if path.toList.contains (Char.ofNat 0) then .error (.unexpected "ValueError" "embedded null byte")
  else
    match files path with
    | .unavailable =>
      .error (.complaint (.plain ("'" ++ path ++ "' could not be opened") .noInput))
    | .bytes content =>
      match decodeUtf8 content with
      | .error fault => .error (.unexpected "UnicodeDecodeError" fault.text)
      | .ok chars => .ok (String.ofList (unifyNewlines chars))

/-- Runs a file. -/
def runFile (limits : Limits) (clock : Clock) (files : String → FileContent) (guard : Guard)
    (outline : Bool) (path : String) : Response :=
  match Session.open guard path false outline clock with
  | .error c => failed guard [] (.complaint c)
  | .ok session =>
    match sourceOf files path with
    | .error f => failed guard [] f
    | .ok source =>
      let r := session.run limits source
      match r.ending with
      | .finished status => ⟨printedText r.printed, "", status.code⟩
      | .failed f => failed guard r.printed f

/-- A prompt at its start. -/
def prompt (clock : Clock) (style : Style) (outline : Bool) : Prompt :=
  .ofSession ⟨⟨false, style⟩, Session.promptPath, outline, .initial clock⟩

/-- Talks at the prompt until the input ends. -/
def runPrompt (limits : Limits) (clock : Clock) (style : Style) (outline : Bool) (input : String) :
    Response :=
  match (prompt clock style outline).converse limits (fedLines input.toList) with
  | (shown, escaped) =>
    ⟨Prompt.greeting ++ "\n" ++ shown, "",
      match escaped with
      | none => Status.ok.code
      | some _ => Status.broken.code⟩

/-- The whole command. -/
def run (limits : Limits) (clock : Clock) (terminal : Style) (arguments : List String)
    (files : String → FileContent) (input : String) : Response :=
  match Arguments.parse arguments with
  | .help => ⟨helpText, "", Status.ok.code⟩
  | .refused f => ⟨"", usage ++ "lox: error: " ++ f.message ++ "\n", refusedStatus⟩
  | .accepted a =>
    match a.file with
    | some path => runFile limits clock files ⟨true, a.style terminal⟩ a.outline path
    | none => runPrompt limits clock (a.style terminal) a.outline input

end Command

end Treewalk

import Treewalk.Command

/-!
The command line. It opens the file, or reads the input line by line, and prints what the command
answers; what that is, `Command.run` and `Prompt.feed` say.
-/

namespace Treewalk

/-- A clock that starts at the machine's time, in seconds. -/
def machineClock : IO Clock := do
  let milliseconds ← IO.monoMsNow
  return .ticking (Float.ofNat milliseconds / 1000.0) 0.001

/-- The bytes of the file at a path. A path that no file can have is not looked up. -/
def openFile (path : String) : IO FileContent := do
  if path.toList.contains (Char.ofNat 0) then return .unavailable
  try
    let content ← IO.FS.readBinFile path
    return .bytes (content.toList.map UInt8.toNat)
  catch _ => return .unavailable

/-- Prints a response and gives its status. -/
def deliver (r : Response) : IO UInt32 := do
  IO.print r.out
  IO.eprint r.err
  return r.status.toNat.toUInt32

/-- Talks at the prompt, one line at a time, so that each answer is shown before the next line is
read. -/
partial def talk (limits : Limits) (p : Prompt) : IO UInt32 := do
  let out ← IO.getStdout
  out.putStr p.mark
  out.flush
  let line ← (← IO.getStdin).getLine
  let fed := if line.isEmpty then Prompt.lastLine else line.toList.takeWhile (· != '\n')
  let step := p.feed limits fed
  out.putStr (printedText step.printed)
  if step.escaped.isSome then return Status.broken.code.toNat.toUInt32
  else if step.done then return Status.ok.code.toNat.toUInt32
  else talk limits step.prompt

/-- Does what the arguments ask for. -/
def start (arguments : List String) : IO UInt32 := do
  let limits := Limits.standard
  let clock ← machineClock
  match Arguments.parse arguments with
  | .accepted a =>
    match a.file with
    | none =>
      IO.println Prompt.greeting
      talk limits (Command.prompt clock (a.style .terminal) a.outline)
    | some path =>
      let content ← openFile path
      deliver (Command.run limits clock .terminal arguments (fun _ => content) "")
  | _ => deliver (Command.run limits clock .terminal arguments (fun _ => .unavailable) "")

end Treewalk

def main (arguments : List String) : IO UInt32 := Treewalk.start arguments

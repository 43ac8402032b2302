import Treewalk.Session
import Treewalk.Text.Blank

/-!
The interactive prompt. A line is a command (`help`, `exit`, `EOF`) or part of a program. Lines are
collected while a brace or a parenthesis is open, and run as one source as soon as none is. A command
word that is followed by anything is part of a program like any other name.
-/

namespace Treewalk

open Text

/-- What a line asks for. -/
inductive Request where
  | blank
  | code (text : List Char)
  | help (argument : List Char)
  | exit (argument : List Char)
  | endOfInput
deriving DecidableEq, Repr

namespace Request

/-- A character of a command word: an ASCII letter or digit, or an underscore. -/
def isWordPart (c : Char) : Bool := c.isAlphanum || c == '_'

/-- The request of a stripped line. The command word is the longest run of word characters at its
start, and the argument is the rest without the blanks around it. -/
def ofStripped (line : List Char) : Request :=
  let word := String.ofList (line.takeWhile isWordPart)
  let argument := strip (line.dropWhile isWordPart)
  if word = "help" then .help argument
  else if word = "exit" then .exit argument
  else if word = "EOF" then .endOfInput
  else .code line

/-- The request of a line. A question mark in front stands for the word `help`, and a line with an
exclamation mark in front is always code. -/
def ofLine (line : List Char) : Request :=
  match strip line with
  | [] => .blank
  | '?' :: rest => ofStripped ("help ".toList ++ rest)
  | '!' :: rest => .code ('!' :: rest)
  | c :: rest => ofStripped (c :: rest)

end Request

/-- Whether a source has more braces or parentheses opened than closed. -/
def needsContinuation (source : List Char) : Bool :=
  let kinds := (Scan.ofChars source).tokens.map Token.kind
  decide (kinds.count .rightBrace < kinds.count .leftBrace) ||
    decide (kinds.count .rightParen < kinds.count .leftParen)

structure Prompt where
  session : Session
  /-- The lines of a source that is not complete yet, each with its line feed. -/
  pending : List Char
  /-- What stands in front of the next line. -/
  mark : String

namespace Prompt

/-- What the prompt prints once, when it starts. -/
def greeting : String :=
  "lox interpreter :: Python backend\n" ++
  "Type 'help' for more information, 'exit' or Ctrl-D to quit."

def helpText : String :=
  "Welcome to the lox interpreter!\n\n" ++
  "lox is a small dynamically-typed scripting language with first-class functions \n" ++
  "and closures. Statements end with ';' and blocks can span several lines.\n\n" ++
  "Try it out by typing 'var greeting = \"hello\";', then 'print greeting + \" world\";'.\n" ++
  "Functions are declared with 'fun add(a, b) \x7b return a + b; \x7d'."

/-- Stands in front of a line that begins a source. -/
def firstMark : String := "> "

/-- Stands in front of a line that goes on with a source. -/
def secondMark : String := ". "

/-- A prompt that waits for its first line. -/
def ofSession (s : Session) : Prompt := ⟨s, [], firstMark⟩

/-- What a line gives: the prompt after it, the lines printed, whether the prompt is done, the source
that was run, if the line completed one, and the failure that even the prompt could not stop. -/
structure Step where
  prompt : Prompt
  printed : List String
  done : Bool
  ran : Option (List Char)
  escaped : Option Failure

/-- Runs a complete source. -/
def runSource (limits : Limits) (p : Prompt) (source : List Char) : Step :=
  let r := p.session.run limits (String.ofList source)
  let after := ofSession r.session
  match r.ending with
  | .finished _ => ⟨after, r.printed, false, some source, none⟩
  | .failed f =>
    let printed := r.printed ++ (p.session.guard.message? f).toList
    match p.session.guard.aftermath f with
    | .resumed => ⟨after, printed, false, some source, none⟩
    | _ => ⟨after, printed, false, some source, some f⟩

/-- Adds a line of code, and runs what is pending if it is complete. -/
def addCode (limits : Limits) (p : Prompt) (line : List Char) : Step :=
  let source := p.pending ++ line
  if needsContinuation source then
    ⟨{ p with pending := source ++ ['\n'], mark := secondMark }, [], false, none, none⟩
  else p.runSource limits source

/-- An empty line counts only inside a source. -/
def addBlank (p : Prompt) : Prompt :=
  if p.pending.isEmpty then p else { p with pending := p.pending ++ ['\n'] }

/-- Follows a request. -/
def follow (limits : Limits) (p : Prompt) : Request → Step
  | .blank => ⟨p.addBlank, [], false, none, none⟩
  | .code line => p.addCode limits line
  | .help argument =>
    if argument.isEmpty then ⟨p, [helpText], false, none, none⟩
    else p.addCode limits ("help ".toList ++ argument)
  | .exit argument =>
    if argument.isEmpty then ⟨p, [], true, none, none⟩
    else p.addCode limits ("exit ".toList ++ argument)
  | .endOfInput => ⟨p, [""], true, none, none⟩

/-- Takes one line. -/
def feed (limits : Limits) (p : Prompt) (line : List Char) : Step :=
  p.follow limits (Request.ofLine line)

/-- The line that the end of the input counts as. -/
def lastLine : List Char := "EOF".toList

/-- The text printed while lines are fed until the prompt is done. -/
def converse (limits : Limits) (p : Prompt) : List (List Char) → String × Option Failure
  | [] =>
    let step := p.feed limits lastLine
    (p.mark ++ printedText step.printed, step.escaped)
  | line :: rest =>
    let step := p.feed limits line
    let shown := p.mark ++ printedText step.printed
    if step.done then (shown, none)
    else
      match step.escaped with
      | some f => (shown, some f)
      | none =>
        match converse limits step.prompt rest with
        | (more, escaped) => (shown ++ more, escaped)

end Prompt

end Treewalk

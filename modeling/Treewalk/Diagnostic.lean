import Treewalk.Token

/-!
Diagnostics: what is wrong with a program, and where. A lexical fault is known by its line only, a
syntax fault by a token or by the end of the input, a runtime fault by a token.
-/

namespace Treewalk

/-- Where on its line a diagnostic points. -/
inductive Site where
  | line
  | endOfInput
  | token (lexeme : String) (column : Option Int)
  | runtime (lexeme : String) (column : Option Int)
deriving DecidableEq

structure Diagnostic where
  line : Int
  site : Site
  message : String
deriving DecidableEq

namespace Diagnostic

def onLine (line : Int) (message : String) : Diagnostic := ⟨line, .line, message⟩

def atEnd (line : Int) (message : String) : Diagnostic := ⟨line, .endOfInput, message⟩

/-- A syntax fault at a token; the token after the last one stands for the end of the input. -/
def atToken (t : Token) (message : String) : Diagnostic :=
  if t.kind = .endOfInput then atEnd t.line message
  else ⟨t.line, .token t.lexeme t.column, message⟩

def atRuntime (t : Token) (message : String) : Diagnostic :=
  ⟨t.line, .runtime t.lexeme t.column, message⟩

def isRuntime (d : Diagnostic) : Bool :=
  match d.site with
  | .runtime _ _ => true
  | _ => false

/-- The lexeme that a report underlines; empty when there is none. -/
def lexeme (d : Diagnostic) : String :=
  match d.site with
  | .token lexeme _ => lexeme
  | .runtime lexeme _ => lexeme
  | _ => ""

def column (d : Diagnostic) : Option Int :=
  match d.site with
  | .token _ column => column
  | .runtime _ column => column
  | _ => none

/-- The words between `Error` and the message of a static fault. -/
def place (d : Diagnostic) : String :=
  match d.site with
  | .endOfInput => " at end"
  | .token lexeme _ => " at '" ++ lexeme ++ "'"
  | _ => ""

/-- The line in square brackets, as every message gives it. -/
def lineTag (line : Int) : String := "[line " ++ toString line ++ "] "

/-- The heading of the message. -/
def heading (d : Diagnostic) : String :=
  if d.isRuntime then "runtime error: " else "Error" ++ d.place ++ ": "

def text (d : Diagnostic) : String := lineTag d.line ++ d.heading ++ d.message

end Diagnostic

/-- Whether a fault was found before running. -/
def hasStatic (ds : List Diagnostic) : Bool := ds.any fun d => !d.isRuntime

def hasRuntime (ds : List Diagnostic) : Bool := ds.any fun d => d.isRuntime

end Treewalk

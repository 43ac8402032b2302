/-!
Terminal styles of messages: one for positions and one for what went wrong. What a terminal has to be sent for
them is not fixed here. A style is any pair of functions on texts, and what is shown can be told where they
wrap their text (`Wraps`), that is, put one fixed text before it and one behind.
-/

namespace Treewalk.Text

/-- How positions and alarms are written. -/
structure Style where
  bold : String → String
  alarm : String → String

/-- A function on texts that puts the same two texts around every text. -/
def Wraps (f : String → String) (opening closing : String) : Prop :=
  ∀ text, f text = opening ++ text ++ closing

namespace Style

/-- No style at all. -/
def plain : Style := ⟨id, id⟩

/-- Bold and bold red, by the escape sequences that terminals commonly take. -/
def terminal : Style where
  bold text := "\x1b[1m" ++ text ++ "\x1b[0m"
  alarm text := "\x1b[1m\x1b[31m" ++ text ++ "\x1b[0m"

def ofBool (color : Bool) : Style := if color then terminal else plain

/-- What a terminal shows is wrapped in escape sequences, and the text between them stays. -/
theorem terminal_wraps : Wraps terminal.bold "\x1b[1m" "\x1b[0m" ∧
    Wraps terminal.alarm "\x1b[1m\x1b[31m" "\x1b[0m" :=
  ⟨fun _ => rfl, fun _ => rfl⟩

end Style

end Treewalk.Text

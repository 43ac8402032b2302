import Treewalk.Run.Fault
import Treewalk.Store

/-!
The world of a running program: the store, the lines printed, the number of functions made and the
time. A step of a run gives a result or stops, and the world is kept in both cases: what was printed
or assigned before a fault stays.
-/

namespace Treewalk

/-- The times that programs are told when they ask, in the order of asking. They can be any at all: nothing
says that a clock moves, or in which direction. -/
structure Clock where
  readings : Nat → Float
  /-- How many of them were told already. -/
  asked : Nat

namespace Clock

/-- What the next program to ask is told. -/
def now (c : Clock) : Float := c.readings c.asked

def next (c : Clock) : Clock := { c with asked := c.asked + 1 }

/-- A clock that moves on by one tick at every reading. -/
def ticking (start tick : Float) : Clock := ⟨fun n => start + Float.ofNat n * tick, 0⟩

/-- A clock that does not move. -/
def stopped : Clock := ⟨fun _ => 0, 0⟩

end Clock

structure World where
  store : Store
  printed : Array String
  functions : Nat
  clock : Clock

/-- Why a run stops before its end. -/
inductive Stop where
  | fault (f : RuntimeFault)
  /-- A gap or a statement in the place of an expression. -/
  | unknownExpression (form : String)
  /-- A gap or an expression in the place of a statement. -/
  | unknownStatement (form : String)
  /-- A binary operator that numbers do not have. -/
  | unknownOperator (op : Token)
  /-- A division by zero that was not met before the numbers were divided. -/
  | zeroDivision (op : Token)
  | tooDeep
  /-- A loop reached the bound on turns: the run is taken not to end. -/
  | endless
deriving DecidableEq

/-- A step of a running program. -/
abbrev Run := EStateM Stop World

/-- Printed lines as one text: every line with its line feed. -/
def printedText (lines : List String) : String :=
  String.join (lines.map fun line => line ++ "\n")

namespace World

/-- The number of the global scope. -/
def globals : ScopeId := 0

/-- A world with one scope, which binds the native functions. -/
def initial (clock : Clock) : World where
  store := Native.all.foldl (fun s f => s.define globals f.name (.function (.native f)))
    (Store.empty.add none)
  printed := #[]
  functions := 0
  clock

/-- The text printed so far. -/
def output (w : World) : String := printedText w.printed.toList

end World

namespace Run

def stop {α : Type} (s : Stop) : Run α := throw s

def fault {α : Type} (f : RuntimeFault) : Run α := throw (.fault f)

def print (line : String) : Run Unit :=
  fun w => .ok () { w with printed := w.printed.push line }

/-- Makes a scope inside another one. -/
def enter (enclosing : ScopeId) : Run ScopeId :=
  fun w => .ok w.store.next { w with store := w.store.add (some enclosing) }

def define (scope : ScopeId) (name : String) (value : Value) : Run Unit :=
  fun w => .ok () { w with store := w.store.define scope name value }

def lookup (scope : ScopeId) (name : Token) : Run Value :=
  fun w =>
    match w.store.get? scope name.lexeme with
    | some v => .ok v w
    | none => .error (.fault (.undefinedVariable name)) w

def assign (scope : ScopeId) (name : Token) (value : Value) : Run Unit :=
  fun w =>
    match w.store.owner? scope name.lexeme with
    | some owner => .ok () { w with store := w.store.define owner name.lexeme value }
    | none => .error (.fault (.undefinedVariable name)) w

/-- The number of a new function. -/
def freshFunction : Run Nat :=
  fun w => .ok w.functions { w with functions := w.functions + 1 }

def readClock : Run Value :=
  fun w => .ok (.number w.clock.now) { w with clock := w.clock.next }

end Run

end Treewalk

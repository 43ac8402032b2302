import Treewalk.Text.Quoted
import Treewalk.Value

/-!
The store: all scopes ever made, by number. A scope binds names to values and lies inside another
one, or inside none. A name means what the nearest scope that binds it says. Scopes are only ever
added, each inside one that exists already.
-/

namespace Treewalk

/-- Names and what they are bound to, each name once, in the order of their first binding. -/
abbrev Bindings := List (String × Value)

namespace Bindings

def find? (name : String) : Bindings → Option Value
  | [] => none
  | (n, v) :: rest => if n = name then some v else find? name rest

def set (name : String) (value : Value) : Bindings → Bindings
  | [] => [(name, value)]
  | (n, v) :: rest => if n = name then (n, value) :: rest else (n, v) :: set name value rest

def names (b : Bindings) : List String := b.map Prod.fst

end Bindings

structure Scope where
  bindings : Bindings
  /-- The scope around this one. -/
  enclosing : Option ScopeId

structure Store where
  scopes : Array Scope

namespace Store

def empty : Store := ⟨#[]⟩

/-- What a scope binds itself; nothing when there is no such scope. -/
def bindings (s : Store) (id : ScopeId) : Bindings :=
  match s.scopes[id]? with
  | some scope => scope.bindings
  | none => []

def enclosing? (s : Store) (id : ScopeId) : Option ScopeId :=
  match s.scopes[id]? with
  | some scope => scope.enclosing
  | none => none

/-- The number that the next scope will get. -/
def next (s : Store) : ScopeId := s.scopes.size

/-- Adds an empty scope. -/
def add (s : Store) (enclosing : Option ScopeId) : Store := ⟨s.scopes.push ⟨[], enclosing⟩⟩

/-- Binds a name in one scope, whether or not it is bound there already. -/
def define (s : Store) (id : ScopeId) (name : String) (value : Value) : Store :=
  ⟨s.scopes.modify id fun scope => { scope with bindings := scope.bindings.set name value }⟩

/-- The scopes from `id` outwards, at most `fuel` of them. -/
def outwards (s : Store) : Nat → ScopeId → List ScopeId
  | 0, _ => []
  | fuel + 1, id =>
    id :: match s.enclosing? id with
      | none => []
      | some outer => s.outwards fuel outer

/-- The scopes from `id` outwards. A scope lies inside an older one, so there are at most `id + 1`. -/
def chain (s : Store) (id : ScopeId) : List ScopeId := s.outwards (id + 1) id

/-- The nearest scope that binds a name. -/
def owner? (s : Store) (id : ScopeId) (name : String) : Option ScopeId :=
  (s.chain id).find? fun k => ((s.bindings k).find? name).isSome

/-- What a name means in a scope. -/
def get? (s : Store) (id : ScopeId) (name : String) : Option Value :=
  (s.chain id).findSome? fun k => (s.bindings k).find? name

/-- Rebinds a name in the nearest scope that binds it; nothing when no scope does. -/
def assign? (s : Store) (id : ScopeId) (name : String) (value : Value) : Option Store :=
  (s.owner? id name).map fun k => s.define k name value

/-- How many scopes lie around a scope. -/
def nesting (s : Store) (id : ScopeId) : Nat := (s.chain id).length - 1

/-- A scope in one line: how deep it lies and the names it binds, in the order of their characters. -/
def describe (s : Store) (id : ScopeId) : String :=
  "Environment(depth=" ++ toString (s.nesting id) ++ ", names=" ++
    Text.quotedList ((s.bindings id).names.mergeSort fun a b => decide (a ≤ b)) ++ ")"

end Store

end Treewalk

import Treewalk.Tree

/-!
What lies in a tree: the expressions and statements directly under a node, and those anywhere below it.
-/

namespace Treewalk

namespace Expr

/-- The expressions directly under an expression, from left to right. -/
def children : Expr → List Expr
  | .literal _ | .variable _ | .misplaced _ => []
  | .grouping e | .unary _ e | .assign _ e => [e]
  | .binary left _ right | .logical left _ right => [left, right]
  | .ternary condition yes no => [condition, yes, no]
  | .call callee _ arguments => callee :: arguments

/-- An expression is another one or lies somewhere in it. -/
inductive Within (d : Expr) : Expr → Prop where
  | here : Within d d
  | deeper {e c : Expr} : c ∈ e.children → Within d c → Within d e

/-- What lies within an expression is the expression itself, or lies within one of its children. -/
theorem within_iff {d e : Expr} : d.Within e ↔ d = e ∨ ∃ c ∈ e.children, d.Within c := by
  constructor
  · intro within
    cases within with
    | here => exact .inl rfl
    | deeper child inner => exact .inr ⟨_, child, inner⟩
  · rintro (rfl | ⟨c, child, inner⟩)
    · exact .here
    · exact .deeper child inner

/-- The children of what lies within an expression lie within it. -/
theorem Within.child {c d e : Expr} (within : d.Within e) (child : c ∈ d.children) : c.Within e := by
  induction within with
  | here => exact .deeper child .here
  | deeper outer _ ih => exact .deeper outer ih

end Expr

namespace Stmt

/-- The expressions directly under a statement. -/
def expressions : Stmt → List Expr
  | .expression e | .print e | .branch e _ _ | .loop e _ => [e]
  | .var _ value | .return _ value => value.toList
  | .block _ | .function _ _ _ | .misplaced _ => []

/-- The statements directly under a statement. -/
def parts : Stmt → List Stmt
  | .block body | .function _ _ body => body
  | .branch _ yes no => yes :: no.toList
  | .loop _ body => [body]
  | .expression _ | .print _ | .var _ _ | .return _ _ | .misplaced _ => []

/-- A statement is another one or lies somewhere in it. -/
inductive Within (t : Stmt) : Stmt → Prop where
  | here : Within t t
  | deeper {s u : Stmt} : u ∈ s.parts → Within t u → Within t s

/-- What lies within a statement is the statement itself, or lies within one of its parts. -/
theorem within_iff {t s : Stmt} : t.Within s ↔ t = s ∨ ∃ u ∈ s.parts, t.Within u := by
  constructor
  · intro within
    cases within with
    | here => exact .inl rfl
    | deeper part inner => exact .inr ⟨_, part, inner⟩
  · rintro (rfl | ⟨u, part, inner⟩)
    · exact .here
    · exact .deeper part inner

theorem Within.part {s t u : Stmt} (within : t.Within s) (part : u ∈ t.parts) : u.Within s := by
  induction within with
  | here => exact .deeper part .here
  | deeper outer _ ih => exact .deeper outer ih

/-- An expression lies somewhere in a statement. -/
inductive Mentions (e : Expr) : Stmt → Prop where
  | direct {s : Stmt} {d : Expr} : d ∈ s.expressions → e.Within d → Mentions e s
  | deeper {s u : Stmt} : u ∈ s.parts → Mentions e u → Mentions e s

/-- A statement mentions what lies within its own expressions, and what its parts mention. -/
theorem mentions_iff {e : Expr} {s : Stmt} :
    s.Mentions e ↔ (∃ d ∈ s.expressions, e.Within d) ∨ ∃ u ∈ s.parts, u.Mentions e := by
  constructor
  · intro mentions
    cases mentions with
    | direct listed within => exact .inl ⟨_, listed, within⟩
    | deeper part inner => exact .inr ⟨_, part, inner⟩
  · rintro (⟨d, listed, within⟩ | ⟨u, part, inner⟩)
    · exact .direct listed within
    · exact .deeper part inner

theorem Mentions.child {c e : Expr} {s : Stmt} (mentions : s.Mentions e) (child : c ∈ e.children) :
    s.Mentions c := by
  induction mentions with
  | direct listed within => exact .direct listed (within.child child)
  | deeper part _ ih => exact .deeper part ih

/-- What a statement mentions is mentioned by every statement around it. -/
theorem Mentions.outer {t s : Stmt} {e : Expr} (mentions : t.Mentions e) (within : t.Within s) :
    s.Mentions e := by
  induction within with
  | here => exact mentions
  | deeper part _ ih => exact .deeper part ih

/-- The expressions of a statement within another one are mentioned by that one. -/
theorem Within.mentions {t s : Stmt} {e : Expr} (within : t.Within s) (listed : e ∈ t.expressions) :
    s.Mentions e :=
  Mentions.outer (.direct listed .here) within

end Stmt

end Treewalk

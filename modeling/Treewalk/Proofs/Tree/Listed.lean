import Treewalk.Proofs.Tree

/-!
Trees as lists. `Expr.preorder` lists an expression and all that lies in it, each before what is under it and
from left to right, and `Stmt.mentioned` lists the expressions in a statement. Induction on a tree can go by
what lies directly under a node (`Expr.children_induction`, `Stmt.parts_induction`), whatever its form.
-/

namespace Treewalk

/-! ### Induction on what lies below -/

/-- Children are smaller than the expression they are under, so recursion over them ends. -/
theorem Expr.sizeOf_lt_of_mem_children {c e : Expr} (child : c ∈ e.children) : sizeOf c < sizeOf e := by
  cases e with
  | literal | «variable» | misplaced => cases child
  | grouping | unary | assign | binary | logical | ternary =>
      simp only [children, List.mem_cons, List.not_mem_nil, or_false] at child
      rcases child with rfl | rfl | rfl <;> simp <;> omega
  | call callee paren arguments =>
      rw [Expr.call.sizeOf_spec]
      rcases List.mem_cons.mp child with rfl | argument
      · omega
      · have smaller := List.sizeOf_lt_of_mem argument
        omega

/-- What holds of an expression when it holds of those under it holds of all. The forms of expressions need not
be told apart in such a proof. -/
@[elab_as_elim]
theorem Expr.children_induction {motive : Expr → Prop} (step : ∀ e, (∀ c ∈ e.children, motive c) → motive e)
    (e : Expr) : motive e :=
  step e fun c child =>
    have := sizeOf_lt_of_mem_children child
    children_induction step c
termination_by sizeOf e

/-- Parts are smaller than the statement they are under. -/
theorem Stmt.sizeOf_lt_of_mem_parts {t s : Stmt} (part : t ∈ s.parts) : sizeOf t < sizeOf s := by
  cases s with
  | expression | print | var | «return» | misplaced => cases part
  | block body =>
      have smaller : sizeOf t < sizeOf body := List.sizeOf_lt_of_mem part
      rw [Stmt.block.sizeOf_spec]
      omega
  | function name parameters body =>
      have smaller : sizeOf t < sizeOf body := List.sizeOf_lt_of_mem part
      rw [Stmt.function.sizeOf_spec]
      omega
  | branch condition yes no =>
      rw [Stmt.branch.sizeOf_spec]
      rcases List.mem_cons.mp part with rfl | other
      · omega
      · obtain rfl := Option.mem_toList.mp other
        rw [Option.some.sizeOf_spec]
        omega
  | loop condition body =>
      rw [List.mem_singleton.mp part, Stmt.loop.sizeOf_spec]
      omega

/-- What holds of a statement when it holds of those under it holds of all, as for expressions. -/
@[elab_as_elim]
theorem Stmt.parts_induction {motive : Stmt → Prop} (step : ∀ s, (∀ t ∈ s.parts, motive t) → motive s)
    (s : Stmt) : motive s :=
  step s fun t part =>
    have := sizeOf_lt_of_mem_parts part
    parts_induction step t
termination_by sizeOf s

/-- What lies within a part lies within the whole. -/
theorem Expr.Within.trans {c d e : Expr} (within : c.Within d) (outer : d.Within e) : c.Within e := by
  induction outer with
  | here => exact within
  | deeper child _ ih => exact .deeper child ih

theorem Stmt.Within.trans {s t u : Stmt} (within : s.Within t) (outer : t.Within u) : s.Within u := by
  induction outer with
  | here => exact within
  | deeper part _ ih => exact .deeper part ih

/-- A statement that mentions an expression mentions all that lies within it. -/
theorem Stmt.Mentions.within {d e : Expr} {s : Stmt} (mentions : s.Mentions e) (within : d.Within e) :
    s.Mentions d := by
  induction mentions with
  | direct listed inner => exact .direct listed (within.trans inner)
  | deeper part _ ih => exact .deeper part ih

/-! ### Listings -/

mutual

/-- An expression and those in it, in the order in which they begin. -/
def Expr.preorder : Expr → List Expr
  | .literal c => [.literal c]
  | .grouping e => .grouping e :: e.preorder
  | .unary op e => .unary op e :: e.preorder
  | .binary left op right => .binary left op right :: (left.preorder ++ right.preorder)
  | .logical left op right => .logical left op right :: (left.preorder ++ right.preorder)
  | .ternary condition yes no =>
    .ternary condition yes no :: (condition.preorder ++ (yes.preorder ++ no.preorder))
  | .variable name => [.variable name]
  | .assign name value => .assign name value :: value.preorder
  | .call callee paren arguments =>
    .call callee paren arguments :: (callee.preorder ++ Expr.preorders arguments)
  | .misplaced found => [.misplaced found]

/-- Expressions and those in them. -/
def Expr.preorders : List Expr → List Expr
  | [] => []
  | e :: rest => e.preorder ++ Expr.preorders rest

end

theorem Expr.preorders_eq (es : List Expr) : Expr.preorders es = es.flatMap Expr.preorder := by
  induction es with
  | nil => simp [Expr.preorders]
  | cons e rest ih => simp [Expr.preorders, ih]

/-- In pre-order an expression comes first, and then what is under each of its children. -/
theorem Expr.preorder_eq (e : Expr) : e.preorder = e :: e.children.flatMap Expr.preorder := by
  cases e <;> simp [preorder, children, preorders_eq]

/-- The list in pre-order holds exactly what lies within the expression, so properties of all parts can be
computed. -/
theorem Expr.mem_preorder_iff {d e : Expr} : d ∈ e.preorder ↔ d.Within e := by
  induction e using children_induction with
  | step e ih =>
      rw [preorder_eq, List.mem_cons, List.mem_flatMap, within_iff]
      exact or_congr_right (exists_congr fun c => and_congr_right fun child => ih c child)

mutual

/-- The expressions in a statement. -/
def Stmt.mentioned : Stmt → List Expr
  | .expression e => e.preorder
  | .print e => e.preorder
  | .var _ none => []
  | .var _ (some e) => e.preorder
  | .block body => Stmt.mentionedAll body
  | .branch condition yes none => condition.preorder ++ yes.mentioned
  | .branch condition yes (some no) => condition.preorder ++ (yes.mentioned ++ no.mentioned)
  | .loop condition body => condition.preorder ++ body.mentioned
  | .function _ _ body => Stmt.mentionedAll body
  | .return _ none => []
  | .return _ (some e) => e.preorder
  | .misplaced _ => []

/-- The expressions in statements. -/
def Stmt.mentionedAll : List Stmt → List Expr
  | [] => []
  | s :: rest => s.mentioned ++ Stmt.mentionedAll rest

end

theorem Stmt.mentionedAll_eq (ss : List Stmt) : Stmt.mentionedAll ss = ss.flatMap Stmt.mentioned := by
  induction ss with
  | nil => simp [Stmt.mentionedAll]
  | cons s rest ih => simp [Stmt.mentionedAll, ih]

/-- A statement mentions its own expressions first, and then what its parts mention. -/
theorem Stmt.mentioned_eq (s : Stmt) :
    s.mentioned = s.expressions.flatMap Expr.preorder ++ s.parts.flatMap Stmt.mentioned := by
  cases s with
  | var name value | «return» keyword value => cases value <;> simp [mentioned, expressions, parts]
  | branch condition yes no => cases no <;> simp [mentioned, expressions, parts]
  | expression | print | block | loop | function | misplaced =>
      simp [mentioned, mentionedAll_eq, expressions, parts]

/-- The list holds exactly what the statement mentions, so what is true of all of it can be decided. -/
theorem Stmt.mem_mentioned_iff {e : Expr} {s : Stmt} : e ∈ s.mentioned ↔ s.Mentions e := by
  induction s using parts_induction with
  | step s ih =>
      rw [mentioned_eq, List.mem_append, List.mem_flatMap, List.mem_flatMap, mentions_iff]
      refine or_congr ?_ ?_
      · exact exists_congr fun d => and_congr_right fun _ => Expr.mem_preorder_iff
      · exact exists_congr fun t => and_congr_right fun part => ih t part

end Treewalk

import Treewalk.Tree.Outline

/-!
Outlines under a larger limit on depth: whatever is found out about a tree under the smaller one, an outline
or a part that cannot be printed, is found out under the larger one too.
-/

namespace Treewalk

namespace Outline

variable {α β : Type}

/-- `r` went too deep or is already what `r'` is. -/
def Reveals (r r' : Except OutlineFault α) : Prop := r = .error .tooDeep ∨ r = r'

theorem Reveals.refl (r : Except OutlineFault α) : Reveals r r := .inr rfl

/-- Two steps in a row. If the smaller limit is too small for neither of them, both give what they give under
the larger one. -/
theorem Reveals.bind {r r' : Except OutlineFault α} {f f' : α → Except OutlineFault β} (first : Reveals r r')
    (next : ∀ a, Reveals (f a) (f' a)) : Reveals (r >>= f) (r' >>= f') := by
  rcases first with rfl | rfl
  · exact .inl rfl
  · cases r with
    | error fault => exact .inr rfl
    | ok a => exact next a

/-- Without depth there is no outline, and one level is enough to go on with. -/
theorem reveals_of_succ (f : Nat → Except OutlineFault α) (bottom : f 0 = .error .tooDeep)
    (step : ∀ {d d'}, d ≤ d' → Reveals (f (d + 1)) (f (d' + 1))) {depth depth' : Nat}
    (enough : depth ≤ depth') : Reveals (f depth) (f depth') := by
  cases depth with
  | zero => exact .inl bottom
  | succ depth =>
      obtain ⟨depth', rfl⟩ : ∃ k, depth' = k + 1 := ⟨depth' - 1, by omega⟩
      exact step (Nat.le_of_succ_le_succ enough)

mutual

/-- Under a larger limit the outline of an expression, or its fault, stays what it was, unless the smaller limit
was too small for the expression. -/
theorem ofExpr_reveals {depth depth' : Nat} (enough : depth ≤ depth') :
    (e : Expr) → Reveals (ofExpr depth e) (ofExpr depth' e)
  | .misplaced none => reveals_of_succ (ofExpr · (.misplaced none)) rfl (fun _ => .refl _) enough
  | .misplaced (some s) => by
      rw [ofExpr, ofExpr]
      exact ofStmt_reveals enough s
  | .literal c => reveals_of_succ (ofExpr · (.literal c)) rfl (fun _ => .refl _) enough
  | .variable name => reveals_of_succ (ofExpr · (.variable name)) rfl (fun _ => .refl _) enough
  | .grouping inner => by
      apply reveals_of_succ (ofExpr · (.grouping inner)) rfl _ enough
      intro d d' lower
      exact (ofExpr_reveals lower inner).bind fun _ => .refl _
  | .unary op operand => by
      apply reveals_of_succ (ofExpr · (.unary op operand)) rfl _ enough
      intro d d' lower
      exact (ofExpr_reveals lower operand).bind fun _ => .refl _
  | .binary left op right => by
      apply reveals_of_succ (ofExpr · (.binary left op right)) rfl _ enough
      intro d d' lower
      exact (ofExpr_reveals lower left).bind fun _ => (ofExpr_reveals lower right).bind fun _ => .refl _
  | .logical left op right => by
      apply reveals_of_succ (ofExpr · (.logical left op right)) rfl _ enough
      intro d d' lower
      exact (ofExpr_reveals lower left).bind fun _ => (ofExpr_reveals lower right).bind fun _ => .refl _
  | .ternary condition yes no => by
      apply reveals_of_succ (ofExpr · (.ternary condition yes no)) rfl _ enough
      intro d d' lower
      exact (ofExpr_reveals lower condition).bind fun _ => (ofExpr_reveals lower yes).bind fun _ =>
        (ofExpr_reveals lower no).bind fun _ => .refl _
  | .assign name value => by
      apply reveals_of_succ (ofExpr · (.assign name value)) rfl _ enough
      intro d d' lower
      exact (ofExpr_reveals lower value).bind fun _ => .refl _
  | .call callee paren arguments => by
      apply reveals_of_succ (ofExpr · (.call callee paren arguments)) rfl _ enough
      intro d d' lower
      exact (ofExpr_reveals lower callee).bind fun _ => (ofExprs_reveals lower arguments).bind fun _ => .refl _

theorem ofExprs_reveals {depth depth' : Nat} (enough : depth ≤ depth') :
    (es : List Expr) → Reveals (ofExprs depth es) (ofExprs depth' es)
  | [] => .refl _
  | e :: es => (ofExpr_reveals enough e).bind fun _ => (ofExprs_reveals enough es).bind fun _ => .refl _

/-- Under a larger limit the outline of a statement, or its fault, stays what it was, unless the smaller limit
was too small. By recursion over the statement, together with lists of them. -/
theorem ofStmt_reveals {depth depth' : Nat} (enough : depth ≤ depth') :
    (s : Stmt) → Reveals (ofStmt depth s) (ofStmt depth' s)
  | .misplaced none => reveals_of_succ (ofStmt · (.misplaced none)) rfl (fun _ => .refl _) enough
  | .misplaced (some e) => by
      rw [ofStmt, ofStmt]
      exact ofExpr_reveals enough e
  | .expression e => by
      apply reveals_of_succ (ofStmt · (.expression e)) rfl _ enough
      intro d d' lower
      exact (ofExpr_reveals lower e).bind fun _ => .refl _
  | .print e => by
      apply reveals_of_succ (ofStmt · (.print e)) rfl _ enough
      intro d d' lower
      exact (ofExpr_reveals lower e).bind fun _ => .refl _
  | .var name none => reveals_of_succ (ofStmt · (.var name none)) rfl (fun _ => .refl _) enough
  | .var name (some e) => by
      apply reveals_of_succ (ofStmt · (.var name (some e))) rfl _ enough
      intro d d' lower
      exact (ofExpr_reveals lower e).bind fun _ => .refl _
  | .block body => by
      apply reveals_of_succ (ofStmt · (.block body)) rfl _ enough
      intro d d' lower
      exact (ofStmts_reveals lower body).bind fun _ => .refl _
  | .branch condition yes none => by
      apply reveals_of_succ (ofStmt · (.branch condition yes none)) rfl _ enough
      intro d d' lower
      exact (ofExpr_reveals lower condition).bind fun _ => (ofStmt_reveals lower yes).bind fun _ => .refl _
  | .branch condition yes (some no) => by
      apply reveals_of_succ (ofStmt · (.branch condition yes (some no))) rfl _ enough
      intro d d' lower
      exact (ofExpr_reveals lower condition).bind fun _ => (ofStmt_reveals lower yes).bind fun _ =>
        (ofStmt_reveals lower no).bind fun _ => .refl _
  | .loop condition body => by
      apply reveals_of_succ (ofStmt · (.loop condition body)) rfl _ enough
      intro d d' lower
      exact (ofExpr_reveals lower condition).bind fun _ => (ofStmt_reveals lower body).bind fun _ => .refl _
  | .function name parameters body => by
      apply reveals_of_succ (ofStmt · (.function name parameters body)) rfl _ enough
      intro d d' lower
      exact (ofStmts_reveals lower body).bind fun _ => .refl _
  | .return keyword none => reveals_of_succ (ofStmt · (.return keyword none)) rfl (fun _ => .refl _) enough
  | .return keyword (some e) => by
      apply reveals_of_succ (ofStmt · (.return keyword (some e))) rfl _ enough
      intro d d' lower
      exact (ofExpr_reveals lower e).bind fun _ => .refl _

theorem ofStmts_reveals {depth depth' : Nat} (enough : depth ≤ depth') :
    (ss : List Stmt) → Reveals (ofStmts depth ss) (ofStmts depth' ss)
  | [] => .refl _
  | s :: ss => (ofStmt_reveals enough s).bind fun _ => (ofStmts_reveals enough ss).bind fun _ => .refl _

end

end Outline

end Treewalk

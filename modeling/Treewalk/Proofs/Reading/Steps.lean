import Treewalk.Proofs.Reading

/-!
Properties that readers inherit from their steps. A property that every single step of reading has, and
that sequencing keeps, holds of every reader of an expression. The one report left out of the steps is
that of a `return` outside every function body: no expression makes it.
-/

namespace Treewalk.Parse

/-- A property that single steps have and sequencing keeps. -/
structure Inherited (H : (α : Type) → Parse α → Prop) : Prop where
  pure {α : Type} (a : α) : H α (Pure.pure a)
  bind {α β : Type} {p : Parse α} {q : α → Parse β} : H α p → (∀ a, H β (q a)) → H β (p >>= q)
  tooDeep {α : Type} : H α tooDeep
  fail {α : Type} {fault : SyntaxFault} : fault ≠ .topLevelReturn → H α (fail fault)
  report {fault : SyntaxFault} (t : Token) : fault ≠ .topLevelReturn → H Unit (report t fault)
  reportHere {fault : SyntaxFault} : fault ≠ .topLevelReturn → H Unit (reportHere fault)
  accept? (kinds : List TokenKind) : H (Option Token) (accept? kinds)
  nextIs (kind : TokenKind) : H Bool (nextIs kind)
  remaining : H Nat remaining

namespace Inherited

variable {H : (α : Type) → Parse α → Prop} (inherited : Inherited H) {α β : Type}

include inherited

/-- Changing a result is a step that gives it, in a row. -/
theorem map {p : Parse α} (f : α → β) (holds : H α p) : H β (f <$> p) := by
  rw [map_eq_pure_bind]
  exact inherited.bind holds fun a => inherited.pure (f a)

/-- A needed token is accepted or missed; both are steps. The fault must not be that of a misplaced `return`,
which no expression reports. -/
theorem expect (kind : TokenKind) {fault : SyntaxFault} (other : fault ≠ .topLevelReturn) :
    H Token (expect kind fault) := by
  apply inherited.bind (inherited.accept? [kind])
  intro o
  cases o with
  | none => exact inherited.fail other
  | some t => exact inherited.pure t

/-- An optional part is a look ahead and the part, or nothing. -/
theorem unlessNext {p : Parse α} (stop : TokenKind) (holds : H α p) : H (Option α) (unlessNext stop p) := by
  apply inherited.bind (inherited.nextIs stop)
  intro found
  cases found with
  | true => exact inherited.pure none
  | false => exact inherited.map some holds

/-- A list of items, by induction over the turns. The report about too many of them is one of the steps. -/
theorem itemsFrom {excess : SyntaxFault} {item : Parse α} (other : excess ≠ .topLevelReturn)
    (holds : H α item) (fuel count : Nat) : H (List α) (itemsFrom excess item fuel count) := by
  induction fuel generalizing count with
  | zero => exact inherited.pure []
  | succ fuel ih =>
      have reporting : H Unit (reportIf (decide (mostArguments ≤ count)) (Parse.reportHere excess)) := by
        unfold reportIf
        split
        · exact inherited.reportHere other
        · exact inherited.pure ()
      apply inherited.bind reporting
      intro _
      apply inherited.bind holds
      intro first
      apply inherited.bind (inherited.accept? [.comma])
      intro o
      cases o with
      | none => exact inherited.pure [first]
      | some comma => exact inherited.bind (ih (count + 1)) fun more => inherited.pure (first :: more)

theorem items {excess unclosed : SyntaxFault} {item : Parse α} (other : excess ≠ .topLevelReturn)
    (other' : unclosed ≠ .topLevelReturn) (holds : H α item) :
    H (List α) (items excess unclosed item) := by
  apply inherited.bind inherited.remaining
  intro fuel
  apply inherited.bind (inherited.unlessNext _ (inherited.itemsFrom other holds (fuel + 1) 0))
  intro found
  exact inherited.bind (inherited.expect _ other') fun _ => inherited.pure (found.getD [])

/-! ### Expressions -/

/-- A row of operators and operands, by induction over the turns. Each turn is an accepted operator and an
operand behind it. -/
theorem chain {operand : Parse Expr} (ops : List TokenKind) (join : Expr → Token → Expr → Expr)
    (holds : H Expr operand) (fuel : Nat) (left : Expr) : H Expr (chain ops join operand fuel left) := by
  induction fuel generalizing left with
  | zero => exact inherited.pure left
  | succ fuel ih =>
      apply inherited.bind (inherited.accept? ops)
      intro o
      cases o with
      | none => exact inherited.pure left
      | some op => exact inherited.bind holds fun right => ih (join left op right)

theorem leftAssoc {operand : Parse Expr} (ops : List TokenKind) (join : Expr → Token → Expr → Expr)
    (holds : H Expr operand) : H Expr (leftAssoc ops join operand) :=
  inherited.bind holds fun first =>
    inherited.bind inherited.remaining fun fuel => inherited.chain ops join holds fuel first

/-- A row of calls, by induction over the turns. Each turn is an accepted parenthesis and a list
of arguments. -/
theorem calls {argument : Parse Expr} (holds : H Expr argument) (fuel : Nat) (callee : Expr) :
    H Expr (calls argument fuel callee) := by
  induction fuel generalizing callee with
  | zero => exact inherited.pure callee
  | succ fuel ih =>
      apply inherited.bind (inherited.accept? [.leftParen])
      intro o
      cases o with
      | none => exact inherited.pure callee
      | some paren =>
          have args : H (List Expr) (arguments argument) :=
            inherited.items (by decide) (by decide) holds
          exact inherited.bind args fun found => ih (.call callee paren found)

/-- Literals, names and groupings, by the token they begin with. A token that begins none of them is a fault. -/
theorem primary {inner : Parse Expr} (holds : H Expr inner) : H Expr (primary inner) := by
  apply inherited.bind (inherited.accept? _)
  intro o
  cases o with
  | none => exact inherited.fail (by decide)
  | some t =>
      dsimp only
      split
      case h_5 =>
        apply inherited.bind holds
        intro e
        exact inherited.bind (inherited.expect _ (by decide)) fun _ => inherited.pure _
      all_goals exact inherited.pure _

/-- A target that is no name is reported at the sign, and the value then stands alone. Nothing else is done with
the parts, which are read already. -/
theorem assignTo (target value : Expr) (sign : Token) : H Expr (assignTo target sign value) := by
  unfold Parse.assignTo
  split
  · exact inherited.pure _
  · exact inherited.bind (inherited.report sign (by decide)) fun _ => inherited.pure value

/-- What all steps have and sequencing keeps holds of every expression. By induction over the depth, with one
case for each level. -/
theorem expression (depth : Nat) (l : Level) : H Expr (expression depth l) := by
  induction depth generalizing l with
  | zero => exact inherited.tooDeep
  | succ depth ih =>
      cases l with
      | assignment =>
          apply inherited.bind (ih .disjunction)
          intro target
          apply inherited.bind (inherited.accept? [.equal])
          intro o
          cases o with
          | none => exact inherited.pure target
          | some sign =>
              exact inherited.bind (ih .assignment) fun value => inherited.assignTo target value sign
      | disjunction => exact inherited.leftAssoc _ _ (ih .conjunction)
      | conjunction => exact inherited.leftAssoc _ _ (ih .ternary)
      | ternary =>
          apply inherited.bind (ih .equality)
          intro condition
          apply inherited.bind (inherited.accept? [.question])
          intro o
          cases o with
          | none => exact inherited.pure condition
          | some question =>
              apply inherited.bind (ih .assignment)
              intro yes
              apply inherited.bind (inherited.expect _ (by decide))
              intro _
              exact inherited.bind (ih .ternary) fun no => inherited.pure _
      | equality => exact inherited.leftAssoc _ _ (ih .comparison)
      | comparison => exact inherited.leftAssoc _ _ (ih .sum)
      | sum => exact inherited.leftAssoc _ _ (ih .product)
      | product => exact inherited.leftAssoc _ _ (ih .unary)
      | unary =>
          apply inherited.bind (inherited.accept? [.bang, .minus])
          intro o
          cases o with
          | none => exact ih .call
          | some op => exact inherited.bind (ih .unary) fun operand => inherited.pure _
      | call =>
          apply inherited.bind (ih .primary)
          intro callee
          exact inherited.bind inherited.remaining fun fuel => inherited.calls (ih .assignment) fuel callee
      | primary => exact inherited.primary (ih .assignment)

end Inherited

end Treewalk.Parse

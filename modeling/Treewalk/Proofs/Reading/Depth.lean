import Treewalk.Proofs.Reading
import Treewalk.Proofs.Grammar.Completeness

/-!
How much depth reading takes. A rule of the grammar calls a tighter one on the same tokens or any rule on
fewer tokens, so eleven units for each token and a few more for the levels always suffice. In particular
every list of tokens is read to its end under some limit.
-/

namespace Treewalk

namespace Parse

variable {α : Type} {n : Nat}

/-- A loop over items needs the depth of one item, however many there are. By induction over the turns. -/
theorem itemsFrom_fits {item : Parse α} (excess : SyntaxFault) (fits : Fits n item) (fuel count : Nat) :
    Fits n (itemsFrom excess item fuel count) := by
  induction fuel generalizing count with
  | zero => exact .pure []
  | succ fuel ih =>
      refine .bind (reportIf_fits (reportHere_fits excess)) fun _ => .bind fits fun first => ?_
      refine .bind (accept?_fits [.comma]) fun o => ?_
      cases o with
      | none => exact .pure [first]
      | some _ => exact .bind (ih (count + 1)) fun more => .pure (first :: more)

theorem items_fits {item : Parse α} (excess unclosed : SyntaxFault) (fits : Fits n item) :
    Fits n (items excess unclosed item) :=
  .bind remaining_fits fun fuel =>
    .bind (unlessNext_fits _ (itemsFrom_fits excess fits (fuel + 1) 0)) fun found =>
      .bind (expect_fits _ _) fun _ => .pure (found.getD [])

/-- A row of operators needs the depth of one operand, however long the row is. The loop goes over tokens and
not deeper. By induction over the turns. -/
theorem chain_fits {operand : Parse Expr} (ops : List TokenKind) (join : Expr → Token → Expr → Expr)
    (fits : Fits n operand) (fuel : Nat) (left : Expr) :
    Fits n (chain ops join operand fuel left) := by
  induction fuel generalizing left with
  | zero => exact .pure left
  | succ fuel ih =>
      refine .bind (accept?_fits ops) fun o => ?_
      cases o with
      | none => exact .pure left
      | some op => exact .bind fits fun right => ih (join left op right)

theorem leftAssoc_fits {operand : Parse Expr} (ops : List TokenKind)
    (join : Expr → Token → Expr → Expr) (fits : Fits n operand) :
    Fits n (leftAssoc ops join operand) :=
  .bind fits fun first => .bind remaining_fits fun fuel => chain_fits ops join fits fuel first

/-- The arguments of a call stand behind a parenthesis, so they have one token less, and may be read with the
depth that is enough for that. By induction over the turns. -/
theorem calls_fits {argument : Parse Expr} (fits : ∀ m, m + 1 ≤ n → Fits m argument) (fuel : Nat)
    (callee : Expr) : Fits n (calls argument fuel callee) := by
  induction fuel generalizing n callee with
  | zero => exact .pure callee
  | succ fuel ih =>
      refine .accept? (.pure callee) fun paren m fewer => ?_
      refine .bind (items_fits _ _ (fits m fewer)) fun args => ih (fun k less => ?_) _
      exact fits k (by omega)

/-- The inside of a grouping stands behind a parenthesis, so it has one token less. -/
theorem primary_fits {inner : Parse Expr} (fits : ∀ m, m + 1 ≤ n → Fits m inner) :
    Fits n (primary inner) := by
  refine .accept? (fail_fits _) fun t m fewer => ?_
  dsimp only
  split
  · exact .pure _
  · exact .pure _
  · exact .pure _
  · exact .pure _
  · exact .bind (fits m fewer) fun e => .bind (expect_fits _ _) fun _ => .pure _
  · exact .pure _

theorem assignTo_fits (target value : Expr) (sign : Token) : Fits n (assignTo target sign value) := by
  unfold assignTo
  split
  · exact .pure _
  · exact .bind (report_fits _ _) fun _ => .pure value

/-- Depth for an expression: eleven units for each token, and one for each level down to the given one. Every
level either goes down one rank or takes a token first. -/
theorem expression_fits (depth n : Nat) (l : Level) (enough : 11 * n + l.rank < depth) :
    Fits n (expression depth l) := by
  induction depth generalizing n l with
  | zero => exact absurd enough (Nat.not_lt_zero _)
  | succ depth ih =>
      have below : ∀ k : Level, k.rank < l.rank → Fits n (expression depth k) :=
        fun k lower => ih n k (by omega)
      have nested : ∀ k m, m + 1 ≤ n → Fits m (expression depth k) := by
        intro k m fewer
        have bound := k.rank_le
        exact ih m k (by omega)
      cases l with
      | assignment =>
          refine .bind (below .disjunction (by decide)) fun target => ?_
          refine .accept? (.pure target) fun sign m fewer => ?_
          exact .bind (nested .assignment m fewer) fun value => assignTo_fits target value sign
      | disjunction => exact leftAssoc_fits _ _ (below .conjunction (by decide))
      | conjunction => exact leftAssoc_fits _ _ (below .ternary (by decide))
      | ternary =>
          refine .bind (below .equality (by decide)) fun condition => ?_
          refine .accept? (.pure condition) fun _ m fewer => ?_
          refine .bind (nested .assignment m fewer) fun yes => .bind (expect_fits _ _) fun _ => ?_
          exact .bind (nested .ternary m fewer) fun no => .pure _
      | equality => exact leftAssoc_fits _ _ (below .comparison (by decide))
      | comparison => exact leftAssoc_fits _ _ (below .sum (by decide))
      | sum => exact leftAssoc_fits _ _ (below .product (by decide))
      | product => exact leftAssoc_fits _ _ (below .unary (by decide))
      | unary =>
          refine .accept? (below .call (by decide)) fun op m fewer => ?_
          exact .bind (nested .unary m fewer) fun operand => .pure _
      | call =>
          refine .bind (below .primary (by decide)) fun callee => ?_
          exact .bind remaining_fits fun fuel => calls_fits (nested .assignment) fuel callee
      | primary => exact primary_fits (nested .assignment)

section Statements

variable {expr : Parse Expr} {body : Parse Stmt}

theorem expressionStatement_fits (fits : Fits n expr) : Fits n (expressionStatement expr) :=
  .bind fits fun _ => .bind (expect_fits _ _) fun _ => .pure _

theorem varRest_fits (fits : Fits n expr) : Fits n (varRest expr) :=
  .bind (expect_fits _ _) fun _ => .bind (afterSign_fits _ fun _ fewer => fits.mono (by omega)) fun _ =>
    .bind (expect_fits _ _) fun _ => .pure _

theorem forInitial_fits (fits : Fits n expr) : Fits n (forInitial expr) := by
  refine .bind (accept?_fits _) fun o => ?_
  cases o with
  | none => exact (expressionStatement_fits fits).map
  | some t =>
      dsimp only
      split
      · exact .pure none
      · exact (varRest_fits fits).map

/-- A `for` loop needs what its clauses and its body need. -/
theorem forRest_fits (fits : Fits n expr) (fitsBody : Fits n body) : Fits n (forRest expr body) :=
  .bind (expect_fits _ _) fun _ => .bind (forInitial_fits fits) fun _ =>
    .bind (unlessNext_fits _ fits) fun _ => .bind (expect_fits _ _) fun _ =>
      .bind (unlessNext_fits _ fits) fun _ => .bind (expect_fits _ _) fun _ =>
        .bind fitsBody fun _ => .pure _

/-- A branch needs what its condition and its arms need. -/
theorem ifRest_fits (fits : Fits n expr) (fitsBody : Fits n body) : Fits n (ifRest expr body) :=
  .bind (expect_fits _ _) fun _ => .bind fits fun _ => .bind (expect_fits _ _) fun _ =>
    .bind fitsBody fun _ =>
      .bind (afterSign_fits _ fun _ fewer => fitsBody.mono (by omega)) fun _ => .pure _

theorem printRest_fits (fits : Fits n expr) : Fits n (printRest expr) :=
  .bind fits fun _ => .bind (expect_fits _ _) fun _ => .pure _

theorem returnRest_fits (f : Bool) (keyword : Token) (fits : Fits n expr) :
    Fits n (returnRest f keyword expr) :=
  .bind (reportIf_fits (report_fits _ _)) fun _ => .bind (unlessNext_fits _ fits) fun _ =>
    .bind (expect_fits _ _) fun _ => .pure _

theorem whileRest_fits (fits : Fits n expr) (fitsBody : Fits n body) :
    Fits n (whileRest expr body) :=
  .bind (expect_fits _ _) fun _ => .bind fits fun _ => .bind (expect_fits _ _) fun _ =>
    .bind fitsBody fun _ => .pure _

end Statements

section Declarations

variable {declaration : Parse (Option Stmt)}

/-- A row of declarations needs the depth of one declaration. By induction over the turns. -/
theorem declarationsUpTo_fits (stop : Option TokenKind) (fits : Fits n declaration) (fuel : Nat) :
    Fits n (declarationsUpTo stop declaration fuel) := by
  induction fuel with
  | zero => exact .pure []
  | succ fuel ih =>
      have turn : Fits n (do
          let first ← declaration
          let more ← declarationsUpTo stop declaration fuel
          return first.toList ++ more) :=
        .bind fits fun _ => .bind ih fun _ => .pure _
      intro c short
      unfold declarationsUpTo
      split
      · exact Nat.le_refl c.rest.length
      · split
        · exact Nat.le_refl c.rest.length
        · exact turn c short

theorem blockBody_fits (fits : Fits n declaration) : Fits n (blockBody declaration) :=
  .bind remaining_fits fun fuel => .bind (declarationsUpTo_fits _ fits fuel) fun body =>
    .bind (expect_fits _ _) fun _ => .pure body

/-- A function needs what the declarations of its body need. -/
theorem functionRest_fits (fits : Fits n declaration) : Fits n (functionRest declaration) :=
  .bind (expect_fits _ _) fun _ => .bind (expect_fits _ _) fun _ =>
    .bind (items_fits _ _ (expect_fits _ _)) fun _ => .bind (expect_fits _ _) fun _ =>
      .bind (blockBody_fits fits) fun _ => .pure _

end Declarations

/-- Statements and declarations take one unit more than the loosest expression, and one more again. A
statement inside of another one stands behind a keyword or a brace, whose eleven units pay for it. By
induction over the depth. -/
theorem declaration_statement_fits (depth : Nat) :
    (∀ n f, 11 * n + 12 < depth → Fits n (declaration depth f)) ∧
      ∀ n f, 11 * n + 11 < depth → Fits n (statement depth f) := by
  induction depth with
  | zero => exact ⟨fun _ _ enough => absurd enough (Nat.not_lt_zero _),
      fun _ _ enough => absurd enough (Nat.not_lt_zero _)⟩
  | succ depth ih =>
      obtain ⟨fitsDeclaration, fitsStatement⟩ := ih
      have expr : ∀ m, 11 * m + 10 < depth → Fits m (expression depth .assignment) :=
        fun m enough => expression_fits depth m .assignment enough
      constructor
      · intro n f enough
        refine recovering_fits (.accept? (fitsStatement n f (by omega)) fun t m fewer => ?_)
        dsimp only
        split
        · exact functionRest_fits (fitsDeclaration m true (by omega))
        · exact varRest_fits (expr m (by omega))
      · intro n f enough
        refine .accept? (expressionStatement_fits (expr n (by omega))) fun t m fewer => ?_
        have inner := expr m (by omega)
        have body := fitsStatement m f (by omega)
        dsimp only
        split
        · exact forRest_fits inner body
        · exact ifRest_fits inner body
        · exact printRest_fits inner
        · exact returnRest_fits f t inner
        · exact whileRest_fits inner body
        · exact (blockBody_fits (fitsDeclaration m f (by omega))).map

/-! ### No fault unwinds beyond a declaration -/

/-- A reader that does not unwind because of malformed tokens. -/
def Recovers (p : Parse α) : Prop := ∀ c d, p c ≠ .error .malformed d

/-- A declaration never unwinds as malformed: it recovers, or the depth runs out. So a fault in one declaration
does not end the reading of the next. -/
theorem declaration_recovers (depth : Nat) (f : Bool) : Recovers (declaration depth f) := by
  cases depth with
  | zero => exact fun c d unwound => by cases unwound
  | succ depth =>
      intro c d unwound
      unfold declaration recovering at unwound
      split at unwound <;> cases unwound

/-- So a row of declarations unwinds only when the depth runs out. -/
theorem declarationsUpTo_recovers {declaration : Parse (Option Stmt)} (stop : Option TokenKind)
    (recovers : Recovers declaration) (fuel : Nat) :
    Recovers (declarationsUpTo stop declaration fuel) := by
  induction fuel with
  | zero => exact fun c d unwound => by cases unwound
  | succ fuel ih =>
      intro c d unwound
      unfold declarationsUpTo at unwound
      split at unwound
      · cases unwound
      · split at unwound
        · cases unwound
        · rw [bind_apply] at unwound
          cases first : declaration c with
          | error e d' =>
              rw [first] at unwound
              cases unwound
              exact recovers c d first
          | ok o d' =>
              simp only [first, bind_apply] at unwound
              cases more : declarationsUpTo stop declaration fuel d' with
              | ok ss e => simp [more] at unwound; cases unwound
              | error e d'' =>
                  rw [more] at unwound
                  cases unwound
                  exact ih d' d more

end Parse

/-- Enough depth to read a list of tokens: a program of that many tokens cannot be nested more deeply than this,
so it is read, with faults or without. -/
theorem Program.exists_ofTokens (tokens : List Token) {depth : Nat}
    (enough : 11 * tokens.length + 12 < depth) : ∃ p, Program.ofTokens depth tokens = some p := by
  have shorter : (Program.cursor tokens).rest.length ≤ tokens.length :=
    (List.takeWhile_prefix _).length_le
  have fits := (Parse.declaration_statement_fits depth).1 tokens.length false enough
  have settles := Parse.declarationsUpTo_fits none fits (Program.cursor tokens).rest.length
    (Program.cursor tokens) shorter
  have recovers := Parse.declarationsUpTo_recovers none (Parse.declaration_recovers depth false)
    (Program.cursor tokens).rest.length (Program.cursor tokens)
  unfold Program.ofTokens
  cases result : Parse.declarationsUpTo none (Parse.declaration depth false)
      (Program.cursor tokens).rest.length (Program.cursor tokens) with
  | ok statements c => exact ⟨⟨statements, c.reported.toList⟩, by simp only [result]⟩
  | error e c =>
      rw [result] at settles
      obtain ⟨rfl, -⟩ := settles
      exact absurd result (recovers c)

end Treewalk

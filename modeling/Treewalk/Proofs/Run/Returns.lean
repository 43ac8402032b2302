import Treewalk.Proofs.Grammar.Acceptance
import Treewalk.Proofs.Reading.FunctionDepth
import Treewalk.Proofs.Reading.Returns
import Treewalk.Proofs.Reading.Trees
import Treewalk.Proofs.Run.Discipline
import Treewalk.Proofs.Token.Rescan

/-!
Returns are contained in functions. Reading reports exactly the returns outside every function body; so a
program without a fault has none, and none of its statements ever ends by returning. A reader that counts the
function bodies around it finds the same, since every exit from a body restores the count.
-/

namespace Treewalk

namespace Run

/-- A step that never ends by returning. -/
def Falls (p : Run Flow) : Prop := ∀ w v w', p w ≠ .ok (.returning v) w'

theorem falls_normal : Falls (pure .normal) := by
  intro w v w' ended
  cases ended

theorem falls_stop (s : Stop) : Falls (stop s) := by
  intro w v w' ended
  cases ended

/-- A step that comes last decides whether a sequence returns. What comes before it gives values, and does
not return. -/
theorem Falls.bind {α : Type} {p : Run α} {q : α → Run Flow} (next : ∀ a, Falls (q a)) :
    Falls (p >>= q) := by
  intro w v w' ended
  rw [bind_apply] at ended
  cases first : p w with
  | error e w₁ =>
      rw [first] at ended
      cases ended
  | ok a w₁ =>
      rw [first] at ended
      exact next a w₁ v w' ended

/-- What follows a step that does not return decides alone. -/
theorem Falls.follow {p q : Run Flow} (first : Falls p) (next : Falls q) :
    Falls (do
      match ← p with
      | .normal => q
      | .returning v => return .returning v) := by
  intro w v w' ended
  rw [bind_apply] at ended
  cases computed : p w with
  | error e w₁ =>
      rw [computed] at ended
      cases ended
  | ok flow w₁ =>
      rw [computed] at ended
      cases flow with
      | normal => exact next w₁ v w' ended
      | returning u => exact first w u w₁ computed

/-- Statements in a row do not return when none of them does. By induction over the list. -/
theorem executeAll_falls {execute : Stmt → Run Flow} {ss : List Stmt} (each : ∀ s ∈ ss, Falls (execute s)) :
    Falls (executeAll execute ss) := by
  induction ss with
  | nil => exact falls_normal
  | cons s rest ih =>
      apply Falls.follow
      · exact each s (by simp)
      · exact ih fun t listed => each t (by simp [listed])

/-- A loop does not return when its body does not. By induction over the turns. -/
theorem turning_falls {condition : Run Value} {body : Run Flow} (falls : Falls body) (turns : Nat) :
    Falls (turning condition body turns) := by
  induction turns with
  | zero => exact falls_stop _
  | succ turns ih =>
      apply Falls.bind
      intro v
      split
      · exact falls.follow ih
      · exact falls_normal

/-- A statement with no `return` outside the functions it declares never ends by returning. Calls do not matter,
since a call takes what its body returns as its value. By induction over the depth. -/
theorem execute_falls {s : Stmt} (none : ∀ t, ¬ s.Returns t false true) (turns depth : Nat)
    (scope : ScopeId) : Falls (execute turns depth s scope) := by
  induction depth generalizing s scope with
  | zero => exact falls_stop _
  | succ depth ih =>
      cases s with
      | expression e => exact .bind fun _ => falls_normal
      | print e => exact .bind fun _ => .bind fun _ => falls_normal
      | var name initial => exact .bind fun _ => .bind fun _ => falls_normal
      | block body =>
          apply Falls.bind
          intro inner
          apply executeAll_falls
          intro s listed
          exact ih (fun t returns => none t (Stmt.returns_block.mpr ⟨s, listed, returns⟩)) inner
      | branch condition yes no =>
          apply Falls.bind
          intro v
          split
          · exact ih (fun t returns => none t (Stmt.returns_branch.mpr (.inl returns))) scope
          · cases no with
            | none => exact falls_normal
            | some s => exact ih (fun t returns => none t (Stmt.returns_branch.mpr (.inr ⟨s, rfl, returns⟩))) scope
      | loop condition body =>
          apply turning_falls
          exact ih (fun t returns => none t (Stmt.returns_loop.mpr returns)) scope
      | function name parameters body => exact .bind fun _ => .bind fun _ => falls_normal
      | «return» keyword value => exact absurd (.here) (none keyword)
      | misplaced found => exact falls_stop _

end Run

namespace Scan

/-- Reading a source starts at the tokens of its pieces, before the end token. -/
theorem rest_cursor (source : List Char) : (Program.cursor (ofChars source).tokens).rest =
    (PlacedPiece.ofPieces .start (Piece.split source)).filterMap PlacedPiece.token? := by
  rw [tokens_ofChars, Program.cursor_snoc (fun t => kind_ne_endOfInput_of_mem) rfl]

/-- No two tokens of a source would be reported alike, because no two stand in the same place. This is what
`Program.ofTokens_settles` asks for. -/
theorem returnReport_pairwise (source : List Char) :
    (Program.cursor (ofChars source).tokens).rest.Pairwise
      fun t u => Cursor.returnReport t ≠ Cursor.returnReport u := by
  rw [rest_cursor]
  have nonempty : ∀ p ∈ Piece.split source, p.text ≠ [] := by
    intro p listed
    obtain ⟨after, stands⟩ := (Piece.splits_split source).stands_of_mem listed
    exact stands.text_ne_nil
  refine (PlacedPiece.tokens_pairwise nonempty).imp_of_mem fun {t u} first second apart same => apart ?_
  have inner := kind_ne_endOfInput_of_mem first
  have inner' := kind_ne_endOfInput_of_mem second
  simp only [Cursor.returnReport, Diagnostic.atToken, if_neg inner, if_neg inner', Diagnostic.mk.injEq,
    Site.token.injEq] at same
  exact ⟨same.1, same.2.1.2⟩

end Scan

/-- **Misplaced returns are reported, and no others.** In the statements read from a source, however malformed,
a `return` lies outside every function body if and only if it was reported at its keyword. So no statement of a
source without a fault ends by returning, in any world. Counting the function bodies around the next token gives
the same program: the count is back on every exit from a function body, malformed ones included, and so is zero
at each declaration at the top. -/
theorem Program.returns_lie_in_functions {depth : Nat} {source : String} {p : Program}
    (read : ofSource depth source = some p) :
    (∀ s ∈ p.statements, ∀ keyword value, (Stmt.return keyword value).Within s →
      (¬ (Stmt.return keyword value).InFunction s ↔
        Diagnostic.atToken keyword "Can't return from top-level code." ∈ p.faults)) ∧
    (p.faults = [] → ∀ s ∈ p.statements, ∀ turns limit w v w',
      Run.execute turns limit s World.globals w ≠ .ok (.returning v) w') ∧
    Counting.ofTokens depth (Scan.ofSource source).tokens = ofTokens depth (Scan.ofSource source).tokens ∧
    (Counting.functionRest (Counting.declaration depth)).Restores ∧
    (Counting.declaration depth).Restores := by
  obtain ⟨q, readTokens, rfl⟩ := Option.map_eq_some_iff.mp read
  have settles {s : Stmt} (listed : s ∈ q.statements) {t : Token} {top : Bool}
      (returns : s.Returns t false top) := ofTokens_settles readTokens
        (Scan.returnReport_pairwise source.toList) listed returns
  refine ⟨?_, ?_, Counting.ofTokens_eq .., Counting.functionRest_restores depth,
    Counting.declaration_restores depth⟩
  · intro s listed keyword value within
    obtain ⟨formed, -⟩ := ofTokens_wellFormed (K := fun _ => True) readTokens (by simp)
    have kind : keyword.kind = .returnWord := ((formed s listed).statements _ within).2
    have lexical : Cursor.returnReport keyword ∉ (Scan.ofSource source).faults := by
      intro found
      have site := Scan.site_of_mem_faults found
      simp [Cursor.returnReport, Diagnostic.atToken, kind] at site
    have reported : Cursor.returnReport keyword ∈ (Scan.ofSource source).faults ++ q.faults ↔
        Cursor.returnReport keyword ∈ q.faults := by
      simp [lexical]
    rw [show Diagnostic.atToken keyword "Can't return from top-level code." =
      Cursor.returnReport keyword from rfl, reported]
    constructor
    · intro outside
      have returns := within.returns.resolve_left outside
      exact (settles listed returns).mpr rfl
    · intro found inside
      exact absurd ((settles listed (inside.returns false)).mp found) (by decide)
  · intro silent s listed turns limit
    have none : q.faults = [] := (List.append_eq_nil_iff.mp silent).2
    apply Run.execute_falls
    intro t returns
    have found := (settles listed returns).mpr rfl
    simp [none] at found

/-- A malformed head leaves a function out. The `return` of its body is then at the top and is reported. -/
theorem Program.malformedHead_returns : ∃ p,
    ofSource 40 "fun f( \x7b return a; \x7d\nfun g() \x7b return b; \x7d" = some p ∧
    ∃ keyword value, Stmt.return keyword value ∈ p.statements ∧
      Diagnostic.atToken keyword "Can't return from top-level code." ∈ p.faults := by
  have found : ((ofSource 40 "fun f( \x7b return a; \x7d\nfun g() \x7b return b; \x7d").any fun p =>
      p.statements.any fun | .return _ _ => true | _ => false) = true := by decide +kernel
  obtain ⟨p, read, found⟩ := (Option.any_eq_true _ _).mp found
  obtain ⟨s, listed, form⟩ := List.any_eq_true.mp found
  split at form
  next keyword value =>
    refine ⟨p, read, keyword, value, listed, ?_⟩
    apply ((returns_lie_in_functions read).1 _ listed keyword value .here).mp
    rintro ⟨name, parameters, body, within, -⟩
    cases within with
    | deeper part => cases part
  · cases form

end Treewalk

import Treewalk.Proofs.Reading.Joining

/-!
Reading under a larger limit on depth. A program that was read under the smaller one is read alike, with the
same faults. Going too deep is not a fault that reading recovers from: neither the place where malformed
declarations are skipped nor the one where a function body ends lets it pass as anything else.
-/

namespace Treewalk

theorem Diagnostic.moved_zero (d : Diagnostic) : d.moved 0 = d := by
  simp [moved]

namespace Parse

variable {α : Type}

/-- Skipping malformed declarations leaves going too deep alone, so it comes through every declaration
around it. -/
theorem recovering_eq_tooDeep_iff (p : Parse α) (c d : Cursor) :
    recovering p c = .error .tooDeep d ↔ p c = .error .tooDeep d := by
  unfold recovering
  cases p c with
  | ok a e => simp
  | error stop e => cases stop <;> simp

/-- A function declaration up to the brace in front of its body. -/
def functionHead : Parse (Token × List Token) := do
  let name ← expect .identifier .functionName
  let _ ← expect .leftParen .parenAfterFunctionName
  let parameters ← items .tooManyParameters .parenAfterParameters (expect .identifier .parameterName)
  let _ ← expect .leftBrace .braceBeforeBody
  return (name, parameters)

/-- A function is its head and its body. The head is read without going deeper, so only the body can go
too deep. -/
theorem functionRest_eq (declaration : Parse (Option Stmt)) : functionRest declaration = do
    let head ← functionHead
    let body ← blockBody declaration
    return .function head.1 head.2 body := by
  simp only [functionRest, functionHead, bind_assoc, pure_bind]

theorem functionHead_fits (n : Nat) : Fits n functionHead :=
  .bind (expect_fits _ _) fun name => .bind (expect_fits _ _) fun _ =>
    .bind (items_fits _ _ (expect_fits _ _)) fun parameters => .bind (expect_fits _ _) fun _ =>
      .pure (name, parameters)

/-- A function goes too deep exactly when its body does, and where its body does. -/
theorem functionRest_eq_tooDeep_iff (declaration : Parse (Option Stmt)) (c d : Cursor) :
    functionRest declaration c = .error .tooDeep d ↔
      ∃ head e, functionHead c = .ok head e ∧ blockBody declaration e = .error .tooDeep d := by
  rw [functionRest_eq, bind_apply]
  have fits := functionHead_fits _ c (Nat.le_refl _)
  cases read : functionHead c with
  | error stop e =>
      rw [read] at fits
      obtain rfl : stop = .malformed := fits.1
      simp
  | ok head e =>
      dsimp only
      rw [bind_apply]
      constructor
      · intro deep
        refine ⟨head, e, rfl, ?_⟩
        cases read' : blockBody declaration e with
        | error stop e' =>
            rw [read'] at deep
            cases deep
            rfl
        | ok body e' =>
            rw [read'] at deep
            cases deep
      · rintro ⟨_, _, same, deep⟩
        cases same
        rw [deep]

end Parse

namespace Program

open Parse

variable {depth depth' : Nat}

/-- What is read under a limit is read alike under a larger one. A limit decides only whether there is a
program, never which one. -/
theorem ofTokens_of_le (enough : depth ≤ depth') {tokens : List Token} {p : Program}
    (read : ofTokens depth tokens = some p) : ofTokens depth' tokens = some p := by
  have declared := (Joint.whole 0).declaration_transfers enough (cursor tokens).rest.length false
  have same : (Joint.whole 0).Relates (cursor tokens) (cursor tokens) := by
    refine ⟨?_, fun _ => ?_, ?_⟩
    · simp [Joint.whole, List.map_id'' Token.moved_zero]
    · simp [Joint.whole]
    · simp [Joint.whole, List.map_id'' Diagnostic.moved_zero]
  have within : (cursor tokens).rest.length + (Joint.whole 0).more.length ≤ (cursor tokens).rest.length :=
    Nat.le_refl _
  have sent := Joint.declarationsUpTo_transfers none (declared.weaken fun _ _ => trivial)
    (declaration_advances depth false) (Nat.le_refl _) within _ _ (Nat.le_refl _) same
  unfold ofTokens at read ⊢
  dsimp only at read ⊢
  cases computed : declarationsUpTo none (declaration depth false) (cursor tokens).rest.length (cursor tokens) with
  | error stop c =>
      rw [computed] at read
      cases read
  | ok statements c =>
      rw [computed] at sent read
      obtain ⟨c', read', related⟩ := sent.2 (.inr (.inl trivial))
      have reported : c'.reported.toList = c.reported.toList := by
        simpa [Joint.whole, List.map_id'' Diagnostic.moved_zero] using related.reported
      have moved : statements.map (Stmt.moved (Joint.whole 0).shift) = statements :=
        List.map_id'' Stmt.moved_zero statements
      rw [read', moved]
      cases read
      dsimp only
      rw [reported]

/-- So is what is read from a source, since scanning has no limit. -/
theorem ofSource_of_le (enough : depth ≤ depth') {source : String} {p : Program}
    (read : ofSource depth source = some p) : ofSource depth' source = some p := by
  simp only [ofSource, Option.map_eq_some_iff] at read ⊢
  obtain ⟨q, tokens, rfl⟩ := read
  exact ⟨q, ofTokens_of_le enough tokens, rfl⟩

end Program

end Treewalk

import Treewalk.Proofs.Grammar.Assignment
import Treewalk.Proofs.Grammar.Completeness
import Treewalk.Proofs.Grammar.Soundness
import Treewalk.Proofs.Reading.Depth

/-!
Reading accepts exactly the grammar. Tokens are read without a fault if and only if the grammar derives
them, and the statements are then those of the derivation that gives each `else` to the nearest `if`,
of which there is only one. The limit on depth plays no role, except that reading reaches its end under
every limit that is large enough.
-/

namespace Treewalk

namespace Program

section

variable {ts : List Token} {last : Token}

/-- Reading starts with the tokens before the first end token, whatever stands behind it. -/
theorem cursor_append (inner : ∀ t ∈ ts, t.kind ≠ .endOfInput) (ends : last.kind = .endOfInput)
    (more : List Token) : cursor (ts ++ last :: more) = ⟨ts, last.line, #[]⟩ := by
  have taken : (ts ++ last :: more).takeWhile (fun t => t.kind != .endOfInput) = ts := by
    rw [List.takeWhile_append_of_pos (by simpa using inner)]
    simp [ends]
  have found : (ts ++ last :: more).find? (fun t => t.kind == .endOfInput) = some last := by
    rw [List.find?_append, List.find?_eq_none.mpr (by simpa using inner)]
    simp [ends]
  simp [cursor, taken, found]

theorem cursor_snoc (inner : ∀ t ∈ ts, t.kind ≠ .endOfInput) (ends : last.kind = .endOfInput) :
    cursor (ts ++ [last]) = ⟨ts, last.line, #[]⟩ := cursor_append inner ends []

/-- What was read without a fault is derived by the grammar, with every `else` at the nearest `if`. -/
theorem derives_of_ofTokens (inner : ∀ t ∈ ts, t.kind ≠ .endOfInput) (ends : last.kind = .endOfInput)
    {depth : Nat} {p : Program} (read : ofTokens depth (ts ++ [last]) = some p)
    (silent : p.faults = []) : Grammar.Program .nearest ts p.statements := by
  have sound := Parse.declarationsUpTo_sound none ((Parse.declaration_statement_sound depth).1 false)
    ts.length ⟨ts, last.line, #[]⟩
  simp only [ofTokens, cursor_snoc inner ends] at read
  cases result : Parse.declarationsUpTo none (Parse.declaration depth false) ts.length
      ⟨ts, last.line, #[]⟩ with
  | error e c => simp [result] at read
  | ok statements c =>
      rw [result] at sound
      simp only [result, Option.some.injEq] at read
      subst read
      obtain ⟨us, taken, built, ended⟩ := sound.2 (by simpa using silent)
      -- all tokens were taken: only an end token stops the outermost declarations
      have finished : c.rest = [] := by
        have short : us.length + c.rest.length ≤ ts.length := by
          have lengths : ts.length = (us ++ c.rest).length := congrArg List.length taken
          rw [List.length_append] at lengths
          exact Nat.le_of_eq lengths.symm
        cases left : c.rest with
        | nil => rfl
        | cons t rest => simpa using ended short t (by simp [left])
      have whole : ts = us := by simpa [finished] using taken
      exact whole ▸ built

/-- What the grammar derives is read without a fault, and is read as it was derived. A depth that is too small
gives no program at all, so any program that is read is this one. -/
theorem ofTokens_eq_of_derives (inner : ∀ t ∈ ts, t.kind ≠ .endOfInput)
    (ends : last.kind = .endOfInput) {statements : List Stmt}
    (derived : Grammar.Program .nearest ts statements) {depth : Nat} {p : Program}
    (read : ofTokens depth (ts ++ [last]) = some p) : p = ⟨statements, []⟩ := by
  have complete := derived.complete depth [] none ts.length (by simp) (by simp) (by simp)
    ⟨ts, last.line, #[]⟩ (by simp)
  simp only [ofTokens, cursor_snoc inner ends] at read
  rcases complete with finished | ⟨c, unfinished⟩
  · simpa [finished] using read.symm
  · simp [unfinished] at read

end

/-- **The reader accepts exactly the grammar.** Tokens are read without a fault if and only if the grammar
derives them, and what is read is the tree of the derivation, as long as nesting is not too deep for the reader.
Of several derivations it is the one that gives each `else` to the nearest `if`, and it assigns only to names
with an equals sign behind them. -/
theorem accepts_iff_derives (ts : List Token) (last : Token)
    (inner : ∀ t ∈ ts, t.kind ≠ .endOfInput) (ends : last.kind = .endOfInput) :
    (∃ least, ∀ depth, least ≤ depth → ∃ p, ofTokens depth (ts ++ [last]) = some p) ∧
    ∀ depth p, ofTokens depth (ts ++ [last]) = some p →
      (p.faults = [] ↔ ∃ statements, Grammar.Program .any ts statements) ∧
      (p.faults = [] →
        (∀ statements, Grammar.Program .nearest ts statements ↔ statements = p.statements) ∧
        ∀ s ∈ p.statements, ∀ name value, s.Mentions (.assign name value) →
          Grammar.AssignedIn name ts) := by
  refine ⟨⟨_, fun depth enough => exists_ofTokens (ts ++ [last]) enough⟩, fun depth p read => ?_⟩
  have derived := derives_of_ofTokens inner ends read
  have unique {statements} (other : Grammar.Program .nearest ts statements) :=
    ofTokens_eq_of_derives inner ends other read
  refine ⟨⟨fun silent => ⟨_, (derived silent).relax⟩, ?_⟩, fun silent => ⟨fun statements => ⟨?_, ?_⟩, ?_⟩⟩
  · rintro ⟨statements, loose⟩
    obtain ⟨statements', strict⟩ := loose.nearest
    rw [unique strict]
  · exact fun other => by rw [unique other]
  · rintro rfl
    exact derived silent
  · exact fun s listed name value mentions => (derived silent).named name ⟨s, listed, value, mentions⟩

/-- The tokens of `if (a) if (b) a = b; else b;`. -/
def danglingElse : List Token :=
  [sign .ifWord "if", sign .leftParen "(", sign .identifier "a", sign .rightParen ")",
    sign .ifWord "if", sign .leftParen "(", sign .identifier "b", sign .rightParen ")",
    sign .identifier "a", sign .equal "=", sign .identifier "b", sign .semicolon ";",
    sign .elseWord "else", sign .identifier "b", sign .semicolon ";"]
where
  sign (kind : TokenKind) (lexeme : String) : Token := ⟨kind, lexeme, .nil, 1, none⟩

/-- Their statement: the inner `if` has the `else`. -/
def innerElse : Stmt :=
  let a := danglingElse.sign .identifier "a"
  let b := danglingElse.sign .identifier "b"
  .branch (.variable a) (.branch (.variable b) (.expression (.assign a (.variable b)))
    (some (.expression (.variable b)))) none

/-- Of the two ways to derive these tokens, the reader takes the one that gives the `else` to the nearest
`if`. -/
theorem danglingElse_accepted :
    (∀ t ∈ danglingElse, t.kind ≠ .endOfInput) ∧
    ofTokens 40 (danglingElse ++ [danglingElse.sign .endOfInput ""]) = some ⟨[innerElse], []⟩ ∧
    ∀ statements, Grammar.Program .nearest danglingElse statements ↔ statements = [innerElse] := by
  have inner : ∀ t ∈ danglingElse, t.kind ≠ .endOfInput := by decide
  have read : ofTokens 40 (danglingElse ++ [danglingElse.sign .endOfInput ""]) =
      some ⟨[innerElse], []⟩ := by cbv
  have accepted := (accepts_iff_derives danglingElse (danglingElse.sign .endOfInput "") inner rfl).2 40 _ read
  exact ⟨inner, read, (accepted.2 rfl).1⟩

end Program

end Treewalk

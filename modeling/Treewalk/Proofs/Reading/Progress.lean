import Treewalk.Proofs.Grammar.Soundness
import Treewalk.Proofs.Reading.Steps

/-!
Reading makes progress. An expression and a statement take at least one token. So does a declaration that
begins before the end of the input, whether it gives a statement or is skipped as malformed; therefore a
loop over declarations that has a turn for every token never runs out of turns.
-/

namespace Treewalk.Parse

variable {α β : Type}

/-- A reader that gives no tokens back. -/
def Shrinks (p : Parse α) : Prop := ∀ c a d, p c = .ok a d → d.rest.length ≤ c.rest.length

/-- A reader that takes at least one token when it gives a result. -/
def Takes (p : Parse α) : Prop := ∀ c a d, p c = .ok a d → d.rest.length < c.rest.length

/-- A sound reader never adds tokens, since what it leaves is a suffix of what it found, in silence or not. -/
theorem Sound.shrinks {R : Readings α} {p : Parse α} (sound : Sound R p) : Shrinks p := by
  intro c a d read
  have conforms := sound c
  rw [read] at conforms
  exact conforms.1.length_le

/-- Two readers that never add tokens, in a row, never do. -/
theorem Shrinks.bind {p : Parse α} {q : α → Parse β} (first : Shrinks p) (next : ∀ a, Shrinks (q a)) :
    Shrinks (p >>= q) := by
  intro c b e read
  rw [bind_apply] at read
  cases computed : p c with
  | error stop d =>
      rw [computed] at read
      cases read
  | ok a d =>
      rw [computed] at read
      exact Nat.le_trans (next a d b e read) (first c a d computed)

/-- No step of reading adds tokens, so no reader does. All readers of the grammar get this at once,
by `Inherited`. -/
theorem shrinks_inherited : Inherited fun _ p => Shrinks p where
  pure a c b d read := by cases read; exact Nat.le_refl _
  bind first next := first.bind next
  tooDeep c a d read := by cases read
  fail _ c a d read := by cases read
  report t _ c a d read := by cases read; exact Nat.le_refl _
  reportHere _ c a d read := by cases read; exact Nat.le_refl _
  accept? kinds := (accept?_sound kinds).shrinks
  nextIs kind := (nextIs_sound kind).shrinks
  remaining := remaining_sound.shrinks

/-- A reader that takes a token takes one, whatever is read behind it. The token is not put back by
what follows. -/
theorem Takes.bind {p : Parse α} {q : α → Parse β} (first : Takes p) (next : ∀ a, Shrinks (q a)) :
    Takes (p >>= q) := by
  intro c b e read
  rw [bind_apply] at read
  cases computed : p c with
  | error stop d =>
      rw [computed] at read
      cases read
  | ok a d =>
      rw [computed] at read
      exact Nat.lt_of_le_of_lt (next a d b e read) (first c a d computed)

/-- An accepted token is one that is taken, so only the case without it is left to the reader that follows. -/
theorem Takes.accept? {kinds : List TokenKind} {q : Option Token → Parse β} (without : Takes (q none))
    (accepted : ∀ t, Shrinks (q (some t))) : Takes (accept? kinds >>= q) := by
  intro c b e read
  rw [bind_apply] at read
  cases found : c.rest with
  | nil =>
      rw [accept?_nil found] at read
      exact found ▸ without c b e read
  | cons t rest =>
      rw [accept?_cons found] at read
      by_cases listed : t.kind ∈ kinds
      · rw [if_pos listed] at read
        exact Nat.lt_succ_of_le (accepted t _ b e read)
      · rw [if_neg listed] at read
        exact found ▸ without c b e read

theorem tooDeep_takes : Takes (tooDeep : Parse α) := by
  intro c a d read
  cases read

/-- A reader without a result need not have taken anything. Taking a token is asked of results only, and
unwinding gives none. -/
theorem fail_takes (fault : SyntaxFault) : Takes (fail fault : Parse α) := by
  intro c a d read
  cases read

/-- Every primary expression begins with a token of its own, or unwinds with a report. -/
theorem primary_takes {inner : Parse Expr} (shrinks : Shrinks inner) : Takes (primary inner) := by
  apply Takes.accept? (fail_takes _)
  intro t
  dsimp only
  split
  case h_5 =>
    apply shrinks.bind
    intro e
    exact (expect_sound _ _).shrinks.bind fun _ => shrinks_inherited.pure _
  all_goals exact shrinks_inherited.pure _

/-- Every expression takes a token, on each level and at any depth. By induction over the depth: a level either
takes a sign of its own or reads the next tighter level first. -/
theorem expression_takes (depth : Nat) (l : Level) : Takes (expression depth l) := by
  induction depth generalizing l with
  | zero => exact tooDeep_takes
  | succ depth ih =>
      have shrinks (k : Level) : Shrinks (expression depth k) := shrinks_inherited.expression depth k
      have leftAssoc {k : Level} {ops : List TokenKind} {join : Expr → Token → Expr → Expr} :
          Takes (leftAssoc ops join (expression depth k)) :=
        (ih k).bind fun first => shrinks_inherited.bind shrinks_inherited.remaining fun fuel =>
          shrinks_inherited.chain ops join (shrinks k) fuel first
      cases l with
      | assignment =>
          apply (ih .disjunction).bind
          intro target
          apply shrinks_inherited.bind (shrinks_inherited.accept? _)
          intro o
          cases o with
          | none => exact shrinks_inherited.pure target
          | some sign =>
              exact (shrinks .assignment).bind fun value => shrinks_inherited.assignTo target value sign
      | ternary =>
          apply (ih .equality).bind
          intro condition
          apply shrinks_inherited.bind (shrinks_inherited.accept? _)
          intro o
          cases o with
          | none => exact shrinks_inherited.pure condition
          | some question =>
              apply (shrinks .assignment).bind
              intro yes
              apply (expect_sound _ _).shrinks.bind
              intro _
              exact (shrinks .ternary).bind fun no => shrinks_inherited.pure _
      | disjunction | conjunction | equality | comparison | sum | product => exact leftAssoc
      | unary =>
          apply Takes.accept? (ih .call)
          intro op
          exact (shrinks .unary).bind fun operand => shrinks_inherited.pure _
      | call =>
          apply (ih .primary).bind
          intro callee
          exact shrinks_inherited.bind shrinks_inherited.remaining fun fuel =>
            shrinks_inherited.calls (shrinks .assignment) fuel callee
      | primary => exact primary_takes (shrinks .assignment)

/-- Every statement takes a token: its keyword, its brace or the first one of its expression. -/
theorem statement_takes (depth : Nat) (f : Bool) : Takes (statement depth f) := by
  cases depth with
  | zero => exact tooDeep_takes
  | succ depth =>
      have sound := expression_sound depth .assignment
      have inner := (declaration_statement_sound depth).2 f
      apply Takes.accept?
      · exact (expression_takes depth .assignment).bind fun e =>
          (expect_sound _ _).shrinks.bind fun _ => shrinks_inherited.pure _
      · intro t
        dsimp only
        split
        · exact (forRest_sound sound inner).shrinks
        · exact (ifRest_sound sound inner).shrinks
        · exact (printRest_sound (f := f) sound).shrinks
        · exact (returnRest_sound sound t).shrinks
        · exact (whileRest_sound sound inner).shrinks
        · exact shrinks_inherited.map _ (blockBody_sound ((declaration_statement_sound depth).1 f)).shrinks

/-! ### Readers that need a token -/

/-- A reader that gives no result when there are no tokens. -/
def Fails (p : Parse α) : Prop := ∀ c a d, c.rest = [] → p c ≠ .ok a d

/-- At the end of the input a reader that takes a token can give no result. It unwinds, with a report or for
want of depth. -/
theorem Takes.fails {p : Parse α} (takes : Takes p) : Fails p := by
  intro c a d ended read
  have fewer := takes c a d read
  simp [ended] at fewer

theorem expect_takes (kind : TokenKind) (fault : SyntaxFault) : Takes (expect kind fault) :=
  .accept? (fail_takes fault) fun t => shrinks_inherited.pure t

theorem Fails.bind {p : Parse α} {q : α → Parse β} (fails : Fails p) : Fails (p >>= q) := by
  intro c b e ended read
  rw [bind_apply] at read
  cases computed : p c with
  | error stop d =>
      rw [computed] at read
      cases read
  | ok a d => exact fails c a d ended computed

/-! ### Declarations -/

/-- A reader that takes at least one token where there is one. -/
def Advances (p : Parse α) : Prop :=
  ∀ c a d, c.rest ≠ [] → p c = .ok a d → d.rest.length < c.rest.length

/-- Skipping drops the next token at least, so a loop that skips malformed declarations comes to its end. -/
theorem synchronize_length {c : Cursor} (left : c.rest ≠ []) :
    c.synchronize.rest.length < c.rest.length := by
  obtain ⟨t, rest, found⟩ := List.exists_cons_of_ne_nil left
  have shorter := (Cursor.skipAfter_suffix t.kind rest).length_le
  simp only [Cursor.synchronize, found, List.length_cons]
  omega

/-- A declaration that recovers takes a token: by reading it, or by skipping where it is malformed. -/
theorem recovering_advances {p : Parse α} {R : Readings α} (takes : Takes p) (sound : Sound R p) :
    Advances (recovering p) := by
  intro c o d left read
  unfold recovering at read
  cases result : p c with
  | ok a e =>
      rw [result] at read
      cases read
      exact takes c a d result
  | error stop e =>
      rw [result] at read
      have conforms := sound c
      rw [result] at conforms
      cases stop with
      | tooDeep => cases read
      | malformed =>
          cases read
          have shorter := conforms.1.length_le
          by_cases ended : e.rest = []
          · have none : e.synchronize.rest = [] := by simp [Cursor.synchronize, ended]
            rw [none]
            exact List.length_pos_iff.mpr left
          · exact Nat.lt_of_lt_of_le (synchronize_length ended) shorter

/-- A declaration without recovery: it unwinds where it is malformed. -/
def declared : Nat → Bool → Parse Stmt
  | 0, _ => tooDeep
  | depth + 1, inFunction => do
    match ← accept? [.funWord, .varWord] with
    | none => statement depth inFunction
    | some t =>
      if t.kind = .funWord then functionRest (declaration depth true)
      else varRest (expression depth .assignment)

theorem declaration_eq (depth : Nat) (inFunction : Bool) :
    declaration depth inFunction = recovering (declared depth inFunction) := by
  cases depth with
  | zero => rfl
  | succ depth => rfl

/-- A declaration that is read takes a token: its keyword, or the first token of its statement. -/
theorem declared_takes (depth : Nat) (f : Bool) : Takes (declared depth f) := by
  cases depth with
  | zero => exact tooDeep_takes
  | succ depth =>
      apply Takes.accept? (statement_takes depth f)
      intro t
      dsimp only
      split
      · exact (functionRest_sound f ((declaration_statement_sound depth).1 true)).shrinks
      · exact (varRest_sound (expression_sound depth .assignment)).shrinks

theorem declared_sound (depth : Nat) (f : Bool) : Sound (fun _ _ _ => True) (declared depth f) := by
  cases depth with
  | zero => exact tooDeep_sound
  | succ depth =>
      obtain ⟨declares, states⟩ := declaration_statement_sound depth
      apply (accept?_sound _).bind
      intro us o
      cases o with
      | none => exact (states f).mono fun _ _ _ _ _ => trivial
      | some t =>
          dsimp only
          split
          · exact (functionRest_sound f (declares true)).mono fun _ _ _ _ _ => trivial
          · exact (varRest_sound (expression_sound depth .assignment)).mono fun _ _ _ _ _ => trivial

/-- A declaration that begins before the end of the input takes at least one token, whether it is read or
skipped. This is the measure of the loop over declarations. -/
theorem declaration_advances (depth : Nat) (f : Bool) : Advances (declaration depth f) := by
  rw [declaration_eq]
  exact recovering_advances (declared_takes depth f) (declared_sound depth f)

end Treewalk.Parse

import Treewalk.Proofs.Reading.Limit

/-!
A malformed declaration costs itself and nothing else. Reading unwinds at the token that breaks a rule and
skips to the probable start of a statement. Where the malformed tokens end with their only semicolon and no
other statement seems to begin among them, skipping ends exactly behind that semicolon, whatever comes
next. So what stands before and behind is read as if the malformed tokens were not there, and what is
reported is what they alone would have reported.
-/

namespace Treewalk

namespace Cursor

theorem reported_synchronize (c : Cursor) : c.synchronize.reported = c.reported := by
  unfold synchronize
  split <;> rfl

/-- Behind a semicolon nothing is skipped, so what follows is read from its first token on. -/
theorem skipAfter_semicolon (ts : List Token) : skipAfter .semicolon ts = ts := by
  cases ts with
  | nil => rfl
  | cons t ts => rw [skipAfter, if_pos (.inl rfl)]

/-- Skipping passes over tokens that begin no statement, up to the first semicolon, and stops behind it. By
induction over these tokens. -/
theorem skipAfter_past {last : TokenKind} {body : List Token} {sign : Token} (behind : List Token)
    (going : last ≠ .semicolon) (unclosed : ∀ t ∈ body, t.kind ≠ .semicolon)
    (inside : ∀ t ∈ body, startsStatement t.kind = false) (closing : sign.kind = .semicolon) :
    skipAfter last (body ++ sign :: behind) = behind := by
  induction body generalizing last with
  | nil =>
      have other : startsStatement sign.kind = false := by rw [closing]; rfl
      rw [List.nil_append, skipAfter, if_neg (by simp [going, other]), closing, skipAfter_semicolon]
  | cons t body ih =>
      have other := inside t List.mem_cons_self
      rw [List.cons_append, skipAfter, if_neg (by simp [going, other])]
      apply ih (unclosed t List.mem_cons_self)
      · exact fun u listed => unclosed u (List.mem_cons_of_mem t listed)
      · exact fun u listed => inside u (List.mem_cons_of_mem t listed)

end Cursor

namespace Parse

/-- The tokens of a malformed declaration, with an end of the input on `line` behind them. Braces need no
condition of their own. -/
structure Malformed (depth : Nat) (line : Int) (ts : List Token) : Prop where
  inner : ∀ t ∈ ts, t.kind ≠ .endOfInput
  /-- They end with their only semicolon. -/
  closed : ∃ body sign, ts = body ++ [sign] ∧ sign.kind = .semicolon ∧ ∀ t ∈ body, t.kind ≠ .semicolon
  /-- They do not continue the statement before them. -/
  begins : ∀ t ∈ ts.head?, t.kind ≠ .elseWord
  /-- No other statement seems to begin among them. -/
  single : ∀ t ∈ ts.tail, Cursor.startsStatement t.kind = false
  /-- Reading unwinds at one of them, and not at the end. -/
  unwinds : ∃ d, declared depth false ⟨ts, line, #[]⟩ = .error .malformed d ∧ d.rest ≠ []

namespace Malformed

variable {depth : Nat} {line : Int} {ts : List Token}

theorem ne_nil (malformed : Malformed depth line ts) : ts ≠ [] := by
  obtain ⟨body, sign, rfl, -⟩ := malformed.closed
  simp

/-- From any token of a malformed declaration on, skipping ends behind its last one. Where the reading unwound
does not matter for what is read next. -/
theorem rest_synchronize (malformed : Malformed depth line ts) {c : Cursor} {left behind : List Token}
    (found : c.rest = left ++ behind) (some : left ≠ []) (suffix : left <:+ ts) :
    c.synchronize.rest = behind := by
  obtain ⟨body, sign, rfl, closing, unclosed⟩ := malformed.closed
  obtain ⟨t, others, rfl⟩ := List.exists_cons_of_ne_nil some
  have inside : ∀ u ∈ others, Cursor.startsStatement u.kind = false := by
    intro u listed
    obtain ⟨before, same⟩ := suffix
    apply malformed.single u
    rw [← same]
    cases before with
    | nil => exact listed
    | cons v before => simp [listed]
  simp only [Cursor.synchronize, found, List.cons_append]
  rcases List.suffix_concat_iff.mp suffix with none | ⟨body', same, within⟩
  · cases none
  · cases body' with
    | nil =>
        cases same
        rw [closing]
        exact Cursor.skipAfter_semicolon behind
    | cons u body' =>
        rw [List.cons_append] at same
        obtain ⟨rfl, rfl⟩ := List.cons.inj same
        have unclosed' : ∀ v ∈ t :: body', v.kind ≠ .semicolon := fun v listed => unclosed v (within.mem listed)
        rw [List.append_assoc]
        apply Cursor.skipAfter_past behind (unclosed' t List.mem_cons_self)
        · exact fun v listed => unclosed' v (List.mem_cons_of_mem t listed)
        · exact fun v listed => inside v (List.mem_append_left _ listed)
        · exact closing

/-- Wherever a malformed declaration stands, it is skipped and reports what it reports by itself. It unwinds
before its end, so what stands behind it was never looked at. -/
theorem declaration_eq_none {d : Cursor} (malformed : Malformed depth line ts)
    (unwound : declared depth false ⟨ts, line, #[]⟩ = .error .malformed d) (left : d.rest ≠ [])
    {c : Cursor} {behind : List Token} (found : c.rest = ts ++ behind) :
    ∃ e, declaration depth false c = .ok none e ∧ e.rest = behind ∧
      e.reported.toList = c.reported.toList ++ d.reported.toList := by
  have start : Joint.Relates ⟨0, behind, c.reported.toList, False, False.elim⟩ ⟨ts, line, #[]⟩ c := by
    constructor
    · simpa [List.map_id'' Token.moved_zero] using found
    · exact False.elim
    · simp
  have sent := (Joint.declared_statement_transfers (Nat.le_refl depth) _).1 false _ c (Nat.le_refl _) start
  rw [unwound] at sent
  obtain ⟨follows, -, sent⟩ := sent
  obtain ⟨d', unwound', related⟩ := sent (.inl left)
  have found' : d'.rest = d.rest ++ behind := by simpa [List.map_id'' Token.moved_zero] using related.rest
  refine ⟨d'.synchronize, ?_, malformed.rest_synchronize found' left follows.rest, ?_⟩
  · simp only [declaration_eq, recovering, unwound']
  · rw [Cursor.reported_synchronize, related.reported, List.map_id'' Diagnostic.moved_zero]

end Malformed

/-- Declarations that were read to the end without a report are read alike after other reports. -/
theorem declarationsUpTo_elsewhere {depth : Nat} {line : Int} {ts : List Token} {A : List Stmt} {d : Cursor}
    (read : declarationsUpTo none (declaration depth false) ts.length ⟨ts, line, #[]⟩ = .ok A d)
    (silent : d.reported.toList = []) {c : Cursor} (found : c.rest = ts) {fuel : Nat} (enough : ts.length ≤ fuel) :
    ∃ e, declarationsUpTo none (declaration depth false) fuel c = .ok A e ∧
      e.reported.toList = c.reported.toList := by
  have start : Joint.Relates ⟨0, [], c.reported.toList, False, False.elim⟩ ⟨ts, line, #[]⟩ c := by
    constructor
    · simpa [List.map_id'' Token.moved_zero] using found
    · exact False.elim
    · simp
  have transfers (J : Joint) (n : Nat) := J.declaration_transfers (Nat.le_refl depth) n false
  have sent := Joint.declarationsUpTo_transfers none ((transfers _ _).weaken fun _ _ => trivial)
    (declaration_advances depth false) (Nat.le_refl ts.length) enough _ c (Nat.le_refl _) start
  rw [read] at sent
  obtain ⟨e, read', related⟩ := sent.2 (.inr (.inr ⟨by simpa using silent, by simp⟩))
  refine ⟨e, ?_, ?_⟩
  · rw [read', List.map_id'' Stmt.moved_zero]
  · simpa [silent] using related.reported

end Parse

namespace Program

open Parse

variable {depth : Nat} {as gs bs : List Token} {a g b : Token} {A B : List Stmt}

/-- A malformed declaration by itself leaves no statement, and its faults are those reported up to where
it unwound. -/
theorem ofTokens_malformed {d : Cursor} (malformed : Malformed depth g.line gs)
    (unwound : declared depth false ⟨gs, g.line, #[]⟩ = .error .malformed d) (left : d.rest ≠ [])
    (ends : g.kind = .endOfInput) : ofTokens depth (gs ++ [g]) = some ⟨[], d.reported.toList⟩ := by
  have found : Cursor.rest ⟨gs, g.line, #[]⟩ = gs ++ [] := (List.append_nil gs).symm
  obtain ⟨e, read, finished, reported⟩ := malformed.declaration_eq_none unwound left found
  obtain ⟨fuel, length⟩ : ∃ k, gs.length = k + 1 :=
    Nat.exists_eq_succ_of_ne_zero (by simp [malformed.ne_nil])
  refine (ofTokens_eq_some_iff malformed.inner ends).mpr ⟨e, ?_, by simpa using reported⟩
  rw [length, Joint.declarationsUpTo_eq_ok malformed.ne_nil]
  exact ⟨none, e, [], read, Joint.declarationsUpTo_ended none fuel finished, rfl⟩

/-- A malformed declaration and a program without a fault behind it: the program is read as by itself, and the
faults are those of the declaration. -/
theorem declarationsUpTo_malformed {d c : Cursor} (malformed : Malformed depth g.line gs)
    (unwound : declared depth false ⟨gs, g.line, #[]⟩ = .error .malformed d) (left : d.rest ≠ [])
    (inner : ∀ t ∈ bs, t.kind ≠ .endOfInput) (ends : b.kind = .endOfInput)
    (behind : ofTokens depth (bs ++ [b]) = some ⟨B, []⟩) (found : c.rest = gs ++ bs) {fuel : Nat}
    (enough : c.rest.length ≤ fuel) :
    ∃ e, declarationsUpTo none (declaration depth false) fuel c = .ok B e ∧
      e.reported.toList = c.reported.toList ++ d.reported.toList := by
  obtain ⟨c₁, read₁, rest₁, reported₁⟩ := malformed.declaration_eq_none unwound left found
  obtain ⟨_, read, silent⟩ := (ofTokens_eq_some_iff inner ends).mp behind
  have some : 0 < gs.length := List.length_pos_iff.mpr malformed.ne_nil
  rw [found, List.length_append] at enough
  obtain ⟨fuel, rfl⟩ : ∃ k, fuel = k + 1 := ⟨fuel - 1, by omega⟩
  have enough' : bs.length ≤ fuel := by omega
  obtain ⟨e, read₂, reported₂⟩ := declarationsUpTo_elsewhere read silent rest₁ enough'
  refine ⟨e, ?_, reported₂.trans reported₁⟩
  exact (Joint.declarationsUpTo_eq_ok (by simp [found, malformed.ne_nil])).mpr ⟨none, c₁, B, read₁, read₂, rfl⟩

/-- **Recovery isolates a malformed declaration.** Between two programs without a fault it takes no statement
from either, and the faults are its own. -/
theorem malformed_isolated (depth : Nat) (as gs bs : List Token) (a g b z : Token) (A B : List Stmt)
    (innerA : ∀ t ∈ as, t.kind ≠ .endOfInput) (innerB : ∀ t ∈ bs, t.kind ≠ .endOfInput)
    (ends : ∀ t ∈ [a, g, b, z], t.kind = .endOfInput)
    (before : ofTokens depth (as ++ [a]) = some ⟨A, []⟩) (malformed : Malformed depth g.line gs)
    (behind : ofTokens depth (bs ++ [b]) = some ⟨B, []⟩) :
    ∃ faults, ofTokens depth (gs ++ [g]) = some ⟨[], faults⟩ ∧
      ofTokens depth (as ++ gs ++ bs ++ [z]) = some ⟨A ++ B, faults⟩ := by
  obtain ⟨endsA, endsG, endsB, endsZ⟩ : a.kind = .endOfInput ∧ g.kind = .endOfInput ∧
    b.kind = .endOfInput ∧ z.kind = .endOfInput := by simpa using ends
  obtain ⟨d, unwound, left⟩ := malformed.unwinds
  refine ⟨d.reported.toList, ofTokens_malformed malformed unwound left endsG, ?_⟩
  have inner : ∀ t ∈ as ++ gs ++ bs, t.kind ≠ .endOfInput := by
    simp only [List.mem_append]
    rintro t ((listed | listed) | listed)
    · exact innerA t listed
    · exact malformed.inner t listed
    · exact innerB t listed
  rw [ofTokens_eq_some_iff inner endsZ]
  obtain ⟨c, read, silent⟩ := (ofTokens_eq_some_iff innerA endsA).mp before
  have transfers (J : Joint) (n : Nat) := J.declaration_transfers (Nat.le_refl depth) n false
  -- the first program stays where it is, and all else comes behind it
  have start : Joint.Relates ⟨0, gs ++ bs, [], False, False.elim⟩ ⟨as, a.line, #[]⟩
      ⟨as ++ gs ++ bs, z.line, #[]⟩ := by
    constructor
    · simp [List.map_id'' Token.moved_zero]
    · exact False.elim
    · rfl
  have others : ∀ t ∈ (gs ++ bs).head?, ¬ Joint.continuing t.kind := by
    rw [List.head?_append, Option.or_of_isSome (List.isSome_head?.mpr malformed.ne_nil)]
    exact malformed.begins
  obtain ⟨finished, c', fuel, related, -, enough, later⟩ :=
    Joint.declarationsUpTo_append (transfers _) (declaration_advances depth false)
      (fun c o d read => (transfers (.whole 0) _).follows (Nat.le_refl _) read) others (Nat.le_refl _)
      (Nat.le_refl _) read (by simpa using silent) start
  have found : c'.rest = gs ++ bs := by simpa [finished] using related.rest
  have enough' : c'.rest.length ≤ fuel := by rw [found]; exact enough
  have silent' : c'.reported.toList = [] := by simpa [silent] using related.reported
  obtain ⟨e, read', reported⟩ := declarationsUpTo_malformed malformed unwound left innerB endsB behind found
    enough'
  refine ⟨e, ?_, by simpa [silent'] using reported⟩
  have joined := later _ e read'
  rw [List.map_id'' Stmt.moved_zero] at joined
  rw [List.append_assoc] at joined ⊢
  rw [List.length_append]
  exact joined

/-- The tokens of `(a) = b c;`, which is reported twice: `(a)` cannot be assigned to, and at `c`. -/
def misassigned : List Token :=
  [sign .leftParen "(", sign .identifier "a", sign .rightParen ")", sign .equal "=", sign .identifier "b",
    sign .identifier "c", sign .semicolon ";"]
where
  sign (kind : TokenKind) (lexeme : String) : Token := ⟨kind, lexeme, .nil, 1, none⟩

/-- An assignment to a grouping, with a name too many behind its value, is a malformed declaration: its faults
are reported inside of it, and it ends with its only semicolon. -/
theorem misassigned_malformed : Malformed 40 1 misassigned := by
  constructor
  · decide
  · refine ⟨misassigned.dropLast, misassigned.sign .semicolon ";", rfl, rfl, ?_⟩
    decide
  · simp [misassigned, misassigned.sign]
  · decide
  · let target : Diagnostic := .atToken (misassigned.sign .equal "=") SyntaxFault.assignmentTarget.message
    let sign : Diagnostic :=
      .atToken (misassigned.sign .identifier "c") SyntaxFault.semicolonAfterExpression.message
    refine ⟨⟨misassigned.drop 5, 1, #[target, sign]⟩, ?_, List.cons_ne_nil _ _⟩
    cbv

/-- Between `a;` and `b;` these tokens cost neither of them. -/
theorem misassigned_isolated :
    let a := misassigned.sign .identifier "a"
    let b := misassigned.sign .identifier "b"
    let semicolon := misassigned.sign .semicolon ";"
    let last := misassigned.sign .endOfInput ""
    Malformed 40 1 misassigned ∧ ∃ faults,
      ofTokens 40 (misassigned ++ [last]) = some ⟨[], faults⟩ ∧
      ofTokens 40 ([a, semicolon] ++ misassigned ++ [b, semicolon] ++ [last]) =
        some ⟨[.expression (.variable a)] ++ [.expression (.variable b)], faults⟩ := by
  intro a b semicolon last
  refine ⟨misassigned_malformed, malformed_isolated 40 _ misassigned _ last last last last _ _ ?_ ?_ ?_ ?_ ?_ ?_⟩
  · decide
  · decide
  · decide
  · cbv
  · exact misassigned_malformed
  · cbv

end Program

end Treewalk

import Treewalk.Proofs.Grammar.Acceptance
import Treewalk.Proofs.Reading.Transfer
import Treewalk.Proofs.Token.Joining

/-!
Reading two programs one after the other. Statements transfer to another place (`Joint.Transfers`) when no
`else` stands behind them. No program begins with an `else`; so two sources without a fault, joined by a
line feed, are read without a fault, and the statements are those of the first and then those of the
second, moved down.
-/

namespace Treewalk

/-- Moving the loop that stands for a `for` statement is moving its clauses and its body. -/
theorem Stmt.moved_forLoop (k : Int) (initial : Option Stmt) (condition increment : Option Expr)
    (body : Stmt) : (forLoop initial condition increment body).moved k =
      forLoop (initial.map (Stmt.moved k)) (condition.map (Expr.moved k)) (increment.map (Expr.moved k))
        (body.moved k) := by
  cases initial <;> cases increment <;> cases condition <;> rfl

namespace Joint

open Parse

/-- All tokens moved, with nothing behind them and nothing reported before. -/
def whole (k : Int) : Joint := ⟨k, [], [], True, fun _ => rfl⟩

variable {J : Joint} {S : TokenKind → Prop} {n : Nat}

/-- The word that a statement may go on with. -/
def continuing (kind : TokenKind) : Prop := kind = .elseWord

/-! ### Statements -/

section Statements

variable {expr expr' : Parse Expr} {body body' : Parse Stmt}

/-- An expression statement needs its semicolon, so it never depends on the end of the tokens. -/
theorem expressionStatement_transfers (transfers : J.Transfers any n (Expr.moved J.shift) expr expr') :
    J.Transfers S n (Stmt.moved J.shift) (expressionStatement expr) (expressionStatement expr') := by
  apply Transfers.beforeSign transfers
  intro e _
  exact .pure _ (Stmt.expression e)

theorem varRest_transfers (transfers : J.Transfers any n (Expr.moved J.shift) expr expr') :
    J.Transfers S n (Stmt.moved J.shift) (varRest expr) (varRest expr') := by
  apply Transfers.expect
  intro name
  apply Transfers.beforeSign (afterSign_transfers trivial transfers)
  intro initial _
  rw [← Stmt.moved_var]
  exact .pure _ (Stmt.var name initial)

/-- The first clause of a `for` loop transfers in each of its forms. Its semicolon is part of it, in
every form. -/
theorem forInitial_transfers (transfers : J.Transfers any n (Expr.moved J.shift) expr expr') :
    J.Transfers any n (Option.map (Stmt.moved J.shift)) (forInitial expr) (forInitial expr') := by
  apply Transfers.accept? (.inl fun _ _ => trivial)
  · exact (expressionStatement_transfers transfers).map fun _ => rfl
  · intro t m _ fewer
    by_cases kind : t.kind = .semicolon
    · have kind' : (t.moved J.shift).kind = .semicolon := kind
      dsimp only
      rw [if_pos kind, if_pos kind']
      exact .pure _ none
    · have kind' : ¬ (t.moved J.shift).kind = .semicolon := kind
      dsimp only
      rw [if_neg kind, if_neg kind']
      exact (varRest_transfers (transfers.mono (by omega))).map fun _ => rfl

/-- The head of a `for` loop needs its parenthesis, so only the body can get to the end of the tokens. -/
theorem forRest_transfers (transfers : J.Transfers any n (Expr.moved J.shift) expr expr')
    (repeated : J.Transfers S n (Stmt.moved J.shift) body body') :
    J.Transfers S n (Stmt.moved J.shift) (forRest expr body) (forRest expr' body') := by
  apply Transfers.expect
  intro _
  apply (forInitial_transfers transfers).before
  · intro initial
    exact (unlessNext_transfers _ transfers).fails fun _ => (expect_takes _ _).fails.bind
  intro initial
  apply Transfers.beforeSign (unlessNext_transfers _ transfers)
  intro condition _
  apply Transfers.beforeSign (unlessNext_transfers _ transfers)
  intro increment _
  apply repeated.bind
  intro s
  rw [← Stmt.moved_forLoop]
  exact .pure _ (Stmt.forLoop initial condition increment s)

/-- An `if` may get to the end of the tokens, and then an `else` behind them would be read as its own. This is
the one kind that `continuing` names. -/
theorem ifRest_transfers (transfers : J.Transfers any n (Expr.moved J.shift) expr expr')
    (branch : J.Transfers continuing n (Stmt.moved J.shift) body body') :
    J.Transfers continuing n (Stmt.moved J.shift) (ifRest expr body) (ifRest expr' body') := by
  apply Transfers.expect
  intro _
  apply Transfers.beforeSign transfers
  intro condition _
  apply branch.bind
  intro yes
  have listed : continuing .elseWord := rfl
  apply (afterSign_transfers listed branch).bind
  intro no
  rw [← Stmt.moved_branch]
  exact .pure _ (Stmt.branch condition yes no)

theorem printRest_transfers (transfers : J.Transfers any n (Expr.moved J.shift) expr expr') :
    J.Transfers S n (Stmt.moved J.shift) (printRest expr) (printRest expr') := by
  apply Transfers.beforeSign transfers
  intro e _
  exact .pure _ (Stmt.print e)

/-- A `return` is reported in both places or in neither, at the moved keyword. The flag is the same in both,
since joining sources puts no function around them. -/
theorem returnRest_transfers (f : Bool) (keyword : Token)
    (transfers : J.Transfers any n (Expr.moved J.shift) expr expr') :
    J.Transfers S n (Stmt.moved J.shift) (returnRest f keyword expr)
      (returnRest f (keyword.moved J.shift) expr') := by
  apply (reportIf_transfers _ (report_transfers keyword _)).bind
  intro _
  apply Transfers.beforeSign (unlessNext_transfers _ transfers)
  intro value _
  rw [← Stmt.moved_return]
  exact .pure _ (Stmt.return keyword value)

theorem whileRest_transfers (transfers : J.Transfers any n (Expr.moved J.shift) expr expr')
    (repeated : J.Transfers S n (Stmt.moved J.shift) body body') :
    J.Transfers S n (Stmt.moved J.shift) (whileRest expr body) (whileRest expr' body') := by
  apply Transfers.expect
  intro _
  apply Transfers.beforeSign transfers
  intro condition _
  apply repeated.bind
  intro s
  exact .pure _ (Stmt.loop condition s)

end Statements

section Declarations

variable {declaration declaration' : Parse (Option Stmt)}

/-- With no token left, a row of declarations is over in any number of turns. -/
theorem declarationsUpTo_ended (stop : Option TokenKind) (fuel : Nat) {c : Cursor} (ended : c.rest = []) :
    declarationsUpTo stop declaration fuel c = .ok [] c := by
  cases fuel with
  | zero => rfl
  | succ fuel => simp [declarationsUpTo, ended]

/-- A loop over declarations transfers, since it has a turn for every token and each turn takes one. The number
of turns differs in the two places, and does not matter for this reason. By induction over the turns. -/
theorem declarationsUpTo_transfers (stop : Option TokenKind)
    (transfers : J.Transfers any n (Option.map (Stmt.moved J.shift)) declaration declaration')
    (advances : Advances declaration)
    {fuel fuel' : Nat} (enough : n ≤ fuel) (enough' : n + J.more.length ≤ fuel') :
    J.Transfers any n (List.map (Stmt.moved J.shift)) (declarationsUpTo stop declaration fuel)
      (declarationsUpTo stop declaration' fuel') := by
  induction fuel generalizing n fuel' with
  | zero =>
      obtain rfl : n = 0 := by omega
      exact transfers_of_ended (fun _ => declarationsUpTo_ended stop 0)
        fun _ => declarationsUpTo_ended stop fuel'
  | succ fuel ih =>
      cases n with
      | zero =>
          exact transfers_of_ended (fun _ => declarationsUpTo_ended stop _)
            fun _ => declarationsUpTo_ended stop fuel'
      | succ n =>
          obtain ⟨fuel', rfl⟩ : ∃ k, fuel' = k + 1 := ⟨fuel' - 1, by omega⟩
          have turn : J.Transfers any (n + 1) (List.map (Stmt.moved J.shift)) (do
              let first ← declaration
              let more ← declarationsUpTo stop declaration fuel
              return first.toList ++ more) (do
              let first ← declaration'
              let more ← declarationsUpTo stop declaration' fuel'
              return first.toList ++ more) := by
            apply transfers.seq
            · intro c first d short read
              have fewer : d.rest.length ≤ n := by
                have shorter := (transfers.follows short read).length_le
                by_cases ended : c.rest = []
                · simp only [ended, List.length_nil] at shorter
                  omega
                · have taken := advances c first d ended read
                  omega
              apply (ih (transfers.mono (by omega)) (by omega) (by omega)).bind
              intro more
              cases first with
              | none => exact .pure _ more
              | some s => exact .pure _ (s :: more)
            · exact fun c a d b e follows later _ bounded => bounded.earlier follows later
          intro c c' short related
          have rest := related.rest
          cases found : c.rest with
          | nil =>
              rw [declarationsUpTo_ended stop _ found]
              refine ⟨.refl c, fun bounded => ⟨c', declarationsUpTo_ended stop _ ?_, related⟩⟩
              simp [related.rest, found, bounded.more_eq_nil found]
          | cons t rest' =>
              rw [found, List.map_cons, List.cons_append] at rest
              simp only [declarationsUpTo, found, rest]
              by_cases stopped : stop = some t.kind
              · have stopped' : stop = some (t.moved J.shift).kind := stopped
                rw [if_pos stopped, if_pos stopped']
                exact ⟨.refl c, fun _ => ⟨c', rfl, related⟩⟩
              · have stopped' : ¬ stop = some (t.moved J.shift).kind := stopped
                rw [if_neg stopped, if_neg stopped']
                exact turn c c' short related

/-- A block needs its closing brace, so a block that is read ends before the end of the tokens, and what stands
behind them cannot change it. -/
theorem blockBody_transfers
    (transfers : J.Transfers any n (Option.map (Stmt.moved J.shift)) declaration declaration')
    (advances : Advances declaration) :
    J.Transfers S n (List.map (Stmt.moved J.shift)) (blockBody declaration) (blockBody declaration') := by
  apply Transfers.remaining
  intro m fewer
  apply Transfers.beforeSign (declarationsUpTo_transfers _ (transfers.mono fewer) advances
    (Nat.le_refl _) (Nat.le_refl _))
  intro body _
  exact .pure _ body

/-- A function needs the closing brace of its body, so it transfers as a block does. -/
theorem functionRest_transfers
    (transfers : J.Transfers any n (Option.map (Stmt.moved J.shift)) declaration declaration')
    (advances : Advances declaration) :
    J.Transfers S n (Stmt.moved J.shift) (functionRest declaration) (functionRest declaration') := by
  apply Transfers.expect
  intro name
  apply Transfers.expect
  intro _
  apply (items_transfers _ _ (expect_transfers _ _)).bind
  intro parameters
  apply Transfers.expect
  intro _
  apply (blockBody_transfers transfers advances).bind
  intro body
  rw [← Stmt.moved_function]
  exact .pure _ (Stmt.function name parameters body)

end Declarations

/-- **Declarations and statements transfer.** They are read alike in any place whose limit on depth is no
smaller. By induction over the depth. -/
theorem declared_statement_transfers {depth depth' : Nat} (enough : depth ≤ depth') (n : Nat) :
    (∀ f, J.Transfers continuing n (Stmt.moved J.shift) (declared depth f) (declared depth' f)) ∧
    ∀ f, J.Transfers continuing n (Stmt.moved J.shift) (statement depth f) (statement depth' f) := by
  induction depth generalizing depth' n with
  | zero => exact ⟨fun _ => tooDeep_transfers, fun _ => tooDeep_transfers⟩
  | succ depth ih =>
      obtain ⟨depth', rfl⟩ : ∃ k, depth' = k + 1 := ⟨depth' - 1, by omega⟩
      have lower := Nat.le_of_succ_le_succ enough
      have expr (m : Nat) := expression_transfers (J := J) lower m .assignment
      have inner (m : Nat) := ih lower m
      have declares (m : Nat) (f : Bool) : J.Transfers any m (Option.map (Stmt.moved J.shift))
          (declaration depth f) (declaration depth' f) := by
        rw [declaration_eq, declaration_eq]
        exact (recovering_transfers ((inner m).1 f)).weaken fun _ _ => trivial
      constructor
      · intro f
        apply Transfers.accept? (.inr (statement_takes depth f).fails) ((inner n).2 f)
        intro t m _ fewer
        by_cases kind : t.kind = .funWord
        · have kind' : (t.moved J.shift).kind = .funWord := kind
          dsimp only
          rw [if_pos kind, if_pos kind']
          exact functionRest_transfers (declares m true) (declaration_advances depth true)
        · have kind' : ¬ (t.moved J.shift).kind = .funWord := kind
          dsimp only
          rw [if_neg kind, if_neg kind']
          exact varRest_transfers (expr m)
      · intro f
        apply Transfers.accept? (.inr ((expression_takes depth .assignment).fails.bind))
        · exact expressionStatement_transfers (expr n)
        · intro t m _ fewer
          dsimp only [Token.kind_moved]
          split
          · exact forRest_transfers (expr m) ((inner m).2 f)
          · exact ifRest_transfers (expr m) ((inner m).2 f)
          · exact printRest_transfers (expr m)
          · exact returnRest_transfers f t (expr m)
          · exact whileRest_transfers (expr m) ((inner m).2 f)
          · exact (blockBody_transfers (declares m f) (declaration_advances depth f)).map fun body =>
              (Stmt.moved_block J.shift body).symm

/-- Declarations that recover transfer too, as long as skipping ends before the end of the tokens. -/
theorem declaration_transfers {depth depth' : Nat} (enough : depth ≤ depth') (n : Nat) (f : Bool) :
    J.Transfers continuing n (Option.map (Stmt.moved J.shift)) (declaration depth f)
      (declaration depth' f) := by
  rw [declaration_eq, declaration_eq]
  exact recovering_transfers ((declared_statement_transfers enough n).1 f)

/-- A row that is not over: its first declaration, and the row from there on. -/
theorem declarationsUpTo_eq_ok {declaration : Parse (Option Stmt)} {fuel : Nat} {c e : Cursor}
    {A : List Stmt} (left : c.rest ≠ []) : declarationsUpTo none declaration (fuel + 1) c = .ok A e ↔
      ∃ first d more, declaration c = .ok first d ∧ declarationsUpTo none declaration fuel d = .ok more e ∧
        A = first.toList ++ more := by
  obtain ⟨t, rest, found⟩ := List.exists_cons_of_ne_nil left
  simp only [declarationsUpTo, found, reduceCtorEq, if_false, bind_apply]
  constructor
  · intro read
    cases computed : declaration c with
    | error stop d => simp [computed] at read
    | ok first d =>
        simp only [computed] at read
        cases computed' : declarationsUpTo none declaration fuel d with
        | error stop d' => simp [computed'] at read
        | ok more d' =>
            simp only [computed'] at read
            cases read
            exact ⟨first, d, more, rfl, computed', rfl⟩
  · rintro ⟨first, d, more, read, read', rfl⟩
    simp only [read, read']
    rfl

/-- Declarations that were read to the end without a report, with more tokens behind them: they are read
alike, and reading then goes on with those tokens. -/
theorem declarationsUpTo_append {declaration declaration' : Parse (Option Stmt)}
    (transfers : ∀ n, J.Transfers continuing n (Option.map (Stmt.moved J.shift)) declaration declaration')
    (advances : Advances declaration)
    (follows' : ∀ c o d, declaration' c = .ok o d → c.Follows d)
    (others : ∀ t ∈ J.more.head?, ¬ continuing t.kind) {fuel fuel' : Nat} {c c' d : Cursor} {A : List Stmt}
    (enough : c.rest.length ≤ fuel) (enough' : c.rest.length + J.more.length ≤ fuel')
    (read : declarationsUpTo none declaration fuel c = .ok A d)
    (silent : d.reported.size = c.reported.size) (related : J.Relates c c') :
    d.rest = [] ∧ ∃ d' left, J.Relates d d' ∧ d'.endLine = c'.endLine ∧ J.more.length ≤ left ∧
      ∀ B e, declarationsUpTo none declaration' left d' = .ok B e →
        declarationsUpTo none declaration' fuel' c' = .ok (A.map (Stmt.moved J.shift) ++ B) e := by
  induction fuel generalizing fuel' c c' A with
  | zero =>
      have ended : c.rest = [] := List.length_eq_zero_iff.mp (Nat.le_zero.mp enough)
      cases read
      exact ⟨ended, c', fuel', related, rfl, by omega, fun B e later => later⟩
  | succ fuel ih =>
      by_cases ended : c.rest = []
      · rw [declarationsUpTo_ended none _ ended] at read
        cases read
        exact ⟨ended, c', fuel', related, rfl, by omega, fun B e later => later⟩
      have some : 0 < c.rest.length := List.length_pos_iff.mpr ended
      have ended' : c'.rest ≠ [] := by simp [related.rest, ended]
      obtain ⟨fuel', rfl⟩ : ∃ k, fuel' = k + 1 := ⟨fuel' - 1, by omega⟩
      obtain ⟨first, d₁, more, read₁, read₂, rfl⟩ := (declarationsUpTo_eq_ok ended).mp read
      have shorter := advances c first d₁ ended read₁
      have follows := (transfers _).follows (Nat.le_refl _) read₁
      have later : d₁.Follows d := (declarationsUpTo_transfers none ((transfers _).weaken fun _ _ => trivial)
        advances (Nat.le_of_lt_succ (by omega)) (Nat.le_refl _)).follows (Nat.le_refl _) read₂
      have grown := follows.size_le
      have grown' := later.size_le
      have sent := transfers _ c c' (Nat.le_refl _) related
      rw [read₁] at sent
      obtain ⟨d₁', read₁', related₁⟩ := sent.2 (.inr (.inr ⟨by omega, others⟩))
      have line := (follows' _ _ _ read₁').endLine
      obtain ⟨finished, d', left, related', line', enough'', read₂'⟩ :=
        @ih fuel' d₁ d₁' more (by omega) (by omega) read₂ (by omega) related₁
      refine ⟨finished, d', left, related', line'.trans line, enough'', fun B e rest => ?_⟩
      refine (declarationsUpTo_eq_ok ended').mpr ⟨_, d₁', _, read₁', read₂' B e rest, ?_⟩
      cases first <;> simp

end Joint

namespace Program

open Parse

/-- A program is what a row of declarations up to the end token gives. -/
theorem ofTokens_eq_some_iff {depth : Nat} {ts : List Token} {last : Token} {A : List Stmt}
    {faults : List Diagnostic} (inner : ∀ t ∈ ts, t.kind ≠ .endOfInput) (ends : last.kind = .endOfInput) :
    ofTokens depth (ts ++ [last]) = some ⟨A, faults⟩ ↔
      ∃ c, declarationsUpTo none (declaration depth false) ts.length ⟨ts, last.line, #[]⟩ = .ok A c ∧
        c.reported.toList = faults := by
  simp only [ofTokens, cursor_snoc inner ends]
  cases declarationsUpTo none (declaration depth false) ts.length ⟨ts, last.line, #[]⟩ with
  | error stop c => simp
  | ok statements c => simp [and_assoc]

/-- Two programs without a fault, one after the other: the tokens of both, with the end token of the second, are
read as the statements of both. The depth that was enough for each is enough for the whole. -/
theorem ofTokens_append {depth : Nat} {ts us : List Token} {last last' : Token} {A B : List Stmt}
    (inner : ∀ t ∈ ts, t.kind ≠ .endOfInput) (ends : last.kind = .endOfInput)
    (inner' : ∀ t ∈ us, t.kind ≠ .endOfInput) (ends' : last'.kind = .endOfInput)
    (first : ofTokens depth (ts ++ [last]) = some ⟨A, []⟩)
    (second : ofTokens depth (us ++ [last']) = some ⟨B, []⟩) (k : Int) :
    ofTokens depth (ts ++ (us ++ [last']).map (Token.moved k)) = some ⟨A ++ B.map (Stmt.moved k), []⟩ := by
  have transfers (J : Joint) (n : Nat) := J.declaration_transfers (Nat.le_refl depth) n false
  have advances := declaration_advances depth false
  have others : ∀ t ∈ (us.map (Token.moved k)).head?, ¬ Joint.continuing t.kind := by
    have derived : Grammar.Program .nearest us B := derives_of_ofTokens inner' ends' second rfl
    simp only [List.head?_map, Option.mem_def, Option.map_eq_some_iff]
    rintro _ ⟨t, head, rfl⟩ other
    have starts := derived.declarations_head t head
    rw [show t.kind = .elseWord from other] at starts
    cases starts
  obtain ⟨c, read, silent⟩ := (ofTokens_eq_some_iff inner ends).mp first
  obtain ⟨d, read', silent'⟩ := (ofTokens_eq_some_iff inner' ends').mp second
  have innerBoth : ∀ t ∈ ts ++ us.map (Token.moved k), t.kind ≠ .endOfInput := by
    simp only [List.mem_append, List.mem_map]
    rintro _ (listed | ⟨t, listed, rfl⟩)
    · exact inner _ listed
    · exact inner' t listed
  have endsBoth : (last'.moved k).kind = .endOfInput := ends'
  rw [List.map_append, List.map_singleton, ← List.append_assoc, ofTokens_eq_some_iff innerBoth endsBoth]
  -- the first program stays where it is and the second one comes behind it
  have start : Joint.Relates ⟨0, us.map (Token.moved k), [], False, False.elim⟩ ⟨ts, last.line, #[]⟩
      ⟨ts ++ us.map (Token.moved k), last'.line + k, #[]⟩ := by
    refine ⟨?_, False.elim, rfl⟩
    simp [List.map_id'' Token.moved_zero]
  obtain ⟨finished, c', left, related, line, enough, later⟩ :=
    Joint.declarationsUpTo_append (transfers _) advances
      (fun c o d read => (transfers (.whole 0) _).follows (Nat.le_refl _) read) others (Nat.le_refl _)
      (Nat.le_refl _) read (by simpa using silent) start
  have start' : (Joint.whole k).Relates ⟨us, last'.line, #[]⟩ c' := by
    refine ⟨?_, fun _ => line, ?_⟩
    · simpa [finished, Joint.whole] using related.rest
    · simpa [silent, Joint.whole] using related.reported
  have sent := Joint.declarationsUpTo_transfers none ((transfers _ _).weaken fun _ _ => trivial) advances
    (Nat.le_refl us.length) (by simpa [Joint.whole] using enough) _ _ (Nat.le_refl _) start'
  rw [read'] at sent
  obtain ⟨e, read₂, related₂⟩ := sent.2 (.inr (.inl trivial))
  refine ⟨e, ?_, ?_⟩
  · have joined := later _ e read₂
    rw [List.map_id'' Stmt.moved_zero] at joined
    rw [List.length_append]
    exact joined
  · simpa [silent', Joint.whole] using related₂.reported

/-- A source without a fault is scanned and read without one, and these two can be joined separately. -/
theorem ofSource_eq_some_iff {depth : Nat} {source : String} {A : List Stmt} :
    ofSource depth source = some ⟨A, []⟩ ↔ (Scan.ofSource source).faults = [] ∧
      ofTokens depth (Scan.ofSource source).tokens = some ⟨A, []⟩ := by
  simp only [ofSource, Option.map_eq_some_iff, mk.injEq, List.append_eq_nil_iff]
  constructor
  · rintro ⟨p, read, rfl, silent, none⟩
    exact ⟨silent, none ▸ read⟩
  · rintro ⟨silent, read⟩
    exact ⟨_, read, rfl, silent, rfl⟩

/-- Two sources without a fault, joined by a line feed, are read as the statements of the first and then
those of the second, moved down by the lines of the first. -/
theorem ofSource_append {depth : Nat} {a b : String} {A B : List Stmt}
    (first : ofSource depth a = some ⟨A, []⟩) (second : ofSource depth b = some ⟨B, []⟩) :
    ofSource depth (a ++ "\n" ++ b) =
      some ⟨A ++ B.map (Stmt.moved (Text.lineFeeds a.toList + 1 : Nat)), []⟩ := by
  obtain ⟨silent, read⟩ := ofSource_eq_some_iff.mp first
  obtain ⟨silent', read'⟩ := ofSource_eq_some_iff.mp second
  have joined : (a ++ "\n" ++ b).toList = a.toList ++ '\n' :: b.toList := by simp
  rw [ofSource_eq_some_iff, Scan.ofSource, joined]
  refine ⟨Scan.faults_append silent silent', ?_⟩
  rw [Scan.tokens_append silent, Scan.tokens_eq_words_append]
  rw [Scan.ofSource, Scan.tokens_eq_words_append] at read read'
  exact ofTokens_append Scan.kind_of_mem_words rfl Scan.kind_of_mem_words rfl read read' _

end Program

end Treewalk

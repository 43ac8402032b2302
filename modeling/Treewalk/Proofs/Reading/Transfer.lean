import Treewalk.Proofs.Reading.Progress
import Treewalk.Proofs.Tree.Moved

/-!
Reading the same tokens in another place: moved down by some lines, with more tokens behind them, after
other reports, and with a limit on depth that is no smaller. A reader does there what it did before, as
long as it does not get to the end of its tokens; and if it does get there, as long as it reports nothing
and would not read on into the tokens behind. `Joint.Transfers` says so of a reader, and has one law for
every way readers are put together.
-/

namespace Treewalk

/-- Another place to read tokens in. -/
structure Joint where
  /-- How many lines the tokens are moved down. -/
  shift : Int
  /-- The tokens that stand behind them. -/
  more : List Token
  /-- What was reported before. -/
  earlier : List Diagnostic
  /-- Whether the end of the tokens is moved with them. -/
  closed : Prop
  more_of_closed : closed → more = []

namespace Joint

open Parse

variable (J : Joint) {α β γ δ : Type}

/-- `c'` is `c` in the other place. -/
structure Relates (c c' : Cursor) : Prop where
  rest : c'.rest = c.rest.map (Token.moved J.shift) ++ J.more
  endLine : J.closed → c'.endLine = c.endLine + J.shift
  reported : c'.reported.toList = J.earlier ++ c.reported.toList.map (Diagnostic.moved J.shift)

/-- A cursor in the other place. -/
def image (c : Cursor) : Cursor :=
  ⟨c.rest.map (Token.moved J.shift) ++ J.more, c.endLine + J.shift,
    (J.earlier ++ c.reported.toList.map (Diagnostic.moved J.shift)).toArray⟩

/-- Every cursor has its image in the other place, so what transfers can be used from any cursor. -/
theorem relates_image (c : Cursor) : J.Relates c (J.image c) := ⟨rfl, fun _ => rfl, rfl⟩

/-- Reading from `c` to `d` did not depend on the end of the tokens: there are some left, or the end is
moved with them, or nothing was reported and the next one behind is of no kind in `S`. -/
def Bounded (S : TokenKind → Prop) (c d : Cursor) : Prop :=
  d.rest ≠ [] ∨ J.closed ∨ d.reported.size = c.reported.size ∧ ∀ t ∈ J.more.head?, ¬ S t.kind

/-- How the outcome of reading from `c` on corresponds to an outcome in the other place. -/
def Agrees (S : TokenKind → Prop) (f : α → β) (c : Cursor) : Outcome α → Outcome β → Prop
  | .ok a d, r => c.Follows d ∧ (J.Bounded S c d → ∃ d', r = .ok (f a) d' ∧ J.Relates d d')
  | .error .malformed d, r => c.Follows d ∧ c.reported.size < d.reported.size ∧
      (d.rest ≠ [] ∨ J.closed → ∃ d', r = .error .malformed d' ∧ J.Relates d d')
  | .error .tooDeep d, _ => c.Follows d

/-- With at most `n` tokens left, `p'` does in the other place what `p` does, results going by `f`. -/
def Transfers (S : TokenKind → Prop) (n : Nat) (f : α → β) (p : Parse α) (p' : Parse β) : Prop :=
  ∀ c c', c.rest.length ≤ n → J.Relates c c' → J.Agrees S f c (p c) (p' c')

variable {J} {S T : TokenKind → Prop} {n m : Nat} {f : α → β} {g : γ → δ} {p : Parse α} {p' : Parse β}
  {q : α → Parse γ} {q' : β → Parse δ} {c c' d e : Cursor}

/-- A reading that still has tokens later on had some before, so it did not depend on their end. -/
theorem bounded_of_left (later : d.Follows e) (left : e.rest ≠ [] ∨ J.closed) : J.Bounded S c d := by
  rcases left with some | none
  · refine .inl fun ended => some ?_
    have suffix := later.rest
    rw [ended] at suffix
    exact List.suffix_nil.mp suffix
  · exact .inr (.inl none)

/-- What is bounded up to a later cursor is bounded up to an earlier one: tokens that are left later were left
before, and what is silent as a whole is silent in its first part. -/
theorem Bounded.earlier (first : c.Follows d) (second : d.Follows e) (bounded : J.Bounded S c e) :
    J.Bounded S c d := by
  rcases bounded with some | none | ⟨silent, others⟩
  · exact bounded_of_left second (.inl some)
  · exact .inr (.inl none)
  · have before := first.size_le
    have after := second.size_le
    exact .inr (.inr ⟨by omega, others⟩)

/-- What is bounded from an earlier cursor on is bounded from a later one on, by the same counts of reports. -/
theorem Bounded.later (first : c.Follows d) (second : d.Follows e) (bounded : J.Bounded S c e) :
    J.Bounded S d e := by
  rcases bounded with some | none | ⟨silent, others⟩
  · exact .inl some
  · exact .inr (.inl none)
  · have before := first.size_le
    have after := second.size_le
    exact .inr (.inr ⟨by omega, others⟩)

/-- A reader that transfers with many tokens left does so with fewer. The bound on tokens serves loops, whose
turns are bounded by it. -/
theorem Transfers.mono (transfers : J.Transfers S n f p p') (fewer : m ≤ n) : J.Transfers S m f p p' :=
  fun c c' short related => transfers c c' (Nat.le_trans short fewer) related

/-- With more kinds in `S` there is less to show, since readings that would go on into a token of these kinds
need not be matched. -/
theorem Transfers.weaken (transfers : J.Transfers S n f p p') (wider : ∀ kind, S kind → T kind) :
    J.Transfers T n f p p' := by
  intro c c' short related
  have read := transfers c c' short related
  cases result : p c with
  | ok a d =>
      rw [result] at read
      refine ⟨read.1, fun bounded => read.2 ?_⟩
      rcases bounded with some | none | ⟨silent, others⟩
      · exact .inl some
      · exact .inr (.inl none)
      · exact .inr (.inr ⟨silent, fun t next inside => others t next (wider _ inside)⟩)
  | error stop d =>
      rw [result] at read
      cases stop <;> exact read

/-- Sequencing, in general: `reach` says that the first reader stays bounded when the whole does. -/
theorem Transfers.seq (first : J.Transfers T n f p p')
    (next : ∀ c a d, c.rest.length ≤ n → p c = .ok a d →
      J.Transfers S d.rest.length g (q a) (q' (f a)))
    (reach : ∀ c a d b e, c.Follows d → d.Follows e → q a d = .ok b e → J.Bounded S c e →
      J.Bounded T c d) : J.Transfers S n g (p >>= q) (p' >>= q') := by
  intro c c' short related
  rw [bind_apply, bind_apply]
  have started := first c c' short related
  cases computed : p c with
  | error stop d =>
      rw [computed] at started
      cases stop with
      | tooDeep => exact started
      | malformed =>
          obtain ⟨follows, grown, sent⟩ := started
          refine ⟨follows, grown, fun left => ?_⟩
          obtain ⟨d', same, related'⟩ := sent left
          rw [same]
          exact ⟨d', rfl, related'⟩
  | ok a d =>
      rw [computed] at started
      obtain ⟨follows, sent⟩ := started
      have continued := next c a d short computed
      have alone := continued d (J.image d) (Nat.le_refl _) (J.relates_image d)
      dsimp only
      cases result : q a d with
      | error stop e =>
          rw [result] at alone
          cases stop with
          | tooDeep => exact follows.trans alone
          | malformed =>
              refine ⟨follows.trans alone.1, Nat.lt_of_le_of_lt follows.size_le alone.2.1, fun left => ?_⟩
              obtain ⟨d', same, related'⟩ := sent (bounded_of_left alone.1 left)
              have there := continued d d' (Nat.le_refl _) related'
              rw [result] at there
              rw [same]
              exact there.2.2 left
      | ok b e =>
          rw [result] at alone
          refine ⟨follows.trans alone.1, fun bounded => ?_⟩
          obtain ⟨d', same, related'⟩ := sent (reach c a d b e follows alone.1 result bounded)
          have there := continued d d' (Nat.le_refl _) related'
          rw [result] at there
          rw [same]
          exact there.2 (bounded.later follows alone.1)

/-- A reader that transfers only reads tokens and only adds reports. -/
theorem Transfers.follows (transfers : J.Transfers S n f p p') {a : α} (short : c.rest.length ≤ n)
    (read : p c = .ok a d) : c.Follows d := by
  have agrees := transfers c (J.image c) short (J.relates_image c)
  rw [read] at agrees
  exact agrees.1

/-- Sequencing, where neither reader needs a token: a bound for the whole is one for each part. -/
theorem Transfers.bind (first : J.Transfers S n f p p') (next : ∀ a, J.Transfers S n g (q a) (q' (f a))) :
    J.Transfers S n g (p >>= q) (p' >>= q') := by
  apply first.seq
  · intro c a d short read
    exact (next a).mono (Nat.le_trans (first.follows short read).length_le short)
  · exact fun c a d b e follows later _ bounded => bounded.earlier follows later

/-- Every kind of token. -/
abbrev any : TokenKind → Prop := fun _ => True

/-- Sequencing with a reader that needs a token: the first one then never gets to the end, so it may depend on
what stands there in any way it likes. -/
theorem Transfers.before (first : J.Transfers any n f p p') (fails : ∀ a, Fails (q a))
    (next : ∀ a, J.Transfers S n g (q a) (q' (f a))) : J.Transfers S n g (p >>= q) (p' >>= q') := by
  apply first.seq
  · intro c a d short read
    exact (next a).mono (Nat.le_trans (first.follows short read).length_le short)
  · intro c a d b e _ _ read _
    exact .inl fun ended => fails a d b e ended read

/-- What needs a token needs one behind a reader too. -/
theorem Transfers.fails (first : J.Transfers S n f p p') (fails : ∀ a, Fails (q a)) : Fails (p >>= q) := by
  intro c b e ended read
  rw [bind_apply] at read
  cases computed : p c with
  | error stop d =>
      rw [computed] at read
      cases read
  | ok a d =>
      rw [computed] at read
      have suffix := (first.follows (by simp [ended]) computed).rest
      rw [ended] at suffix
      exact fails a d b e (List.suffix_nil.mp suffix) read

/-- A result can be given in either place, without a look at the tokens. -/
theorem Transfers.pure (f : α → β) (a : α) : J.Transfers S n f (Pure.pure a) (Pure.pure (f a)) :=
  fun c c' _ related => ⟨.refl c, fun _ => ⟨c', rfl, related⟩⟩

/-- Building trees commutes with moving them, so readers that build them transfer. -/
theorem Transfers.map {h : α → γ} {h' : β → δ} (transfers : J.Transfers S n f p p')
    (square : ∀ a, h' (f a) = g (h a)) : J.Transfers S n g (h <$> p) (h' <$> p') := by
  rw [map_eq_pure_bind, map_eq_pure_bind]
  apply transfers.bind
  intro a
  rw [square]
  exact .pure g (h a)

/-- When the depth runs out in the first place, nothing is said of the other one, where it may last longer. -/
theorem tooDeep_transfers {r : Parse β} : J.Transfers S n f (tooDeep : Parse α) r :=
  fun c _ _ _ => Cursor.Follows.refl c

/-! ### Reports -/

/-- A report in the first place is the same report, moved, in the other one. -/
theorem Relates.report (related : J.Relates c c') (diagnostic : Diagnostic) :
    J.Relates (c.report diagnostic) (c'.report (diagnostic.moved J.shift)) :=
  ⟨related.rest, related.endLine, by simp [Cursor.report, related.reported]⟩

/-- The fault at the next token is moved with that token. At the end of the tokens this needs the end to be
moved too, since otherwise the report would be about what stands behind. -/
theorem faultHere_moved (related : J.Relates c c') (left : c.rest ≠ [] ∨ J.closed)
    (fault : SyntaxFault) : c'.faultHere fault = (c.faultHere fault).moved J.shift := by
  have rest := related.rest
  cases found : c.rest with
  | nil =>
      have none : J.closed := left.resolve_left (· found)
      rw [found, J.more_of_closed none] at rest
      have rest : c'.rest = [] := rest
      simp only [Cursor.faultHere, found, rest, related.endLine none]
      rfl
  | cons t more =>
      rw [found, List.map_cons, List.cons_append] at rest
      simp only [Cursor.faultHere, found, rest, Diagnostic.moved_atToken]

/-- Unwinding with a report transfers, as far as the report does. -/
theorem fail_transfers (fault : SyntaxFault) : J.Transfers S n f (fail fault) (fail fault) := by
  intro c c' _ related
  refine ⟨c.follows_report _, by simp [Cursor.report], fun left => ?_⟩
  refine ⟨_, rfl, ?_⟩
  rw [faultHere_moved related left]
  exact related.report _

theorem report_transfers (t : Token) (fault : SyntaxFault) :
    J.Transfers S n id (report t fault) (report (t.moved J.shift) fault) := by
  intro c c' _ related
  refine ⟨c.follows_report _, fun _ => ⟨_, rfl, ?_⟩⟩
  rw [← Diagnostic.moved_atToken]
  exact related.report _

/-- A report at the next token transfers unless it is made at the end of the tokens. -/
theorem reportHere_transfers (fault : SyntaxFault) :
    J.Transfers S n id (reportHere fault) (reportHere fault) := by
  intro c c' _ related
  refine ⟨c.follows_report _, fun bounded => ⟨_, rfl, ?_⟩⟩
  have left : c.rest ≠ [] ∨ J.closed := by
    rcases bounded with some | none | ⟨silent, -⟩
    · exact .inl some
    · exact .inr none
    · simp [Cursor.report] at silent
  rw [faultHere_moved related left]
  exact related.report _

theorem reportIf_transfers (wrong : Bool) {reporting reporting' : Parse Unit}
    (transfers : J.Transfers S n id reporting reporting') :
    J.Transfers S n id (reportIf wrong reporting) (reportIf wrong reporting') := by
  cases wrong with
  | false => exact .pure id ()
  | true => exact transfers

/-! ### Looking at tokens -/

/-- Taking the next token leaves related cursors, and the token in the other place is the same one, moved. -/
theorem Relates.tail (related : J.Relates c c') {t : Token} {rest : List Token} (found : c.rest = t :: rest) :
    c'.rest = t.moved J.shift :: (rest.map (Token.moved J.shift) ++ J.more) ∧
      J.Relates { c with rest := rest }
        { c' with rest := rest.map (Token.moved J.shift) ++ J.more } := by
  refine ⟨?_, rfl, related.endLine, related.reported⟩
  rw [related.rest, found]
  rfl

/-- Taking a token first: what agrees from behind a token on agrees from the token on. -/
theorem Agrees.behind {rest : List Token} {r : Outcome α} {r' : Outcome β} (later : rest <:+ c.rest)
    (agrees : J.Agrees S f { c with rest := rest } r r') : J.Agrees S f c r r' := by
  have follows : c.Follows { c with rest := rest } := ⟨later, rfl, List.prefix_refl _⟩
  cases r with
  | ok a d => exact ⟨follows.trans agrees.1, agrees.2⟩
  | error stop d =>
      cases stop with
      | malformed => exact ⟨follows.trans agrees.1, agrees.2⟩
      | tooDeep => exact follows.trans agrees

/-- Reading an optional token. At the end of the tokens it must not be one of those behind, or what is
read without it needs a token. -/
theorem Transfers.accept? {kinds : List TokenKind} {r : Option Token → Parse γ} {r' : Option Token → Parse δ}
    (stops : (∀ kind ∈ kinds, S kind) ∨ Fails (r none)) (without : J.Transfers S n g (r none) (r' none))
    (accepted : ∀ t m, t.kind ∈ kinds → m + 1 ≤ n →
      J.Transfers S m g (r (some t)) (r' (some (t.moved J.shift)))) :
    J.Transfers S n g (accept? kinds >>= r) (accept? kinds >>= r') := by
  intro c c' short related
  rw [bind_apply, bind_apply]
  cases found : c.rest with
  | cons t rest =>
      obtain ⟨found', related'⟩ := related.tail found
      rw [accept?_cons found, accept?_cons found', Token.kind_moved]
      by_cases listed : t.kind ∈ kinds
      · rw [if_pos listed, if_pos listed]
        have fewer : rest.length + 1 ≤ n := by simpa [found] using short
        exact (accepted t rest.length listed fewer _ _ (Nat.le_refl _) related').behind
          (found ▸ List.suffix_cons t rest)
      · rw [if_neg listed, if_neg listed]
        exact without c c' short related
  | nil =>
      rw [accept?_nil found]
      have found' : c'.rest = J.more := by simpa [found] using related.rest
      cases behind : J.more with
      | nil =>
          rw [accept?_nil (found'.trans behind)]
          exact without c c' short related
      | cons t more =>
          rw [accept?_cons (found'.trans behind)]
          by_cases listed : t.kind ∈ kinds
          · rw [if_pos listed]
            -- the token behind would be read; so nothing is to be shown
            have alone := without c (J.image c) short (J.relates_image c)
            have ended {d : Cursor} (follows : c.Follows d) : ¬ (d.rest ≠ [] ∨ J.closed) := by
              have suffix := follows.rest
              rw [found] at suffix
              rintro (some | closed)
              · exact some (List.suffix_nil.mp suffix)
              · simp [J.more_of_closed closed] at behind
            dsimp only
            cases result : r none c with
            | error stop d =>
                rw [result] at alone
                cases stop with
                | tooDeep => exact alone
                | malformed => exact ⟨alone.1, alone.2.1, fun left => absurd left (ended alone.1)⟩
            | ok a d =>
                rw [result] at alone
                refine ⟨alone.1, fun bounded => ?_⟩
                rcases bounded with some | none | ⟨-, others⟩
                · exact absurd (.inl some) (ended alone.1)
                · exact absurd (.inr none) (ended alone.1)
                · rcases stops with every | fails
                  · exact absurd (every _ listed) (others t (by simp [behind]))
                  · exact absurd result (fails c a d found)
          · rw [if_neg listed]
            exact without c c' short related

/-- A token that is needed is found in both places, or missed in both with one report. -/
theorem expect_transfers (kind : TokenKind) (fault : SyntaxFault) :
    J.Transfers S n (Token.moved J.shift) (expect kind fault) (expect kind fault) :=
  .accept? (.inr (fail_takes fault).fails) (fail_transfers fault) fun t _ _ _ => .pure _ t

/-- Readers go on after the token that they need. At the end of the tokens the fault is about that end, and
nothing is said of the other place. -/
theorem Transfers.expect {kind : TokenKind} {fault : SyntaxFault} {r : Token → Parse γ} {r' : Token → Parse δ}
    (next : ∀ t, J.Transfers S n g (r t) (r' (t.moved J.shift))) :
    J.Transfers S n g (expect kind fault >>= r) (expect kind fault >>= r') :=
  (expect_transfers kind fault).bind next

/-- What stands before a needed token does not get to the end, or else the token is missing and the
whole unwinds. -/
theorem Transfers.beforeSign {kind : TokenKind} {fault : SyntaxFault} {r : α → Token → Parse γ}
    {r' : β → Token → Parse δ} (first : J.Transfers any n f p p')
    (next : ∀ a t, J.Transfers S n g (r a t) (r' (f a) (t.moved J.shift))) :
    J.Transfers S n g (p >>= fun a => Parse.expect kind fault >>= r a)
      (p' >>= fun b => Parse.expect kind fault >>= r' b) :=
  first.before (fun _ => (expect_takes kind fault).fails.bind) fun a => .expect (next a)

/-- A reading that gets to the end of its tokens and is bounded for all kinds has nothing behind it. -/
theorem Bounded.more_eq_nil (bounded : J.Bounded any c d) (ended : d.rest = []) : J.more = [] := by
  rcases bounded with some | none | ⟨-, others⟩
  · exact absurd ended some
  · exact J.more_of_closed none
  · cases behind : J.more with
    | nil => rfl
    | cons t more => exact absurd trivial (others t (by simp [behind]))

/-- Looking at the next token gives the same answer in both places, unless that token stands behind the end. -/
theorem nextIs_transfers (kind : TokenKind) : J.Transfers any n id (nextIs kind) (nextIs kind) := by
  intro c c' _ related
  have rest := related.rest
  cases found : c.rest with
  | cons t more =>
      rw [found, List.map_cons, List.cons_append] at rest
      simp only [nextIs, found, rest, Token.kind_moved]
      exact ⟨.refl c, fun _ => ⟨c', rfl, related⟩⟩
  | nil =>
      simp only [nextIs, found]
      refine ⟨.refl c, fun bounded => ?_⟩
      rw [found, bounded.more_eq_nil found] at rest
      have rest : c'.rest = [] := rest
      simp only [rest]
      exact ⟨c', rfl, related⟩

/-- An optional part is read in both places or in neither, as long as the look ahead is at a token of
their own. -/
theorem unlessNext_transfers (stop : TokenKind) (transfers : J.Transfers any n f p p') :
    J.Transfers any n (Option.map f) (unlessNext stop p) (unlessNext stop p') := by
  apply (nextIs_transfers stop).bind
  intro found
  cases found with
  | true => exact .pure _ none
  | false => exact transfers.map fun a => rfl

/-- A part behind a sign is read in both places or in neither, provided that the tokens behind do not begin with
the sign. -/
theorem afterSign_transfers {kind : TokenKind} (listed : S kind) (transfers : J.Transfers S n f p p') :
    J.Transfers S n (Option.map f) (afterSign kind p) (afterSign kind p') := by
  apply Transfers.accept? (.inl (by simpa using listed)) (.pure _ none)
  intro t m _ fewer
  exact (transfers.mono (Nat.le_of_succ_le fewer)).map fun a => rfl

/-- How many tokens are left in the other place: those of this one and the ones behind. Loops take their number
of turns from it, so the two places have different bounds. -/
theorem Transfers.remaining {r : Nat → Parse γ} {r' : Nat → Parse δ}
    (next : ∀ m, m ≤ n → J.Transfers S m g (r m) (r' (m + J.more.length))) :
    J.Transfers S n g (remaining >>= r) (remaining >>= r') := by
  intro c c' short related
  have lengths : c'.rest.length = c.rest.length + J.more.length := by simp [related.rest]
  have read := next c.rest.length short c c' (Nat.le_refl _) related
  rw [← lengths] at read
  exact read

/-- Skipping stops at the same token in both places, as long as it stops before the end of the tokens. -/
theorem skipAfter_moved (last : TokenKind) (ts : List Token)
    (left : Cursor.skipAfter last ts ≠ [] ∨ J.closed) :
    Cursor.skipAfter last (ts.map (Token.moved J.shift) ++ J.more) =
      (Cursor.skipAfter last ts).map (Token.moved J.shift) ++ J.more := by
  induction ts generalizing last with
  | nil =>
      have none : J.closed := left.resolve_left (by simp [Cursor.skipAfter])
      simp [J.more_of_closed none, Cursor.skipAfter]
  | cons t rest ih =>
      rw [Cursor.skipAfter] at left ⊢
      by_cases stop : last = .semicolon ∨ Cursor.startsStatement t.kind
      · have stop' : last = .semicolon ∨ Cursor.startsStatement (t.moved J.shift).kind := stop
        rw [if_pos stop, List.map_cons, List.cons_append, Cursor.skipAfter, if_pos stop']
      · have stop' : ¬ (last = .semicolon ∨ Cursor.startsStatement (t.moved J.shift).kind) := stop
        rw [if_neg stop] at left ⊢
        rw [List.map_cons, List.cons_append, Cursor.skipAfter, if_neg stop', Token.kind_moved, ih t.kind left]

/-- Skipping to the next statement leaves related cursors, as long as there is a next statement. Otherwise
skipping would go on into the tokens behind. -/
theorem Relates.synchronize (related : J.Relates c c') (left : c.synchronize.rest ≠ [] ∨ J.closed) :
    J.Relates c.synchronize c'.synchronize := by
  have rest := related.rest
  unfold Cursor.synchronize at left ⊢
  cases found : c.rest with
  | nil =>
      have none : J.closed := by simpa [found] using left
      rw [found, J.more_of_closed none] at rest
      have rest : c'.rest = [] := rest
      simpa [rest] using related
  | cons t more =>
      rw [found, List.map_cons, List.cons_append] at rest
      simp only [found] at left
      simp only [rest]
      exact ⟨skipAfter_moved t.kind more left, related.endLine, related.reported⟩

/-- A declaration is read in both places, or skipped in both to related cursors. -/
theorem recovering_transfers (transfers : J.Transfers S n f p p') :
    J.Transfers S n (Option.map f) (recovering p) (recovering p') := by
  intro c c' short related
  have read := transfers c c' short related
  unfold recovering
  cases result : p c with
  | ok a d =>
      rw [result] at read
      refine ⟨read.1, fun bounded => ?_⟩
      obtain ⟨d', same, related'⟩ := read.2 bounded
      rw [same]
      exact ⟨d', rfl, related'⟩
  | error stop d =>
      rw [result] at read
      cases stop with
      | tooDeep => exact read
      | malformed =>
          obtain ⟨follows, grown, sent⟩ := read
          have later := d.follows_synchronize
          refine ⟨follows.trans later, fun bounded => ?_⟩
          have left : d.synchronize.rest ≠ [] ∨ J.closed := by
            rcases bounded with some | none | ⟨silent, -⟩
            · exact .inl some
            · exact .inr none
            · have more := later.size_le
              omega
          have leftBefore : d.rest ≠ [] ∨ J.closed := by
            rcases left with some | none
            · refine .inl fun ended => some ?_
              simp [Cursor.synchronize, ended]
            · exact .inr none
          obtain ⟨d', same, related'⟩ := sent leftBefore
          rw [same]
          exact ⟨_, rfl, related'.synchronize left⟩

/-- Readers that read nothing when there is nothing to read. Loops are such readers, and this is where their
inductions begin. -/
theorem transfers_of_ended {a : α} (ended : ∀ c, c.rest = [] → p c = .ok a c)
    (ended' : ∀ c, c.rest = [] → p' c = .ok (f a) c) : J.Transfers any 0 f p p' := by
  intro c c' short related
  have none : c.rest = [] := List.length_eq_zero_iff.mp (Nat.le_zero.mp short)
  rw [ended c none]
  refine ⟨.refl c, fun bounded => ⟨c', ended' c' ?_, related⟩⟩
  simp [related.rest, none, bounded.more_eq_nil none]

/-! ### Lists in parentheses -/

/-- Lists of items transfer, for any two bounds on turns that are large enough in their places. By induction
over the first bound. -/
theorem itemsFrom_transfers (excess : SyntaxFault) (transfers : J.Transfers any n f p p')
    {fuel fuel' : Nat} (count : Nat) (enough : n + 1 ≤ fuel) (enough' : n + J.more.length + 1 ≤ fuel') :
    J.Transfers any n (List.map f) (itemsFrom excess p fuel count) (itemsFrom excess p' fuel' count) := by
  induction fuel generalizing n fuel' count with
  | zero => omega
  | succ fuel ih =>
      obtain ⟨fuel', rfl⟩ : ∃ k, fuel' = k + 1 := ⟨fuel' - 1, by omega⟩
      apply (reportIf_transfers _ (reportHere_transfers excess)).bind
      intro _
      apply transfers.bind
      intro first
      apply Transfers.accept? (.inl (by simp)) (.pure _ [first])
      intro comma m _ fewer
      apply (ih (transfers.mono (by omega)) (count + 1) (by omega) (by omega)).bind
      intro more
      exact .pure _ (first :: more)

/-- A list up to its closing parenthesis needs that token, so it never depends on the end. -/
theorem items_transfers (excess unclosed : SyntaxFault) (transfers : J.Transfers any n f p p') :
    J.Transfers S n (List.map f) (items excess unclosed p) (items excess unclosed p') := by
  apply Transfers.remaining
  intro m fewer
  have listed := itemsFrom_transfers excess (transfers.mono fewer) 0 (Nat.le_refl (m + 1))
    (Nat.le_refl (m + J.more.length + 1))
  apply Transfers.beforeSign (unlessNext_transfers .rightParen listed)
  intro found _
  cases found with
  | none => exact .pure _ []
  | some as => exact .pure _ as

/-! ### Expressions -/

section Expressions

variable {operand operand' : Parse Expr}

theorem chain_ended {ops : List TokenKind} {join : Expr → Token → Expr → Expr} (fuel : Nat) (left : Expr)
    (ended : c.rest = []) : chain ops join operand fuel left c = .ok left c := by
  cases fuel with
  | zero => rfl
  | succ fuel =>
      rw [chain, bind_apply, accept?_nil ended]
      rfl

/-- Operands and operators of one level transfer turn by turn, and the trees built so far are moved copies of
each other. -/
theorem chain_transfers {ops : List TokenKind} {join : Expr → Token → Expr → Expr}
    (joined : ∀ left op right, (join left op right).moved J.shift =
      join (left.moved J.shift) (op.moved J.shift) (right.moved J.shift))
    (transfers : J.Transfers any n (Expr.moved J.shift) operand operand') {fuel fuel' : Nat} (left : Expr)
    (enough : n ≤ fuel) (enough' : n + J.more.length ≤ fuel') :
    J.Transfers any n (Expr.moved J.shift) (chain ops join operand fuel left)
      (chain ops join operand' fuel' (left.moved J.shift)) := by
  induction fuel generalizing n fuel' left with
  | zero =>
      obtain rfl : n = 0 := by omega
      exact transfers_of_ended (fun _ => chain_ended 0 left) fun _ => chain_ended fuel' _
  | succ fuel ih =>
      cases n with
      | zero => exact transfers_of_ended (fun _ => chain_ended _ left) fun _ => chain_ended fuel' _
      | succ n =>
          obtain ⟨fuel', rfl⟩ : ∃ k, fuel' = k + 1 := ⟨fuel' - 1, by omega⟩
          apply Transfers.accept? (.inl fun _ _ => trivial) (.pure _ left)
          intro op m _ fewer
          apply (transfers.mono (by omega)).bind
          intro right
          rw [← joined]
          exact ih (transfers.mono (by omega)) (join left op right) (by omega) (by omega)

/-- A level of operators transfers when its operands do, since joining trees commutes with moving them. -/
theorem leftAssoc_transfers {ops : List TokenKind} {join : Expr → Token → Expr → Expr}
    (joined : ∀ left op right, (join left op right).moved J.shift =
      join (left.moved J.shift) (op.moved J.shift) (right.moved J.shift))
    (transfers : J.Transfers any n (Expr.moved J.shift) operand operand') :
    J.Transfers any n (Expr.moved J.shift) (leftAssoc ops join operand) (leftAssoc ops join operand') := by
  apply transfers.bind
  intro first
  apply Transfers.remaining
  intro m fewer
  exact chain_transfers joined (transfers.mono fewer) first (Nat.le_refl _) (Nat.le_refl _)

theorem calls_ended (fuel : Nat) (callee : Expr) (ended : c.rest = []) :
    calls operand fuel callee c = .ok callee c := by
  cases fuel with
  | zero => rfl
  | succ fuel =>
      rw [calls, bind_apply, accept?_nil ended]
      rfl

/-- Calls in a row transfer turn by turn, for any two bounds on turns that are large enough in their places. By
induction over the first bound. -/
theorem calls_transfers (transfers : J.Transfers any n (Expr.moved J.shift) operand operand')
    {fuel fuel' : Nat} (callee : Expr) (enough : n ≤ fuel) (enough' : n + J.more.length ≤ fuel') :
    J.Transfers any n (Expr.moved J.shift) (calls operand fuel callee)
      (calls operand' fuel' (callee.moved J.shift)) := by
  induction fuel generalizing n fuel' callee with
  | zero =>
      obtain rfl : n = 0 := by omega
      exact transfers_of_ended (fun _ => calls_ended 0 callee) fun _ => calls_ended fuel' _
  | succ fuel ih =>
      cases n with
      | zero => exact transfers_of_ended (fun _ => calls_ended _ callee) fun _ => calls_ended fuel' _
      | succ n =>
          obtain ⟨fuel', rfl⟩ : ∃ k, fuel' = k + 1 := ⟨fuel' - 1, by omega⟩
          apply Transfers.accept? (.inl fun _ _ => trivial) (.pure _ callee)
          intro paren m _ fewer
          apply (items_transfers _ _ (transfers.mono (by omega))).bind
          intro args
          rw [← Expr.moved_call]
          exact ih (transfers.mono (by omega)) (.call callee paren args) (by omega) (by omega)

/-- Literals, names and groupings transfer; a grouping needs its closing parenthesis. -/
theorem primary_transfers (transfers : J.Transfers any n (Expr.moved J.shift) operand operand') :
    J.Transfers any n (Expr.moved J.shift) (primary operand) (primary operand') := by
  apply Transfers.accept? (.inl fun _ _ => trivial) (fail_transfers _)
  intro t m _ fewer
  dsimp only [Token.kind_moved]
  split
  · exact .pure _ (Expr.literal (.bool false))
  · exact .pure _ (Expr.literal (.bool true))
  · exact .pure _ (Expr.literal .nil)
  · exact .pure _ (Expr.variable t)
  · apply Transfers.beforeSign (transfers.mono (by omega))
    intro e _
    exact .pure _ (Expr.grouping e)
  · exact .pure _ (Expr.literal t.literal)

/-- Whether a target can be assigned to does not depend on its lines, so it is reported in both places or
in neither. -/
theorem assignTo_transfers (target value : Expr) (sign : Token) :
    J.Transfers S n (Expr.moved J.shift) (assignTo target sign value)
      (assignTo (target.moved J.shift) (sign.moved J.shift) (value.moved J.shift)) := by
  have reported : J.Transfers S n (Expr.moved J.shift)
      (report sign .assignmentTarget >>= fun _ => (Pure.pure value : Parse Expr))
      (report (sign.moved J.shift) .assignmentTarget >>= fun _ => Pure.pure (value.moved J.shift)) :=
    (report_transfers sign _).bind fun _ => .pure _ value
  cases target with
  | «variable» name => exact .pure _ (Expr.assign name value)
  | misplaced found => cases found <;> exact reported
  | literal | grouping | unary | binary | logical | ternary | assign | call => exact reported

/-- **Expressions transfer.** On every level they are read alike in any place whose limit on depth is no
smaller. By induction over the depth. -/
theorem expression_transfers {depth depth' : Nat} (enough : depth ≤ depth') (n : Nat) (l : Level) :
    J.Transfers any n (Expr.moved J.shift) (expression depth l) (expression depth' l) := by
  induction depth generalizing depth' n l with
  | zero => exact tooDeep_transfers
  | succ depth ih =>
      obtain ⟨depth', rfl⟩ : ∃ k, depth' = k + 1 := ⟨depth' - 1, by omega⟩
      have inner (k : Level) (m : Nat) := ih (Nat.le_of_succ_le_succ enough) m k
      cases l with
      | assignment =>
          apply (inner .disjunction n).bind
          intro target
          apply Transfers.accept? (.inl fun _ _ => trivial) (.pure _ target)
          intro sign m _ _
          apply (inner .assignment m).bind
          intro value
          exact assignTo_transfers target value sign
      | ternary =>
          apply (inner .equality n).bind
          intro condition
          apply Transfers.accept? (.inl fun _ _ => trivial) (.pure _ condition)
          intro question m _ _
          apply Transfers.beforeSign (inner .assignment m)
          intro yes _
          apply (inner .ternary m).bind
          intro no
          exact .pure _ (Expr.ternary condition yes no)
      | disjunction => exact leftAssoc_transfers (fun _ _ _ => rfl) (inner .conjunction n)
      | conjunction => exact leftAssoc_transfers (fun _ _ _ => rfl) (inner .ternary n)
      | equality => exact leftAssoc_transfers (fun _ _ _ => rfl) (inner .comparison n)
      | comparison => exact leftAssoc_transfers (fun _ _ _ => rfl) (inner .sum n)
      | sum => exact leftAssoc_transfers (fun _ _ _ => rfl) (inner .product n)
      | product => exact leftAssoc_transfers (fun _ _ _ => rfl) (inner .unary n)
      | unary =>
          apply Transfers.accept? (.inl fun _ _ => trivial) (inner .call n)
          intro op m _ _
          apply (inner .unary m).bind
          intro operand
          exact .pure _ (Expr.unary op operand)
      | call =>
          apply (inner .primary n).bind
          intro callee
          apply Transfers.remaining
          intro m _
          exact calls_transfers (inner .assignment m) callee (Nat.le_refl _) (Nat.le_refl _)
      | primary => exact primary_transfers (inner .assignment n)

end Expressions

end Joint

end Treewalk

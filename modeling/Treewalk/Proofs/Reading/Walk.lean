import Treewalk.Proofs.Reading.Recovery

/-!
Reading by position. A cursor has only the tokens that are still to be read. A reader can also keep the
whole list and the position of the current token in it, and look tokens up: the current one, and the one
before it. Then it could look for a token where there is none, which is an outcome of its own here.

A reader taken apart into its single steps (`Reader`) can be run either way. On a list with an end token the
two ways agree, nothing is looked for outside the list, and the position never goes back and never passes
the first end token.
-/

namespace Treewalk

namespace Parse

/-- One turn of a loop over declarations, if there is one: none is left at the end of the input and before
a token of kind `stop`. -/
def turn {α : Type} (stop : Option TokenKind) (p : Parse α) : Parse (Option (Option α)) := fun c =>
  if c.rest.head?.map Token.kind ∈ [none, stop] then .ok none c
  else (do return some (← recovering p) : Parse (Option (Option α))) c

end Parse

/-- What readers are made of. -/
inductive Reader : Type → Type 1 where
  | pure {α : Type} (a : α) : Reader α
  | bind {α β : Type} (r : Reader α) (q : α → Reader β) : Reader β
  | tooDeep {α : Type} : Reader α
  | fail {α : Type} (fault : SyntaxFault) : Reader α
  | report (t : Token) (fault : SyntaxFault) : Reader Unit
  | reportHere (fault : SyntaxFault) : Reader Unit
  | accept? (kinds : List TokenKind) : Reader (Option Token)
  | nextIs (kind : TokenKind) : Reader Bool
  | remaining : Reader Nat
  | turn {α : Type} (stop : Option TokenKind) (r : Reader α) : Reader (Option (Option α))

/-- Takes the steps from a cursor on. -/
def Reader.read {α : Type} : Reader α → Parse α
  | .pure a => Pure.pure a
  | .bind r q => r.read >>= fun a => (q a).read
  | .tooDeep => Parse.tooDeep
  | .fail fault => Parse.fail fault
  | .report t fault => Parse.report t fault
  | .reportHere fault => Parse.reportHere fault
  | .accept? kinds => Parse.accept? kinds
  | .nextIs kind => Parse.nextIs kind
  | .remaining => Parse.remaining
  | .turn stop r => Parse.turn stop r.read

/-- Where a reader stands that keeps the whole list. -/
structure Spot where
  current : Nat
  reported : Array Diagnostic
  /-- Where it stood each time it looked at a token, the latest first. -/
  trail : List Nat

/-- Why walking over the list gives no result. -/
inductive Upset where
  | unwind (why : Unwind)
  /-- It looked for a token where there is none. -/
  | outside
  /-- It skipped tokens for more turns than there are tokens. -/
  | endless

abbrev Walk := EStateM Upset Spot

/-- The position of the first end token. -/
def endPosition (tokens : List Token) : Nat := tokens.findIdx fun t => t.kind == .endOfInput

namespace Spot

def start : Spot := ⟨0, #[], []⟩

def looked (s : Spot) : Spot := { s with trail := s.current :: s.trail }

def advanced (s : Spot) : Spot := { s with current := s.current + 1 }

def report (s : Spot) (d : Diagnostic) : Spot := { s with reported := s.reported.push d }

end Spot

namespace Walk

variable (tokens : List Token) {α : Type}

/-- Looks at the token `back` places before the current one. -/
def look (back : Nat) : Walk Token := fun s =>
  match tokens[s.current - back]? with
  | some t => if back ≤ s.current then .ok t s.looked else .error .outside s.looked
  | none => .error .outside s.looked

def peek : Walk Token := look tokens 0

def previous : Walk Token := look tokens 1

def atEnd : Walk Bool := do return (← peek tokens).kind == .endOfInput

def check (kind : TokenKind) : Walk Bool := do
  if ← atEnd tokens then return false else return (← peek tokens).kind == kind

def checkAny : List TokenKind → Walk Bool
  | [] => return false
  | kind :: kinds => do if ← check tokens kind then return true else checkAny kinds

/-- Goes on by one token, but not past the end, and looks at the token before. -/
def advance : Walk Token := do
  if ← atEnd tokens then previous tokens
  else
    modify Spot.advanced
    previous tokens

def accept? (kinds : List TokenKind) : Walk (Option Token) := do
  if ← checkAny tokens kinds then return some (← advance tokens) else return none

def report (t : Token) (fault : SyntaxFault) : Walk Unit := modify (Spot.report · (.atToken t fault.message))

def reportHere (fault : SyntaxFault) : Walk Unit := do report (← peek tokens) fault

def fail (fault : SyntaxFault) : Walk α := do
  reportHere tokens fault
  throw (.unwind .malformed)

def remaining : Walk Nat := do return endPosition tokens - (← get).current

/-- Goes on to the probable start of a statement. -/
def skip : Nat → Walk Unit
  | 0 => throw .endless
  | turns + 1 => do
    if ← atEnd tokens then return ()
    else if (← previous tokens).kind = .semicolon then return ()
    else if Cursor.startsStatement (← peek tokens).kind then return ()
    else
      let _ ← advance tokens
      skip turns

def synchronize : Walk Unit := do
  let _ ← advance tokens
  skip tokens tokens.length

def recovering (w : Walk α) : Walk (Option α) := fun s =>
  match w s with
  | .ok a s' => .ok (some a) s'
  | .error (.unwind .malformed) s' => (do synchronize tokens; return none : Walk (Option α)) s'
  | .error upset s' => .error upset s'

/-- Whether a loop over declarations ends here. -/
def finished (stop : Option TokenKind) : Walk Bool :=
  match stop with
  | none => atEnd tokens
  | some kind => do if ← check tokens kind then return true else atEnd tokens

def turn (stop : Option TokenKind) (w : Walk α) : Walk (Option (Option α)) := do
  if ← finished tokens stop then return none else return some (← recovering tokens w)

end Walk

/-- Takes the steps over the whole list. -/
def Reader.walk (tokens : List Token) {α : Type} : Reader α → Walk α
  | .pure a => Pure.pure a
  | .bind r q => r.walk tokens >>= fun a => (q a).walk tokens
  | .tooDeep => throw (.unwind .tooDeep)
  | .fail fault => Walk.fail tokens fault
  | .report t fault => Walk.report t fault
  | .reportHere fault => Walk.reportHere tokens fault
  | .accept? kinds => Walk.accept? tokens kinds
  | .nextIs kind => Walk.check tokens kind
  | .remaining => Walk.remaining tokens
  | .turn stop r => Walk.turn tokens stop (r.walk tokens)

/-- `ts` are the tokens before the first end token, which is `last`. -/
structure Ended (tokens ts : List Token) (last : Token) : Prop where
  split : ∃ more, tokens = ts ++ last :: more
  inner : ∀ t ∈ ts, t.kind ≠ .endOfInput
  ends : last.kind = .endOfInput

namespace Ended

variable {tokens ts : List Token} {last : Token}

/-- A list with an end token in it has a first one, and the tokens before that one. -/
theorem exists_of_mem {t : Token} (listed : t ∈ tokens) (ends : t.kind = .endOfInput) :
    ∃ ts last, Ended tokens ts last := by
  have found : (tokens.find? fun t => t.kind == .endOfInput).isSome := by
    rw [List.find?_isSome]
    exact ⟨t, listed, by simp [ends]⟩
  obtain ⟨last, first⟩ := Option.isSome_iff_exists.mp found
  obtain ⟨kind, ts, more, split, others⟩ := List.find?_eq_some_iff_append.mp first
  exact ⟨ts, last, ⟨more, split⟩, by simpa using others, by simpa using kind⟩

/-- The position of the first end token is the number of tokens before it, which is where a cursor finds no
token left. -/
theorem endPosition_eq (ended : Ended tokens ts last) : endPosition tokens = ts.length := by
  obtain ⟨more, rfl⟩ := ended.split
  unfold endPosition
  rw [List.findIdx_append, List.findIdx_eq_length_of_false (by simpa using ended.inner)]
  simp [List.findIdx_cons, ended.ends]

/-- Reading from a cursor starts at the tokens before the first end token. -/
theorem cursor_eq (ended : Ended tokens ts last) : Program.cursor tokens = ⟨ts, last.line, #[]⟩ := by
  obtain ⟨more, rfl⟩ := ended.split
  exact Program.cursor_append ended.inner ended.ends more

/-- Up to the first end token, looking up a token by its position finds one. It is the next one that is left, or
the end token itself. -/
theorem getElem?_eq (ended : Ended tokens ts last) {i : Nat} (bound : i ≤ ts.length) :
    tokens[i]? = some ((ts.drop i).headD last) := by
  obtain ⟨more, rfl⟩ := ended.split
  rcases Nat.lt_or_eq_of_le bound with before | rfl
  · rw [List.getElem?_append_left before, List.drop_eq_getElem_cons before]
    simp [before]
  · simp

end Ended

/-- The spot of a cursor, with what is known of the way there. -/
structure At (ts : List Token) (last : Token) (c : Cursor) (s : Spot) : Prop where
  rest : c.rest = ts.drop s.current
  bound : s.current ≤ ts.length
  endLine : c.endLine = last.line
  reported : c.reported = s.reported
  rising : s.trail.Pairwise (· ≥ ·)
  passed : ∀ i ∈ s.trail, i ≤ s.current

namespace At

variable {ts : List Token} {last : Token} {c : Cursor} {s : Spot}

/-- The tokens that are left and the position make up all tokens, so the bounds of both ways of reading are
the same. -/
theorem length_rest (here : At ts last c s) : c.rest.length + s.current = ts.length := by
  have bound := here.bound
  rw [here.rest, List.length_drop]
  omega

/-- The token at the position is the first one that is left. -/
theorem getElem?_current (here : At ts last c s) {t : Token} {rest : List Token}
    (found : c.rest = t :: rest) : ts[s.current]? = some t := by
  rw [← List.head?_drop, ← here.rest, found]
  rfl

theorem looked (here : At ts last c s) : At ts last c s.looked := by
  constructor
  · exact here.rest
  · exact here.bound
  · exact here.endLine
  · exact here.reported
  · exact List.pairwise_cons.mpr ⟨here.passed, here.rising⟩
  · intro i listed
    rcases List.mem_cons.mp listed with rfl | listed
    · exact Nat.le_refl _
    · exact here.passed i listed

/-- Going on by one position is taking one token, and the trail keeps rising. -/
theorem advanced (here : At ts last c s) {t : Token} {rest : List Token} (found : c.rest = t :: rest) :
    At ts last { c with rest := rest } s.advanced := by
  have length := here.length_rest
  have more := here.rest
  rw [found] at length more
  constructor
  · change rest = ts.drop (s.current + 1)
    rw [← List.tail_drop, ← more]
    rfl
  · simp only [List.length_cons] at length
    change s.current + 1 ≤ ts.length
    omega
  · exact here.endLine
  · exact here.reported
  · exact here.rising
  · exact fun i listed => Nat.le_succ_of_le (here.passed i listed)

theorem report (here : At ts last c s) (d : Diagnostic) : At ts last (c.report d) (s.report d) := by
  constructor
  · exact here.rest
  · exact here.bound
  · exact here.endLine
  · exact congrArg (·.push d) here.reported
  · exact here.rising
  · exact here.passed

end At

namespace Walk

variable {tokens ts : List Token} {last : Token} {c : Cursor} {α β : Type}

/-- Two steps of a walk in a row: the second one starts where the first one ended, and an upset ends both. -/
theorem bind_apply (w : Walk α) (q : α → Walk β) (s : Spot) : (w >>= q) s = match w s with
    | .ok a s' => q a s'
    | .error upset s' => .error upset s' := by
  change EStateM.bind w q s = _
  unfold EStateM.bind
  cases w s <;> rfl

/-- At the spot of `c`, `w` gives `a` and goes nowhere. -/
def Looks (ts : List Token) (last : Token) (c : Cursor) (w : Walk α) (a : α) : Prop :=
  ∀ s, At ts last c s → ∃ s', w s = .ok a s' ∧ At ts last c s' ∧ s'.current = s.current

theorem Looks.pure (a : α) : Looks ts last c (Pure.pure a) a := fun s here => ⟨s, rfl, here, rfl⟩

/-- Looking twice is looking: neither moves, and both answers are known from the cursor. -/
theorem Looks.bind {w : Walk α} {q : α → Walk β} {a : α} {b : β} (first : Looks ts last c w a)
    (next : Looks ts last c (q a) b) : Looks ts last c (w >>= q) b := by
  intro s here
  obtain ⟨s₁, looked, here₁, same₁⟩ := first s here
  obtain ⟨s₂, looked', here₂, same₂⟩ := next s₁ here₁
  refine ⟨s₂, ?_, here₂, same₂.trans same₁⟩
  rw [bind_apply, looked]
  exact looked'

/-- The token at the position is the next one that is left, or the end token. -/
theorem peek_looks (ended : Ended tokens ts last) : Looks ts last c (peek tokens) (c.rest.headD last) := by
  intro s here
  refine ⟨s.looked, ?_, here.looked, rfl⟩
  simp [peek, look, ended.getElem?_eq here.bound, here.rest]

/-- The token before the position exists once the position has moved. Before that, looking for it would leave
the list. -/
theorem previous_apply (ended : Ended tokens ts last) {s : Spot} (here : At ts last c s)
    (moved : 0 < s.current) : ∃ t, ts[s.current - 1]? = some t ∧ previous tokens s = .ok t s.looked := by
  have bound := here.bound
  have before : s.current - 1 < ts.length := by omega
  refine ⟨ts[s.current - 1], List.getElem?_eq_getElem before, ?_⟩
  have found : tokens[s.current - 1]? = some ts[s.current - 1] := by
    rw [ended.getElem?_eq (Nat.le_of_lt before), List.drop_eq_getElem_cons before]
    rfl
  simp [previous, look, found, Nat.succ_le_of_lt moved]

/-- The walk is at the end token exactly when no token is left. -/
theorem atEnd_looks (ended : Ended tokens ts last) : Looks ts last c (atEnd tokens) c.rest.isEmpty := by
  intro s here
  have kind : ((c.rest.headD last).kind == .endOfInput) = c.rest.isEmpty := by
    cases found : c.rest with
    | nil => simp [ended.ends]
    | cons t rest =>
        have listed : t ∈ ts := by
          apply List.mem_of_mem_drop
          rw [← here.rest, found]
          exact List.mem_cons_self
        simp [ended.inner t listed]
  have looks : Looks ts last c (atEnd tokens) ((c.rest.headD last).kind == .endOfInput) := by
    apply (peek_looks ended).bind
    exact .pure _
  rw [← kind]
  exact looks s here

/-- Asking for the kind of the next token is answered from the tokens that are left; at the end the answer is
no. -/
theorem check_looks (ended : Ended tokens ts last) (kind : TokenKind) :
    Looks ts last c (check tokens kind) (c.rest.head?.any fun t => t.kind == kind) := by
  apply (atEnd_looks ended).bind
  cases found : c.rest with
  | nil => exact .pure false
  | cons t rest =>
      have next := peek_looks ended (c := c)
      rw [found] at next
      exact next.bind (.pure _)

/-- Asking for one of several kinds is answered in the same way, by the first look that succeeds. -/
theorem checkAny_looks (ended : Ended tokens ts last) (kinds : List TokenKind) :
    Looks ts last c (checkAny tokens kinds) (c.rest.head?.any fun t => kinds.contains t.kind) := by
  induction kinds with
  | nil =>
      have none : (c.rest.head?.any fun t => [].contains t.kind) = false := by simp
      rw [none]
      exact .pure false
  | cons kind kinds ih =>
      apply (check_looks ended kind).bind
      have either : (c.rest.head?.any fun t => (kind :: kinds).contains t.kind) =
          ((c.rest.head?.any fun t => t.kind == kind) || c.rest.head?.any fun t => kinds.contains t.kind) := by
        cases c.rest with
        | nil => rfl
        | cons t rest => exact List.contains_cons
      rw [either]
      cases c.rest.head?.any fun t => t.kind == kind with
      | true => exact .pure true
      | false => exact ih

/-- A row of declarations is over at the end token or at its stop. -/
theorem finished_looks (ended : Ended tokens ts last) (stop : Option TokenKind) :
    Looks ts last c (finished tokens stop) (decide (c.rest.head?.map Token.kind ∈ [none, stop])) := by
  cases stop with
  | none =>
      have same : decide (c.rest.head?.map Token.kind ∈ [none, none]) = c.rest.isEmpty := by
        cases c.rest <;> simp
      rw [same]
      exact atEnd_looks ended
  | some kind =>
      apply (check_looks ended kind).bind
      cases found : c.rest with
      | nil =>
          have none := atEnd_looks ended (c := c)
          rw [found] at none
          exact none
      | cons t rest =>
          by_cases same : t.kind = kind
          · simpa [same] using Looks.pure true
          · have others := atEnd_looks ended (c := c)
            rw [found] at others
            simpa [same] using others

/-- Going on by one token, where there is one: the walk gives that token and stands behind it. -/
theorem advance_apply (ended : Ended tokens ts last) {s : Spot} (here : At ts last c s) {t : Token}
    {rest : List Token} (found : c.rest = t :: rest) : ∃ s', advance tokens s = .ok t s' ∧
      At ts last { c with rest := rest } s' ∧ s'.current = s.current + 1 := by
  obtain ⟨s₁, looked, here₁, same⟩ := atEnd_looks ended s here
  have there := here₁.advanced found
  obtain ⟨u, before, looked'⟩ := previous_apply ended there (Nat.succ_pos _)
  obtain rfl : u = t := Option.some.inj (before.symm.trans (here₁.getElem?_current found))
  refine ⟨s₁.advanced.looked, ?_, there.looked, congrArg (· + 1) same⟩
  rw [advance, bind_apply, looked, found]
  exact looked'

/-- At the end there is nowhere to go on to. The token before the end is given again, which exists since the
position has moved. -/
theorem advance_ended (ended : Ended tokens ts last) {s : Spot} (here : At ts last c s)
    (none : c.rest = []) (moved : 0 < s.current) :
    ∃ t s', advance tokens s = .ok t s' ∧ At ts last c s' ∧ s'.current = s.current := by
  obtain ⟨s₁, looked, here₁, same⟩ := atEnd_looks ended s here
  obtain ⟨t, -, looked'⟩ := previous_apply ended here₁ (by omega)
  refine ⟨t, s₁.looked, ?_, here₁.looked, same⟩
  rw [advance, bind_apply, looked, none]
  exact looked'

/-- Skipping by position drops the tokens that a cursor drops. By induction over the turns, with the token
passed last as what skipping decides by. -/
theorem skip_apply (ended : Ended tokens ts last) {turns : Nat} {s : Spot} (here : At ts last c s)
    (moved : 0 < s.current) {passed : Token} (before : ts[s.current - 1]? = some passed)
    (enough : c.rest.length < turns) : ∃ s', skip tokens turns s = .ok () s' ∧
      At ts last { c with rest := Cursor.skipAfter passed.kind c.rest } s' ∧ s.current ≤ s'.current := by
  induction turns generalizing c s passed with
  | zero => omega
  | succ turns ih =>
      obtain ⟨s₁, looked, here₁, same₁⟩ := atEnd_looks ended s here
      rw [skip, bind_apply, looked]
      cases found : c.rest with
      | nil =>
          refine ⟨s₁, rfl, ?_, Nat.le_of_eq same₁.symm⟩
          rw [Cursor.skipAfter, ← found]
          exact here₁
      | cons t rest =>
          obtain ⟨u, before', looked'⟩ := previous_apply ended here₁ (by omega)
          obtain rfl : u = passed := by
            rw [same₁, before] at before'
            exact (Option.some.inj before').symm
          dsimp only [List.isEmpty_cons]
          rw [if_neg Bool.false_ne_true, bind_apply, looked']
          dsimp only
          by_cases closed : u.kind = .semicolon
          · rw [if_pos closed, Cursor.skipAfter, if_pos (.inl closed), ← found]
            exact ⟨_, rfl, here₁.looked, Nat.le_of_eq same₁.symm⟩
          · obtain ⟨s₂, looked₂, here₂, same₂⟩ := peek_looks ended _ here₁.looked
            rw [if_neg closed, bind_apply, looked₂, found]
            dsimp only [List.headD_cons]
            by_cases starts : Cursor.startsStatement t.kind
            · rw [if_pos starts, Cursor.skipAfter, if_pos (.inr starts), ← found]
              exact ⟨s₂, rfl, here₂, Nat.le_of_eq (same₁.symm.trans same₂.symm)⟩
            · obtain ⟨s₃, advanced, here₃, next⟩ := advance_apply ended here₂ found
              have before₃ : ts[s₃.current - 1]? = some t := by
                rw [next, Nat.add_sub_cancel]
                exact here₂.getElem?_current found
              have enough₃ : rest.length < turns := by
                simpa [found] using enough
              have onward : s.current ≤ s₃.current := by
                have same : s₂.current = s₁.current := same₂
                omega
              obtain ⟨s₄, skipped, here₄, further⟩ := ih here₃ (by omega) before₃ enough₃
              rw [if_neg starts, bind_apply, advanced, Cursor.skipAfter, if_neg (by simp [closed, starts])]
              exact ⟨s₄, skipped, here₄, Nat.le_trans onward further⟩

/-- Skipping by position ends where skipping from a cursor does, and never goes back. It looks at the token
before the current one, which has to exist. -/
theorem synchronize_apply (ended : Ended tokens ts last) {s : Spot} (here : At ts last c s)
    (moved : c.rest ≠ [] ∨ 0 < s.current) : ∃ s', synchronize tokens s = .ok () s' ∧
      At ts last c.synchronize s' ∧ s.current ≤ s'.current := by
  obtain ⟨more, split⟩ := ended.split
  have lengths : ts.length < tokens.length := by
    rw [split, List.length_append, List.length_cons]
    omega
  cases found : c.rest with
  | nil =>
      have moved : 0 < s.current := moved.resolve_left (· found)
      obtain ⟨t, s₁, advanced, here₁, same⟩ := advance_ended ended here found moved
      obtain ⟨u, before₁, -⟩ := previous_apply ended here₁ (by omega)
      have enough : c.rest.length < tokens.length := by
        rw [found, List.length_nil]
        omega
      obtain ⟨s₂, skipped, here₂, further⟩ := skip_apply ended here₁ (by omega) before₁ enough
      refine ⟨s₂, ?_, ?_, by omega⟩
      · rw [synchronize, bind_apply, advanced]
        exact skipped
      · have none : c.synchronize = { c with rest := Cursor.skipAfter u.kind c.rest } := by
          cases c
          cases found
          rfl
        rw [none]
        exact here₂
  | cons t rest =>
      obtain ⟨s₁, advanced, here₁, next⟩ := advance_apply ended here found
      have before₁ : ts[s₁.current - 1]? = some t := by
        rw [next, Nat.add_sub_cancel]
        exact here.getElem?_current found
      have enough : rest.length < tokens.length := by
        have length := here₁.length_rest
        dsimp only at length
        omega
      obtain ⟨s₂, skipped, here₂, further⟩ := skip_apply ended here₁ (by omega) before₁ enough
      refine ⟨s₂, ?_, ?_, by omega⟩
      · rw [synchronize, bind_apply, advanced]
        exact skipped
      · simp only [Cursor.synchronize, found]
        exact here₂

end Walk

/-! ### Both ways agree -/

/-- How the outcome of reading from a cursor corresponds to that of walking on from its spot `s`. -/
def Mirrors (ts : List Token) (last : Token) (s : Spot) {α : Type} :
    Parse.Outcome α → EStateM.Result Upset Spot α → Prop
  | .ok a d, r => ∃ s', r = .ok a s' ∧ At ts last d s' ∧ s.current ≤ s'.current
  | .error why d, r => ∃ s', r = .error (.unwind why) s' ∧ At ts last d s' ∧ s.current ≤ s'.current

section Agreement

variable {tokens ts : List Token} {last : Token} {c : Cursor} {s : Spot} {α β : Type}

/-- A walk that mirrors from a later position does so from an earlier one, as positions only grow. -/
theorem Mirrors.later {s₁ : Spot} {r : Parse.Outcome α} {w : EStateM.Result Upset Spot α}
    (mirrors : Mirrors ts last s₁ r w) (onward : s.current ≤ s₁.current) : Mirrors ts last s r w := by
  cases r with
  | ok a d =>
      obtain ⟨s', result, there, further⟩ := mirrors
      exact ⟨s', result, there, Nat.le_trans onward further⟩
  | error why d =>
      obtain ⟨s', result, there, further⟩ := mirrors
      exact ⟨s', result, there, Nat.le_trans onward further⟩

/-- Sequencing. The second walk starts at the position that mirrors the cursor the first reader left. -/
theorem Mirrors.bind {p : Parse α} {q : α → Parse β} {w : Walk α} {v : α → Walk β}
    (first : Mirrors ts last s (p c) (w s))
    (next : ∀ a d s', At ts last d s' → Mirrors ts last s' (q a d) (v a s')) :
    Mirrors ts last s ((p >>= q) c) ((w >>= v) s) := by
  rw [Parse.bind_apply, Walk.bind_apply]
  cases computed : p c with
  | error why d =>
      rw [computed] at first
      obtain ⟨s', result, there, onward⟩ := first
      rw [result]
      exact ⟨s', rfl, there, onward⟩
  | ok a d =>
      rw [computed] at first
      obtain ⟨s', result, there, onward⟩ := first
      rw [result]
      exact (next a d s' there).later onward

theorem reportHere_mirrors (ended : Ended tokens ts last) (fault : SyntaxFault) (here : At ts last c s) :
    Mirrors ts last s (Parse.reportHere fault c) (Walk.reportHere tokens fault s) := by
  obtain ⟨s₁, looked, here₁, same⟩ := Walk.peek_looks ended s here
  have fault_eq : c.faultHere fault = .atToken (c.rest.headD last) fault.message := by
    cases found : c.rest with
    | nil => simp [Cursor.faultHere, found, Diagnostic.atToken, ended.ends, here.endLine]
    | cons t rest => simp [Cursor.faultHere, found]
  rw [Walk.reportHere, Walk.bind_apply, looked]
  refine ⟨s₁.report (.atToken (c.rest.headD last) fault.message), rfl, ?_, Nat.le_of_eq same.symm⟩
  rw [fault_eq]
  exact here₁.report _

/-- Accepting a token by position is accepting it from a cursor: a check, and a step on when it succeeds. -/
theorem accept?_mirrors (ended : Ended tokens ts last) (kinds : List TokenKind) (here : At ts last c s) :
    Mirrors ts last s (Parse.accept? kinds c) (Walk.accept? tokens kinds s) := by
  obtain ⟨s₁, looked, here₁, same⟩ := Walk.checkAny_looks ended kinds s here
  rw [Walk.accept?, Walk.bind_apply, looked]
  cases found : c.rest with
  | nil =>
      rw [Parse.accept?_nil found]
      exact ⟨s₁, rfl, here₁, Nat.le_of_eq same.symm⟩
  | cons t rest =>
      rw [Parse.accept?_cons found]
      dsimp only [List.head?_cons, Option.any_some]
      by_cases listed : t.kind ∈ kinds
      · obtain ⟨s₂, advanced, here₂, next⟩ := Walk.advance_apply ended here₁ found
        rw [if_pos listed, if_pos (List.contains_iff_mem.mpr listed), Walk.bind_apply, advanced]
        exact ⟨s₂, rfl, here₂, by omega⟩
      · rw [if_neg listed, if_neg (mt List.contains_iff_mem.mp listed)]
        exact ⟨s₁, rfl, here₁, Nat.le_of_eq same.symm⟩

theorem nextIs_mirrors (ended : Ended tokens ts last) (kind : TokenKind) (here : At ts last c s) :
    Mirrors ts last s (Parse.nextIs kind c) (Walk.check tokens kind s) := by
  obtain ⟨s₁, looked, here₁, same⟩ := Walk.check_looks ended kind s here
  have read : Parse.nextIs kind c = .ok (c.rest.head?.any fun t => t.kind == kind) c := by
    unfold Parse.nextIs
    cases c.rest <;> rfl
  rw [read, looked]
  exact ⟨s₁, rfl, here₁, Nat.le_of_eq same.symm⟩

/-- One turn that skips what is malformed. Where it begins there is a token, so that the token before the
current one exists when skipping looks at it. -/
theorem recovering_mirrors (ended : Ended tokens ts last) {p : Parse α} {w : Walk α} (left : c.rest ≠ [])
    (here : At ts last c s) (mirrors : Mirrors ts last s (p c) (w s)) :
    Mirrors ts last s (Parse.recovering p c) (Walk.recovering tokens w s) := by
  unfold Parse.recovering Walk.recovering
  cases computed : p c with
  | ok a d =>
      rw [computed] at mirrors
      obtain ⟨s', result, there, onward⟩ := mirrors
      rw [result]
      exact ⟨s', rfl, there, onward⟩
  | error why d =>
      rw [computed] at mirrors
      obtain ⟨s', result, there, onward⟩ := mirrors
      rw [result]
      cases why with
      | tooDeep => exact ⟨s', rfl, there, onward⟩
      | malformed =>
          have moved : d.rest ≠ [] ∨ 0 < s'.current := by
            by_cases none : d.rest = []
            · have before := here.length_rest
              have after := there.length_rest
              have some := List.length_pos_iff.mpr left
              rw [none, List.length_nil] at after
              omega
            · exact .inl none
          obtain ⟨s'', skipped, there', further⟩ := Walk.synchronize_apply ended there moved
          dsimp only
          rw [Walk.bind_apply, skipped]
          exact ⟨s'', rfl, there', Nat.le_trans onward further⟩

/-- One turn of a loop over declarations, by position and from a cursor. The turn begins with a token, or the
loop is over. -/
theorem turn_mirrors (ended : Ended tokens ts last) (stop : Option TokenKind) {p : Parse α} {w : Walk α}
    (here : At ts last c s) (mirrors : ∀ c s, At ts last c s → Mirrors ts last s (p c) (w s)) :
    Mirrors ts last s (Parse.turn stop p c) (Walk.turn tokens stop w s) := by
  obtain ⟨s₁, looked, here₁, same⟩ := Walk.finished_looks ended stop s here
  rw [Walk.turn, Walk.bind_apply, looked, Parse.turn]
  dsimp only
  by_cases stopped : c.rest.head?.map Token.kind ∈ [none, stop]
  · rw [if_pos stopped, if_pos (decide_eq_true stopped)]
    exact ⟨s₁, rfl, here₁, Nat.le_of_eq same.symm⟩
  · have left : c.rest ≠ [] := by
      intro none
      simp [none] at stopped
    rw [if_neg stopped, if_neg (by simpa using stopped)]
    have turned := (recovering_mirrors ended left here₁ (mirrors c s₁ here₁)).bind
      (q := fun o => Pure.pure (some o)) (v := fun o => Pure.pure (some o))
      fun o d s' there => ⟨s', rfl, there, Nat.le_refl _⟩
    exact turned.later (Nat.le_of_eq same.symm)

/-- **Walking mirrors reading.** Walking over the whole list does what reading from a cursor does. By induction
over the steps that a reader is made of, one case for each kind of step. -/
theorem Reader.walk_mirrors (ended : Ended tokens ts last) (r : Reader α) (here : At ts last c s) :
    Mirrors ts last s (r.read c) (r.walk tokens s) := by
  induction r generalizing c s with
  | pure a => exact ⟨s, rfl, here, Nat.le_refl _⟩
  | bind r q first next => exact (first here).bind fun a d s' there => next a there
  | tooDeep => exact ⟨s, rfl, here, Nat.le_refl _⟩
  | fail fault =>
      obtain ⟨s', reported, there, onward⟩ := reportHere_mirrors ended fault here
      refine ⟨s', ?_, there, onward⟩
      rw [Reader.walk, Walk.fail, Walk.bind_apply, reported]
      rfl
  | report t fault => exact ⟨_, rfl, here.report _, Nat.le_refl _⟩
  | reportHere fault => exact reportHere_mirrors ended fault here
  | accept? kinds => exact accept?_mirrors ended kinds here
  | nextIs kind => exact nextIs_mirrors ended kind here
  | remaining =>
      have length : endPosition tokens - s.current = c.rest.length := by
        have length := here.length_rest
        rw [ended.endPosition_eq]
        omega
      refine ⟨s, ?_, here, Nat.le_refl _⟩
      rw [← length]
      rfl
  | turn stop r mirrors => exact turn_mirrors ended stop here fun c s here => mirrors here

end Agreement

end Treewalk

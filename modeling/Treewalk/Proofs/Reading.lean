import Treewalk.Program

/-!
How readers compose. Three views of a reader, each with one law for every way readers are put together:

* `Sound R p`: a reading by `p` that reports nothing is one of the readings `R`. A reader that unwinds
  has reported something, and whatever the outcome, tokens are only read and faults only added
  (`Cursor.Follows`).
* `Completes p ts rest a`: on `ts ++ rest`, `p` takes exactly `ts`, reports nothing and gives `a`,
  unless the depth runs out on the way.
* `Fits n p`: with at most `n` tokens left, `p` does not run out of depth.
-/

namespace Treewalk

namespace Cursor

/-- A later state of the same reading: tokens are only read and faults are only added. -/
structure Follows (c d : Cursor) : Prop where
  rest : d.rest <:+ c.rest
  endLine : d.endLine = c.endLine
  reported : c.reported.toList <+: d.reported.toList

theorem Follows.refl (c : Cursor) : c.Follows c :=
  ⟨List.suffix_refl _, rfl, List.prefix_refl _⟩

/-- Reading on from a later state leads to a later state: suffixes of suffixes and prefixes of prefixes are such
again. -/
theorem Follows.trans {c d e : Cursor} (first : c.Follows d) (second : d.Follows e) : c.Follows e :=
  ⟨second.rest.trans first.rest, second.endLine.trans first.endLine,
    first.reported.trans second.reported⟩

/-- Faults are never taken back, so their number can be compared to tell whether a reading reported anything. -/
theorem Follows.size_le {c d : Cursor} (later : c.Follows d) : c.reported.size ≤ d.reported.size := by
  simpa using later.reported.length_le

/-- Tokens are never put back. This is the measure that bounds every loop over tokens. -/
theorem Follows.length_le {c d : Cursor} (later : c.Follows d) : d.rest.length ≤ c.rest.length :=
  later.rest.length_le

/-- Reporting moves no token and adds one fault at the end, behind those that were reported before. -/
theorem follows_report (c : Cursor) (diagnostic : Diagnostic) : c.Follows (c.report diagnostic) :=
  ⟨List.suffix_refl _, rfl, by simp [report]⟩

/-- Skipping only drops tokens from the front, whatever token was dropped last. -/
theorem skipAfter_suffix (last : TokenKind) (ts : List Token) : skipAfter last ts <:+ ts := by
  induction ts generalizing last with
  | nil => exact List.suffix_refl _
  | cons t rest ih =>
      rw [skipAfter]
      split
      · exact List.suffix_refl _
      · exact (ih t.kind).trans (List.suffix_cons t rest)

/-- Skipping to the next statement drops tokens and reports nothing, so a recovered reading is still a later
state of the same one. -/
theorem follows_synchronize (c : Cursor) : c.Follows c.synchronize := by
  unfold synchronize
  split
  · exact .refl c
  · rename_i t rest found
    refine ⟨?_, rfl, List.prefix_refl _⟩
    rw [found]
    exact (skipAfter_suffix t.kind rest).trans (List.suffix_cons t rest)

end Cursor

namespace Parse

variable {α β : Type}

/-- What a reader gives back. -/
abbrev Outcome (α : Type) := EStateM.Result Unwind Cursor α

/-- Readings without a fault: the tokens taken, the result, and the tokens left. -/
abbrev Readings (α : Type) := List Token → α → List Token → Prop

/-- Two readers in a row, run from a cursor: the second one starts where the first one ended, and an unwinding
first one ends both. All laws of sequencing below open a `do` block by this equation. -/
theorem bind_apply (p : Parse α) (q : α → Parse β) (c : Cursor) :
    (p >>= q) c = match p c with
      | .ok a d => q a d
      | .error e d => .error e d := by
  change EStateM.bind p q c = _
  unfold EStateM.bind
  cases p c <;> rfl

/-- Changing the result of a reader changes neither the cursor nor the way it unwinds. -/
theorem map_apply (f : α → β) (p : Parse α) (c : Cursor) :
    (f <$> p) c = match p c with
      | .ok a d => .ok (f a) d
      | .error e d => .error e d := by
  change EStateM.map f p c = _
  unfold EStateM.map
  cases p c <;> rfl

/-- At the end of the input no token is accepted, and the cursor stays. -/
theorem accept?_nil {kinds : List TokenKind} {c : Cursor} (empty : c.rest = []) :
    accept? kinds c = .ok none c := by
  simp [accept?, empty]

/-- In front of a token, that token is accepted if its kind is listed; otherwise nothing is read. -/
theorem accept?_cons {kinds : List TokenKind} {c : Cursor} {t : Token} {rest : List Token}
    (found : c.rest = t :: rest) :
    accept? kinds c =
      if t.kind ∈ kinds then .ok (some t) { c with rest := rest } else .ok none c := by
  simp [accept?, found]

/-! ### Readings that report nothing -/

/-- The outcome of a reader that starts at `c` is one of the readings `R`, or something was reported.
An outcome without a result says so by a report, unless the depth ran out. -/
def Conforms (R : Readings α) (c : Cursor) : Outcome α → Prop
  | .ok a d => c.Follows d ∧
      (d.reported.size = c.reported.size → ∃ ts, c.rest = ts ++ d.rest ∧ R ts a d.rest)
  | .error .malformed d => c.Follows d ∧ c.reported.size < d.reported.size
  | .error .tooDeep d => c.Follows d

/-- A reader whose every reading without a fault is one of `R`. -/
def Sound (R : Readings α) (p : Parse α) : Prop := ∀ c, Conforms R c (p c)

/-- A reader is sound for every larger set of readings. The rules of the grammar are fitted to the readers by
this. -/
theorem Sound.mono {R S : Readings α} {p : Parse α} (sound : Sound R p)
    (weaker : ∀ ts a rest, R ts a rest → S ts a rest) : Sound S p := by
  intro c
  have read := sound c
  cases result : p c with
  | ok a d =>
      rw [result] at read
      refine ⟨read.1, fun silent => ?_⟩
      obtain ⟨ts, taken, reading⟩ := read.2 silent
      exact ⟨ts, taken, weaker _ _ _ reading⟩
  | error e d =>
      rw [result] at read
      cases e <;> exact read

/-- Sequencing. What the first reader took stands as a hypothesis of what the second one has to
account for. -/
theorem Sound.bind {R : Readings α} {S : Readings β} {p : Parse α} {q : α → Parse β}
    (first : Sound R p)
    (next : ∀ us a, Sound (fun vs b rest => R us a (vs ++ rest) → S (us ++ vs) b rest) (q a)) :
    Sound S (p >>= q) := by
  intro c
  rw [bind_apply]
  have started := first c
  cases computed : p c with
  | error e d =>
      rw [computed] at started
      cases e <;> exact started
  | ok a d =>
      rw [computed] at started
      have continued := fun us => next us a d
      dsimp only
      cases result : q a d with
      | error e f =>
          rw [result] at continued
          cases e with
          | malformed => exact ⟨started.1.trans (continued []).1,
              Nat.lt_of_le_of_lt started.1.size_le (continued []).2⟩
          | tooDeep => exact started.1.trans (continued [])
      | ok b f =>
          rw [result] at continued
          refine ⟨started.1.trans (continued []).1, fun silent => ?_⟩
          have before := started.1.size_le
          have after := (continued []).1.size_le
          -- neither part reported anything, since the whole did not
          obtain ⟨us, taken, reading⟩ := started.2 (by omega)
          obtain ⟨vs, taken', extended⟩ := (continued us).2 (by omega)
          refine ⟨us ++ vs, ?_, extended (taken' ▸ reading)⟩
          rw [taken, taken', List.append_assoc]

/-- A reader that reads nothing is sound for readings that take no token. -/
theorem Sound.pure {S : Readings α} {a : α} (reading : ∀ rest, S [] a rest) :
    Sound S (Pure.pure a : Parse α) :=
  fun c => ⟨.refl c, fun _ => ⟨[], rfl, reading _⟩⟩

/-- Changing the result changes the readings along with it, over the same tokens and in front of the
same ones. -/
theorem Sound.map {R : Readings α} {S : Readings β} {f : α → β} {p : Parse α} (sound : Sound R p)
    (image : ∀ ts a rest, R ts a rest → S ts (f a) rest) : Sound S (f <$> p) := by
  intro c
  rw [map_apply]
  have read := sound c
  cases result : p c with
  | error e d =>
      rw [result] at read
      cases e <;> exact read
  | ok a d =>
      rw [result] at read
      refine ⟨read.1, fun silent => ?_⟩
      obtain ⟨ts, taken, reading⟩ := read.2 silent
      exact ⟨ts, taken, image _ _ _ reading⟩

theorem tooDeep_sound {R : Readings α} : Sound R (tooDeep : Parse α) :=
  fun c => Cursor.Follows.refl c

/-- Unwinding is sound for any set of readings: a fault was reported, so the reading was not a silent one. -/
theorem fail_sound {R : Readings α} (fault : SyntaxFault) : Sound R (fail fault : Parse α) :=
  fun c => ⟨c.follows_report _, by simp [Cursor.report]⟩

/-- No reading through a report is silent, so none has to be accounted for. -/
theorem report_sound (t : Token) (fault : SyntaxFault) :
    Sound (fun _ _ _ => False) (report t fault) :=
  fun c => ⟨c.follows_report _, by simp [Cursor.report]⟩

theorem reportHere_sound (fault : SyntaxFault) :
    Sound (fun _ _ _ => False) (reportHere fault) :=
  fun c => ⟨c.follows_report _, by simp [Cursor.report]⟩

/-- A conditional report is silent exactly when nothing is wrong, and then it takes no token. So what is wrong
can be excluded for silent readings. -/
theorem reportIf_sound {wrong : Bool} {reporting : Parse Unit}
    (sound : Sound (fun _ _ _ => False) reporting) :
    Sound (fun ts _ _ => ts = [] ∧ wrong = false) (reportIf wrong reporting) := by
  cases wrong with
  | false => exact .pure fun _ => ⟨rfl, rfl⟩
  | true => exact sound.mono fun _ _ _ impossible => impossible.elim

/-- The readings of an optional token. -/
def Accepted (kinds : List TokenKind) : Readings (Option Token)
  | ts, some t, _ => ts = [t] ∧ t.kind ∈ kinds
  | ts, none, rest => ts = [] ∧ ∀ t ∈ rest.head?, t.kind ∉ kinds

/-- An accepted token is the one token taken, of a listed kind; when none is accepted, none is taken and the
next one is not listed. -/
theorem accept?_sound (kinds : List TokenKind) : Sound (Accepted kinds) (accept? kinds) := by
  intro c
  cases found : c.rest with
  | nil =>
      rw [accept?_nil found]
      exact ⟨.refl c, fun _ => ⟨[], rfl, rfl, by simp [found]⟩⟩
  | cons t rest =>
      rw [accept?_cons found]
      split
      · rename_i listed
        refine ⟨⟨?_, rfl, List.prefix_refl _⟩, fun _ => ⟨[t], found, rfl, listed⟩⟩
        rw [found]
        exact List.suffix_cons t rest
      · rename_i unlisted
        exact ⟨.refl c, fun _ => ⟨[], rfl, rfl, by simpa [found] using unlisted⟩⟩

/-- A silent reading of an expected token took that token, of the expected kind. If it is missing the reader
unwinds, so the tree that is read never lacks it. -/
theorem expect_sound (kind : TokenKind) (fault : SyntaxFault) :
    Sound (fun ts t _ => ts = [t] ∧ t.kind = kind) (expect kind fault) := by
  refine .bind (accept?_sound [kind]) fun us o => ?_
  cases o with
  | none => exact fail_sound fault
  | some t =>
      refine .pure ?_
      rintro rest ⟨rfl, listed⟩
      exact ⟨rfl, List.mem_singleton.mp listed⟩

theorem nextIs_sound (kind : TokenKind) :
    Sound (fun ts _ _ => ts = []) (nextIs kind) := by
  intro c
  cases found : c.rest <;> simp only [nextIs, found] <;> exact ⟨.refl c, fun _ => ⟨[], rfl, rfl⟩⟩

theorem remaining_sound : Sound (fun ts n rest => ts = [] ∧ n = rest.length) remaining :=
  fun c => ⟨.refl c, fun _ => ⟨[], rfl, rfl, rfl⟩⟩

/-- The readings of a part that may be left out. -/
def Optionally (R : Readings α) : Readings (Option α)
  | ts, some a, rest => R ts a rest
  | ts, none, _ => ts = []

/-- An optional part is absent, over no tokens, or is a reading of the part itself. -/
theorem unlessNext_sound {R : Readings α} {p : Parse α} (stop : TokenKind) (sound : Sound R p) :
    Sound (Optionally R) (unlessNext stop p) := by
  refine .bind (nextIs_sound stop) fun us found => ?_
  cases found with
  | true => exact .pure fun rest none => by rw [none]; rfl
  | false =>
      refine sound.map fun ts a rest reading none => ?_
      rw [none]
      exact reading

/-- The readings of a part that stands only after a sign. -/
def AfterSign (kind : TokenKind) (R : Readings α) : Readings (Option α)
  | ts, some a, rest => ∃ sign us, ts = sign :: us ∧ sign.kind = kind ∧ R us a rest
  | ts, none, rest => ts = [] ∧ ∀ t ∈ rest.head?, t.kind ≠ kind

/-- A part introduced by a sign is absent, or stands behind that sign; the sign is one of the tokens taken. -/
theorem afterSign_sound {R : Readings α} {p : Parse α} (kind : TokenKind) (sound : Sound R p) :
    Sound (AfterSign kind R) (afterSign kind p) := by
  refine .bind (accept?_sound [kind]) fun us o => ?_
  cases o with
  | none =>
      refine .pure ?_
      rintro rest ⟨rfl, other⟩
      exact ⟨rfl, fun t next => fun same => other t next (List.mem_singleton.mpr same)⟩
  | some sign =>
      refine sound.map ?_
      rintro ts a rest reading ⟨rfl, listed⟩
      exact ⟨sign, ts, rfl, List.mem_singleton.mp listed, reading⟩

/-- A malformed declaration was reported, so a silent reading is never a skipped one. -/
theorem recovering_sound {R : Readings α} {p : Parse α} (sound : Sound R p) :
    Sound (fun ts o rest => ∃ a, o = some a ∧ R ts a rest) (recovering p) := by
  intro c
  have read := sound c
  unfold recovering
  cases result : p c with
  | ok a d =>
      rw [result] at read
      refine ⟨read.1, fun silent => ?_⟩
      obtain ⟨ts, taken, reading⟩ := read.2 silent
      exact ⟨ts, taken, a, rfl, reading⟩
  | error e d =>
      rw [result] at read
      cases e with
      | tooDeep => exact read
      | malformed =>
          have later := d.follows_synchronize
          refine ⟨read.1.trans later, fun silent => ?_⟩
          have grown := later.size_le
          have reported := read.2
          omega

/-! ### Readings that have to succeed -/

/-- On `ts ++ rest` the reader takes exactly `ts`, reports nothing and gives `a`, or the depth runs out
on the way. -/
def Completes (p : Parse α) (ts rest : List Token) (a : α) : Prop :=
  ∀ c, c.rest = ts ++ rest →
    p c = .ok a { c with rest := rest } ∨ ∃ d, p c = .error .tooDeep d

/-- Sequencing. The tokens of the second reading are what the first one finds behind its own tokens, which is
why `rest` is an argument of `Completes`. -/
theorem Completes.bind {p : Parse α} {q : α → Parse β} {ts us rest : List Token} {a : α} {b : β}
    (first : Completes p ts (us ++ rest) a) (next : Completes (q a) us rest b) :
    Completes (p >>= q) (ts ++ us) rest b := by
  intro c start
  rw [bind_apply]
  rcases first c (by rw [start, List.append_assoc]) with done | ⟨d, deep⟩
  · rw [done]
    exact next _ rfl
  · rw [deep]
    exact .inr ⟨d, rfl⟩

theorem Completes.look {p : Parse α} {q : α → Parse β} {us rest : List Token} {a : α} {b : β}
    (first : Completes p [] (us ++ rest) a) (next : Completes (q a) us rest b) :
    Completes (p >>= q) us rest b :=
  first.bind next

theorem Completes.take {p : Parse α} {q : α → Parse β} {t : Token} {us rest : List Token} {a : α}
    {b : β} (first : Completes p [t] (us ++ rest) a) (next : Completes (q a) us rest b) :
    Completes (p >>= q) (t :: us) rest b :=
  first.bind next

theorem Completes.last {p : Parse α} {q : α → Parse β} {ts rest : List Token} {a : α} {b : β}
    (first : Completes p ts rest a) (next : Completes (q a) [] rest b) :
    Completes (p >>= q) ts rest b := by
  have whole := @Completes.bind _ _ p q ts [] rest a b first next
  rwa [List.append_nil] at whole

theorem Completes.pure (a : α) (rest : List Token) : Completes (Pure.pure a) [] rest a :=
  fun c start => .inl (by cases c; cases start; rfl)

theorem Completes.map {f : α → β} {p : Parse α} {ts rest : List Token} {a : α}
    (completes : Completes p ts rest a) : Completes (f <$> p) ts rest (f a) := by
  intro c start
  rw [map_apply]
  rcases completes c start with done | ⟨d, deep⟩
  · rw [done]
    exact .inl rfl
  · rw [deep]
    exact .inr ⟨d, rfl⟩

/-- Running out of depth is allowed everywhere, so a reader that does nothing else completes any reading. -/
theorem tooDeep_completes {ts rest : List Token} {a : α} :
    Completes (tooDeep : Parse α) ts rest a :=
  fun c _ => .inr ⟨c, rfl⟩

/-- A token of a listed kind is accepted, whatever comes behind it. -/
theorem accept?_completes {kinds : List TokenKind} {t : Token} {rest : List Token}
    (listed : t.kind ∈ kinds) : Completes (accept? kinds) [t] rest (some t) := by
  intro c start
  rw [accept?_cons start, if_pos listed]
  exact .inl rfl

/-- A token of no listed kind is left alone, and so is the end of the input. The condition is on the first token
behind the reading, where there is one. -/
theorem accept?_completes_none {kinds : List TokenKind} {rest : List Token}
    (unlisted : ∀ t ∈ rest.head?, t.kind ∉ kinds) : Completes (accept? kinds) [] rest none := by
  intro c start
  left
  cases rest with
  | nil =>
      rw [accept?_nil start]
      cases c
      cases start
      rfl
  | cons t rest =>
      rw [accept?_cons start, if_neg (unlisted t rfl)]
      cases c
      cases start
      rfl

/-- A token of the expected kind is read without a report. -/
theorem expect_completes {kind : TokenKind} {fault : SyntaxFault} {t : Token} {rest : List Token}
    (same : t.kind = kind) : Completes (expect kind fault) [t] rest t :=
  .take (accept?_completes (List.mem_singleton.mpr same)) (.pure t rest)

theorem reportIf_completes {reporting : Parse Unit} {rest : List Token} :
    Completes (reportIf false reporting) [] rest () :=
  .pure () rest

theorem remaining_completes (rest : List Token) : Completes remaining [] rest rest.length := by
  intro c start
  left
  cases c
  cases start
  rfl

theorem nextIs_completes {kind : TokenKind} {t : Token} {rest : List Token} :
    Completes (nextIs kind) [] (t :: rest) (decide (t.kind = kind)) := by
  intro c start
  left
  cases c
  cases start
  rfl

/-- An optional part is left out in front of the token that ends it. -/
theorem unlessNext_completes_none {stop : TokenKind} {p : Parse α} {t : Token} {rest : List Token}
    (same : t.kind = stop) : Completes (unlessNext stop p) [] (t :: rest) none := by
  refine .look nextIs_completes ?_
  rw [decide_eq_true same]
  exact .pure none _

/-- An optional part is read when its first token is not the one that would end it. -/
theorem unlessNext_completes {stop : TokenKind} {p : Parse α} {t : Token} {ts rest : List Token}
    {a : α} (other : t.kind ≠ stop) (completes : Completes p (t :: ts) rest a) :
    Completes (unlessNext stop p) (t :: ts) rest (some a) := by
  refine .look nextIs_completes ?_
  rw [decide_eq_false other]
  exact completes.map

/-- Without its sign, a part is left out and nothing is read. -/
theorem afterSign_completes_none {kind : TokenKind} {p : Parse α} {rest : List Token}
    (other : ∀ t ∈ rest.head?, t.kind ≠ kind) : Completes (afterSign kind p) [] rest none :=
  .look (accept?_completes_none fun t next same => other t next (List.mem_singleton.mp same))
    (.pure none rest)

/-- With its sign in front, a part is read as it is by itself. -/
theorem afterSign_completes {kind : TokenKind} {p : Parse α} {sign : Token} {ts rest : List Token}
    {a : α} (same : sign.kind = kind) (completes : Completes p ts rest a) :
    Completes (afterSign kind p) (sign :: ts) rest (some a) :=
  .take (accept?_completes (List.mem_singleton.mpr same)) completes.map

/-- There is nothing to recover from when a declaration is read to its end, so a complete declaration is
never skipped. -/
theorem recovering_completes {p : Parse α} {ts rest : List Token} {a : α}
    (completes : Completes p ts rest a) : Completes (recovering p) ts rest (some a) := by
  intro c start
  unfold recovering
  rcases completes c start with done | ⟨d, deep⟩
  · rw [done]
    exact .inl rfl
  · rw [deep]
    exact .inr ⟨d, rfl⟩

/-! ### Readings that do not nest too deeply -/

/-- The depth sufficed, and no tokens came back. -/
def Settles (c : Cursor) : Outcome α → Prop
  | .ok _ d => d.rest.length ≤ c.rest.length
  | .error e d => e = .malformed ∧ d.rest.length ≤ c.rest.length

/-- With at most `n` tokens left the depth suffices. -/
def Fits (n : Nat) (p : Parse α) : Prop := ∀ c, c.rest.length ≤ n → Settles c (p c)

theorem Settles.mono {c d : Cursor} {r : Outcome α} (settles : Settles d r)
    (fewer : d.rest.length ≤ c.rest.length) : Settles c r := by
  cases r with
  | ok a e => exact Nat.le_trans settles fewer
  | error e f => exact ⟨settles.1, Nat.le_trans settles.2 fewer⟩

/-- With fewer tokens left, the depth lasts all the more. A bound for the whole input is one for each of
its parts. -/
theorem Fits.mono {m n : Nat} {p : Parse α} (fits : Fits n p) (fewer : m ≤ n) : Fits m p :=
  fun c short => fits c (Nat.le_trans short fewer)

/-- Reading never adds tokens, so a bound that lasts for both readers lasts for the two in a row. -/
theorem Fits.bind {n : Nat} {p : Parse α} {q : α → Parse β} (first : Fits n p)
    (next : ∀ a, Fits n (q a)) : Fits n (p >>= q) := by
  intro c short
  rw [bind_apply]
  have started := first c short
  cases computed : p c with
  | error e d =>
      rw [computed] at started
      exact started
  | ok a d =>
      rw [computed] at started
      exact (next a d (Nat.le_trans started short)).mono started

theorem Fits.pure {n : Nat} (a : α) : Fits n (Pure.pure a : Parse α) :=
  fun c _ => Nat.le_refl c.rest.length

theorem Fits.map {n : Nat} {f : α → β} {p : Parse α} (fits : Fits n p) : Fits n (f <$> p) := by
  intro c short
  rw [map_apply]
  have read := fits c short
  cases result : p c with
  | error e d =>
      rw [result] at read
      exact read
  | ok a d =>
      rw [result] at read
      exact read

/-- After an accepted token there is one token less to read. Nested parts stand behind a token of their own, so
this is where the bound on the depth comes from. -/
theorem Fits.accept? {n : Nat} {kinds : List TokenKind} {q : Option Token → Parse β}
    (without : Fits n (q none)) (accepted : ∀ t m, m + 1 ≤ n → Fits m (q (some t))) :
    Fits n (accept? kinds >>= q) := by
  intro c short
  rw [bind_apply]
  cases found : c.rest with
  | nil =>
      rw [accept?_nil found]
      exact without c short
  | cons t rest =>
      rw [accept?_cons found]
      by_cases listed : t.kind ∈ kinds
      · have shorter : rest.length + 1 ≤ n := by simpa [found] using short
        have read := accepted t rest.length shorter { c with rest := rest } (Nat.le_refl _)
        rw [if_pos listed]
        exact read.mono (by simp [found])
      · rw [if_neg listed]
        exact without c short

theorem accept?_fits {n : Nat} (kinds : List TokenKind) : Fits n (accept? kinds) := by
  intro c _
  cases found : c.rest with
  | nil =>
      rw [accept?_nil found]
      exact Nat.le_refl c.rest.length
  | cons t rest =>
      rw [accept?_cons found]
      split <;> simp [Settles, found]

theorem fail_fits {n : Nat} (fault : SyntaxFault) : Fits n (fail fault : Parse α) :=
  fun c _ => ⟨rfl, Nat.le_refl c.rest.length⟩

theorem report_fits {n : Nat} (t : Token) (fault : SyntaxFault) : Fits n (report t fault) :=
  fun c _ => Nat.le_refl c.rest.length

theorem reportHere_fits {n : Nat} (fault : SyntaxFault) : Fits n (reportHere fault) :=
  fun c _ => Nat.le_refl c.rest.length

theorem reportIf_fits {n : Nat} {wrong : Bool} {reporting : Parse Unit} (fits : Fits n reporting) :
    Fits n (reportIf wrong reporting) := by
  cases wrong with
  | false => exact .pure ()
  | true => exact fits

/-- Reading a single token takes no depth, whether or not it is the expected one. -/
theorem expect_fits {n : Nat} (kind : TokenKind) (fault : SyntaxFault) :
    Fits n (expect kind fault) :=
  .accept? (fail_fits fault) fun t _ _ => .pure t

theorem remaining_fits {n : Nat} : Fits n remaining :=
  fun c _ => Nat.le_refl c.rest.length

theorem nextIs_fits {n : Nat} (kind : TokenKind) : Fits n (nextIs kind) := by
  intro c _
  cases found : c.rest <;> simp [nextIs, found, Settles]

/-- Looking ahead takes no depth, so an optional part needs what the part needs. -/
theorem unlessNext_fits {n : Nat} {p : Parse α} (stop : TokenKind) (fits : Fits n p) :
    Fits n (unlessNext stop p) := by
  refine .bind (nextIs_fits stop) fun found => ?_
  cases found with
  | true => exact .pure none
  | false => exact fits.map

/-- A part behind a sign has one token less to read than the whole, so its depth may be one less. -/
theorem afterSign_fits {n : Nat} {p : Parse α} (kind : TokenKind)
    (fits : ∀ m, m + 1 ≤ n → Fits m p) : Fits n (afterSign kind p) :=
  .accept? (.pure none) fun _ m fewer => (fits m fewer).map

/-- Skipping takes no depth, so a declaration that recovers fits where the declaration does. -/
theorem recovering_fits {n : Nat} {p : Parse α} (fits : Fits n p) : Fits n (recovering p) := by
  intro c short
  have read := fits c short
  unfold recovering
  cases result : p c with
  | ok a d =>
      rw [result] at read
      exact read
  | error e d =>
      rw [result] at read
      obtain ⟨rfl, shorter⟩ := read
      exact Nat.le_trans d.follows_synchronize.length_le shorter

end Parse

end Treewalk

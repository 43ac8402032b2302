import Treewalk.Proofs.Reading.Steps
import Treewalk.Proofs.Tree

/-!
Which `return` is reported. A `return` outside every function body is reported at its keyword when it is
read, and no other one is, whatever faults come before it, around it or after it. A reader settles this
for the keywords that it reads (`Cursor.Settled`), and nothing that is read later can change it.
-/

namespace Treewalk

namespace Stmt

/-- The statements directly under a statement, those of a function body left out. -/
def openParts : Stmt → List Stmt
  | .function _ _ _ => []
  | s => s.parts

/-- `Returns keyword around top s`: a `return` with this keyword lies in `s`. `around` says whether a
function body is around `s`, and `top` whether none is around the `return`. -/
inductive Returns (keyword : Token) : Bool → Bool → Stmt → Prop where
  | here {around value} : Returns keyword around (!around) (.return keyword value)
  | part {around top s u} : u ∈ s.openParts → Returns keyword around top u → Returns keyword around top s
  | body {around top name parameters body u} : u ∈ body → Returns keyword true top u →
      Returns keyword around top (.function name parameters body)

section

variable {keyword t name : Token} {around top : Bool} {e : Expr} {value : Option Expr} {s : Stmt}
  {body : List Stmt}

/-- A statement returns at a keyword by being that `return`, through an open part of it, or through the
body of a function that it declares, where a function is around. The cases for each form of statement
follow from this. -/
theorem returns_iff : s.Returns keyword around top ↔
    (∃ value, s = .return keyword value ∧ top = !around) ∨
    (∃ u ∈ s.openParts, u.Returns keyword around top) ∨
    ∃ name parameters body, s = .function name parameters body ∧ ∃ u ∈ body, u.Returns keyword true top := by
  constructor
  · intro returns
    cases returns with
    | here => exact .inl ⟨_, rfl, rfl⟩
    | part listed inner => exact .inr (.inl ⟨_, listed, inner⟩)
    | body listed inner => exact .inr (.inr ⟨_, _, _, rfl, _, listed, inner⟩)
  · rintro (⟨value, rfl, rfl⟩ | ⟨u, listed, inner⟩ | ⟨name, parameters, body, rfl, u, listed, inner⟩)
    · exact .here
    · exact .part listed inner
    · exact .body listed inner

@[simp]
theorem not_returns_expression : ¬ (expression e).Returns keyword around top := by
  rw [returns_iff]; simp [openParts, parts]

@[simp]
theorem not_returns_print : ¬ (print e).Returns keyword around top := by
  rw [returns_iff]; simp [openParts, parts]

@[simp]
theorem not_returns_var : ¬ (var name value).Returns keyword around top := by
  rw [returns_iff]; simp [openParts, parts]

@[simp]
theorem returns_block : (block body).Returns keyword around top ↔
    ∃ u ∈ body, u.Returns keyword around top := by
  rw [returns_iff]; simp [openParts, parts]

@[simp]
theorem returns_branch {no : Option Stmt} : (branch e s no).Returns keyword around top ↔
    s.Returns keyword around top ∨ ∃ u ∈ no, u.Returns keyword around top := by
  rw [returns_iff]; simp [openParts, parts]

@[simp]
theorem returns_loop : (loop e s).Returns keyword around top ↔ s.Returns keyword around top := by
  rw [returns_iff]; simp [openParts, parts]

/-- Inside a declared function a function body is around, whatever was around the declaration. -/
@[simp]
theorem returns_function {parameters : List Token} :
    (function name parameters body).Returns keyword around top ↔ ∃ u ∈ body, u.Returns keyword true top := by
  constructor
  · intro returns
    cases returns with
    | part listed => cases listed
    | body listed inner => exact ⟨_, listed, inner⟩
  · rintro ⟨u, listed, inner⟩
    exact .body listed inner

/-- A `return` itself counts as one at the top exactly when no function body is around it. This is the case that
all others pass on. -/
@[simp]
theorem returns_return : (Stmt.return t value).Returns keyword around top ↔
    t = keyword ∧ top = !around := by
  rw [returns_iff]; simp [openParts, parts]

/-- The loop that stands for a `for` statement returns only where its body does, since clauses hold
no `return`. -/
theorem returns_forLoop {initial : Option Stmt} {condition increment : Option Expr}
    (first : ∀ u ∈ initial, ¬ u.Returns keyword around top) :
    (forLoop initial condition increment s).Returns keyword around top ↔ s.Returns keyword around top := by
  unfold forLoop
  cases increment <;> cases initial <;> simp_all

end

/-- A statement lies in the body of a function that is declared in another one. -/
def InFunction (t s : Stmt) : Prop :=
  ∃ name parameters body, (Stmt.function name parameters body).Within s ∧ ∃ u ∈ body, t.Within u

/-- What lies in a function body inside a part lies in one inside the whole. -/
theorem InFunction.deeper {t s u : Stmt} (part : u ∈ s.parts) (inside : t.InFunction u) : t.InFunction s := by
  obtain ⟨name, parameters, body, within, found⟩ := inside
  exact ⟨name, parameters, body, .deeper part within, found⟩

/-- A `return` is inside a function body or it counts as one at the top. So the two readings of its place, by
the tree and by what is around, cover all cases. -/
theorem Within.returns {keyword : Token} {value : Option Expr} {s : Stmt}
    (within : (Stmt.return keyword value).Within s) :
    (Stmt.return keyword value).InFunction s ∨ s.Returns keyword false true := by
  induction within with
  | here => exact .inr .here
  | @deeper s u part inner ih =>
      cases s with
      | function name parameters body => exact .inl ⟨name, parameters, body, .here, u, part, inner⟩
      | block | branch | loop => exact ih.imp (.deeper part) (.part part)
      | expression | print | var | «return» | misplaced => cases part

/-- With a function body around, no `return` counts as one at the top. -/
theorem Within.returns_false {keyword : Token} {value : Option Expr} {s : Stmt}
    (within : (Stmt.return keyword value).Within s) : s.Returns keyword true false := by
  induction within with
  | here => exact .here
  | @deeper s u part inner ih =>
      cases s with
      | function name parameters body => exact .body part ih
      | block | branch | loop => exact .part part ih
      | expression | print | var | «return» | misplaced => cases part

/-- A `return` in a function body is not at the top, whatever is around the statement. -/
theorem InFunction.returns {keyword : Token} {value : Option Expr} {s : Stmt}
    (inside : (Stmt.return keyword value).InFunction s) (around : Bool) :
    s.Returns keyword around false := by
  obtain ⟨name, parameters, body, within, u, listed, inner⟩ := inside
  induction within generalizing around with
  | here => exact .body listed inner.returns_false
  | @deeper s u part _ ih =>
      cases s with
      | function name parameters body => exact .body part (ih true)
      | block | branch | loop => exact .part part (ih around)
      | expression | print | var | «return» | misplaced => cases part

end Stmt

namespace Cursor

/-- The report of a `return` outside every function body. -/
def returnReport (t : Token) : Diagnostic := .atToken t SyntaxFault.topLevelReturn.message

/-- No two of the tokens left would be reported alike, and none of them has been. -/
structure Unreported (c : Cursor) : Prop where
  distinct : c.rest.Pairwise fun t u => returnReport t ≠ returnReport u
  fresh : ∀ t ∈ c.rest, returnReport t ∉ c.reported

/-- A later state of the same reading, in which only tokens read since then have been reported as
misplaced returns. -/
structure Passes (c d : Cursor) : Prop extends Follows c d where
  flagged : ∀ t, returnReport t ∈ d.reported →
    returnReport t ∈ c.reported ∨ ∃ u ∈ c.rest, returnReport u = returnReport t

/-- The token is read, and whether it was reported is as `top` says. -/
structure Settled (t : Token) (top : Bool) (c : Cursor) : Prop where
  past : ∀ u ∈ c.rest, returnReport u ≠ returnReport t
  reported : returnReport t ∈ c.reported ↔ top = true

variable {c d e : Cursor}

theorem Passes.refl (c : Cursor) : c.Passes c := ⟨.refl c, fun _ => .inl⟩

/-- In two steps too, every new report of a `return` names a token that was ahead at the start. -/
theorem Passes.trans (first : c.Passes d) (second : d.Passes e) : c.Passes e := by
  refine ⟨first.toFollows.trans second.toFollows, fun t listed => ?_⟩
  rcases second.flagged t listed with before | ⟨u, left, same⟩
  · exact first.flagged t before
  · exact .inr ⟨u, first.rest.mem left, same⟩

/-- What is settled stays settled: the token is no longer ahead, and later reports of a `return` are about
tokens ahead only. -/
theorem Settled.later {t : Token} {top : Bool} (settled : Settled t top c) (later : c.Passes d) :
    Settled t top d := by
  constructor
  · exact fun u left => settled.past u (later.rest.mem left)
  · rw [← settled.reported]
    constructor
    · intro listed
      rcases later.flagged t listed with before | ⟨u, left, same⟩
      · exact before
      · exact absurd same (settled.past u left)
    · intro listed
      simpa using later.reported.mem (by simpa using listed)

/-- Dropping tokens leaves fewer that could have been reported. -/
theorem Unreported.suffix (unreported : c.Unreported) {rest : List Token} (later : rest <:+ c.rest) :
    ({ c with rest := rest } : Cursor).Unreported :=
  ⟨unreported.distinct.sublist later.sublist, fun t left => unreported.fresh t (later.mem left)⟩

/-- Dropping tokens unread adds no report, and leaves fewer tokens to report. -/
theorem passes_suffix {rest : List Token} (later : rest <:+ c.rest) : c.Passes { c with rest := rest } :=
  ⟨⟨later, rfl, List.prefix_refl _⟩, fun _ => .inl⟩

theorem message_atToken (t : Token) (message : String) :
    (Diagnostic.atToken t message).message = message := by
  unfold Diagnostic.atToken
  split <;> rfl

/-- A fault at the next token has its own message wherever the cursor stands, at the end of the input too. -/
theorem message_faultHere (c : Cursor) (fault : SyntaxFault) : (c.faultHere fault).message = fault.message := by
  unfold faultHere
  split
  · rfl
  · exact message_atToken _ _

/-- Reports of any other fault do not matter for whether a `return` was reported, since their
messages differ. -/
theorem mem_report_iff {t : Token} {diagnostic : Diagnostic}
    (other : diagnostic.message ≠ SyntaxFault.topLevelReturn.message) :
    returnReport t ∈ (c.report diagnostic).reported ↔ returnReport t ∈ c.reported := by
  have differs : returnReport t ≠ diagnostic := by
    rintro rfl
    exact other (message_atToken _ _)
  simp [report, Array.mem_push, differs]

/-- A report of another fault is not a report of a `return`, so all tokens ahead stay unreported. -/
theorem Unreported.report (unreported : c.Unreported) (diagnostic : Diagnostic)
    (other : diagnostic.message ≠ SyntaxFault.topLevelReturn.message) :
    (c.report diagnostic).Unreported ∧ c.Passes (c.report diagnostic) := by
  refine ⟨⟨unreported.distinct, fun t left => ?_⟩, ⟨c.follows_report _, fun t listed => ?_⟩⟩
  · rw [mem_report_iff other]
    exact unreported.fresh t left
  · exact .inl ((mem_report_iff other).mp listed)

/-- The keyword that was read last is settled by reporting it or by not reporting it. No other token ahead would
be reported alike, so the reports that follow cannot undo this. -/
theorem Unreported.settle (unreported : c.Unreported) {t : Token} {rest : List Token}
    (found : c.rest = t :: rest) : Settled t false { c with rest := rest } ∧
      let d := ({ c with rest := rest } : Cursor).report (returnReport t)
      d.Unreported ∧ c.Passes d ∧ Settled t true d := by
  have later : rest <:+ c.rest := found ▸ List.suffix_cons t rest
  have others : ∀ u ∈ rest, returnReport u ≠ returnReport t := by
    intro u left same
    have distinct := unreported.distinct
    rw [found, List.pairwise_cons] at distinct
    exact distinct.1 u left same.symm
  have fresh := unreported.fresh t (by simp [found])
  refine ⟨⟨others, by simp [fresh]⟩, ⟨?_, ?_⟩, ⟨?_, ?_⟩, ⟨others, ?_⟩⟩
  · exact (unreported.suffix later).distinct
  · intro u left listed
    rcases Array.mem_push.mp listed with before | same
    · exact unreported.fresh u (later.mem left) before
    · exact others u left same
  · exact (passes_suffix later).toFollows.trans (follows_report _ _)
  · intro u listed
    rcases Array.mem_push.mp listed with before | same
    · exact .inl before
    · exact .inr ⟨t, by simp [found], same.symm⟩
  · simp [Cursor.report]

/-- Skipping reports nothing and only drops tokens, so it settles nothing and unsettles nothing. -/
theorem Unreported.synchronize (unreported : c.Unreported) :
    c.synchronize.Unreported ∧ c.Passes c.synchronize := by
  unfold Cursor.synchronize
  split
  · exact ⟨unreported, .refl c⟩
  next t rest found =>
    have later : skipAfter t.kind rest <:+ c.rest := by
      rw [found]
      exact (skipAfter_suffix t.kind rest).trans (List.suffix_cons t rest)
    exact ⟨unreported.suffix later, passes_suffix later⟩

end Cursor

namespace Parse

open Cursor

variable {α β : Type}

/-- Keywords, and whether each has to be reported. -/
abbrev Keywords (α : Type) := α → Token → Bool → Prop

/-- An outcome of reading on from `c` that has settled the keywords of its result. -/
def Minded (F : Keywords α) (c : Cursor) : Outcome α → Prop
  | .ok a d => d.Unreported ∧ c.Passes d ∧ ∀ t top, F a t top → Settled t top d
  | .error _ d => d.Unreported ∧ c.Passes d

/-- A reader that settles the keywords of its result. -/
def Minds (F : Keywords α) (p : Parse α) : Prop := ∀ c, c.Unreported → Minded F c (p c)

/-- A reader that reports no `return`. -/
abbrev Quiet (p : Parse α) : Prop := Minds (fun _ _ _ => False) p

/-- Tokens may be passed over before the reading begins: what holds of the reading from there on holds of it
from the start. -/
theorem Minded.trans {F : Keywords α} {c d : Cursor} {r : Outcome α} (first : c.Passes d)
    (minded : Minded F d r) : Minded F c r := by
  cases r with
  | ok a e => exact ⟨minded.1, first.trans minded.2.1, minded.2.2⟩
  | error e f => exact ⟨minded.1, first.trans minded.2⟩

/-- A reader that settles more keywords settles fewer ones too. -/
theorem Minds.mono {F G : Keywords α} {p : Parse α} (minds : Minds F p)
    (fewer : ∀ a t top, G a t top → F a t top) : Minds G p := by
  intro c unreported
  have read := minds c unreported
  cases result : p c with
  | ok a d =>
      rw [result] at read
      exact ⟨read.1, read.2.1, fun t top due => read.2.2 t top (fewer a t top due)⟩
  | error e d =>
      rw [result] at read
      exact read

/-- Reading on. The next reader has to settle what is not settled yet. -/
theorem Minded.bind {F : Keywords α} {G : Keywords β} {q : Parse β} {c d : Cursor} {a : α}
    (started : Minded F c (.ok a d)) (next : Minds (fun b t top => G b t top ∧ ¬ F a t top) q) :
    Minded G c (q d) := by
  obtain ⟨unreported, passes, settled⟩ := started
  have continued := next d unreported
  cases result : q d with
  | error e f =>
      rw [result] at continued
      exact continued.trans passes
  | ok b f =>
      rw [result] at continued
      obtain ⟨unreported', passes', settled'⟩ := continued
      refine ⟨unreported', passes.trans passes', fun t top due => ?_⟩
      by_cases before : F a t top
      · exact (settled t top before).later passes'
      · exact settled' t top ⟨due, before⟩

/-- Sequencing. The second reader has to settle the keywords of the whole that the first one left. -/
theorem Minds.bind {F : Keywords α} {G : Keywords β} {p : Parse α} {q : α → Parse β} (first : Minds F p)
    (next : ∀ a, Minds (fun b t top => G b t top ∧ ¬ F a t top) (q a)) : Minds G (p >>= q) := by
  intro c unreported
  rw [bind_apply]
  have started := first c unreported
  cases computed : p c with
  | error e d =>
      rw [computed] at started
      exact started
  | ok a d =>
      rw [computed] at started
      exact started.bind (next a)

/-- A result without keywords needs no report, and a result that is given without reading makes none. -/
theorem Minds.pure {F : Keywords α} {a : α} (nothing : ∀ t top, ¬ F a t top) :
    Minds F (Pure.pure a : Parse α) :=
  fun c unreported => ⟨unreported, .refl c, fun t top due => absurd due (nothing t top)⟩

/-- Sequencing after a reader that reports no `return`. This is the law for everything but statements inside
of statements. -/
theorem Minds.after {G : Keywords β} {p : Parse α} {q : α → Parse β} (quiet : Quiet p)
    (next : ∀ a, Minds G (q a)) : Minds G (p >>= q) :=
  quiet.bind fun a => (next a).mono fun _ _ _ due => due.1

/-- Changing the result is harmless when no keyword is added by it. -/
theorem Minds.map {F : Keywords α} {G : Keywords β} {f : α → β} {p : Parse α} (minds : Minds F p)
    (fewer : ∀ a t top, G (f a) t top → F a t top) : Minds G (f <$> p) := by
  rw [map_eq_pure_bind]
  exact minds.bind fun a => .pure fun t top due => due.2 (fewer a t top due.1)

theorem message_ne {fault : SyntaxFault} (other : fault ≠ .topLevelReturn) :
    fault.message ≠ SyntaxFault.topLevelReturn.message := by
  cases fault <;> first | exact absurd rfl other | decide

/-- Accepting a token reports nothing, whatever the token is. -/
theorem accept?_quiet (kinds : List TokenKind) : Quiet (accept? kinds) := by
  intro c unreported
  cases found : c.rest with
  | nil =>
      rw [accept?_nil found]
      exact ⟨unreported, .refl c, fun _ _ => False.elim⟩
  | cons t rest =>
      rw [accept?_cons found]
      have later : rest <:+ c.rest := found ▸ List.suffix_cons t rest
      split
      · exact ⟨unreported.suffix later, passes_suffix later, fun _ _ => False.elim⟩
      · exact ⟨unreported, .refl c, fun _ _ => False.elim⟩

/-- What is read behind the first token of `c` settles the keywords of its result, that token included. -/
def MindsBehind (F : Keywords α) (c : Cursor) (rest : List Token) (p : Parse α) : Prop :=
  Minded F c (p { c with rest := rest })

/-- A reader that minds all keywords also does so behind a token that was just accepted. -/
theorem Minds.behind {F : Keywords α} {p : Parse α} (minds : Minds F p) {c : Cursor}
    (unreported : c.Unreported) {t : Token} {rest : List Token} (found : c.rest = t :: rest) :
    MindsBehind F c rest p := by
  have later : rest <:+ c.rest := found ▸ List.suffix_cons t rest
  exact (minds _ (unreported.suffix later)).trans (passes_suffix later)

/-- After an accepted token, that token is the one keyword that may still have to be settled; this is how
`return` is read. -/
theorem Minds.accept? {F : Keywords β} {kinds : List TokenKind} {q : Option Token → Parse β}
    (without : Minds F (q none))
    (accepted : ∀ t rest c, c.Unreported → c.rest = t :: rest → MindsBehind F c rest (q (some t))) :
    Minds F (accept? kinds >>= q) := by
  intro c unreported
  rw [bind_apply]
  cases found : c.rest with
  | nil =>
      rw [accept?_nil found]
      exact without c unreported
  | cons t rest =>
      rw [accept?_cons found]
      by_cases listed : t.kind ∈ kinds
      · rw [if_pos listed]
        exact accepted t rest c unreported found
      · rw [if_neg listed]
        exact without c unreported

/-- Only the rule of `return` itself reports one. Every other step is quiet, so all expressions are,
by `Inherited`. -/
theorem quiet_inherited : Inherited fun _ p => Quiet p where
  pure a := .pure fun _ _ => id
  bind first next := .after first next
  tooDeep c unreported := ⟨unreported, .refl c⟩
  fail other c unreported := unreported.report _ (by rw [message_faultHere]; exact message_ne other)
  report t other c unreported := by
    obtain ⟨unreported', passes⟩ := unreported.report (.atToken t _)
      (by rw [message_atToken]; exact message_ne other)
    exact ⟨unreported', passes, fun _ _ => False.elim⟩
  reportHere other c unreported := by
    obtain ⟨unreported', passes⟩ := unreported.report (c.faultHere _)
      (by rw [message_faultHere]; exact message_ne other)
    exact ⟨unreported', passes, fun _ _ => False.elim⟩
  accept? := accept?_quiet
  nextIs kind c unreported := by
    unfold nextIs
    split <;> exact ⟨unreported, .refl c, fun _ _ => False.elim⟩
  remaining c unreported := ⟨unreported, .refl c, fun _ _ => False.elim⟩

/-! ### Statements -/

/-- The keywords of the statements in a result that may be missing. -/
abbrev Keywords.option (F : Keywords α) : Keywords (Option α) := fun o t top => ∃ a ∈ o, F a t top

/-- The keywords of the statements in a list. -/
abbrev Keywords.list (F : Keywords α) : Keywords (List α) := fun as t top => ∃ a ∈ as, F a t top

/-- The keywords of a statement, with a function body around it or not. -/
abbrev keywords (around : Bool) : Keywords Stmt := fun s t top => s.Returns t around top

theorem afterSign_minds {F : Keywords α} {p : Parse α} (kind : TokenKind) (minds : Minds F p) :
    Minds F.option (afterSign kind p) := by
  apply Minds.after (accept?_quiet [kind])
  intro o
  cases o with
  | none => exact .pure (by simp)
  | some t => exact minds.map (by simp)

/-- A declaration that is skipped gives no statement, so nothing has to be settled for it. -/
theorem recovering_minds {F : Keywords α} {p : Parse α} (minds : Minds F p) :
    Minds F.option (recovering p) := by
  intro c unreported
  have read := minds c unreported
  unfold recovering
  cases result : p c with
  | ok a d =>
      rw [result] at read
      exact ⟨read.1, read.2.1, by simpa using read.2.2⟩
  | error e d =>
      rw [result] at read
      cases e with
      | tooDeep => exact read
      | malformed =>
          obtain ⟨unreported', passes⟩ := read.1.synchronize
          exact ⟨unreported', read.2.trans passes, by simp⟩

section Statements

variable {around : Bool} {expr : Parse Expr} {body : Parse Stmt}

theorem expressionStatement_minds (quiet : Quiet expr) :
    Minds (keywords around) (expressionStatement expr) := by
  apply Minds.after quiet
  intro e
  exact .after (quiet_inherited.expect _ (by decide)) fun _ => .pure (by simp)

theorem varRest_minds (quiet : Quiet expr) : Minds (keywords around) (varRest expr) := by
  apply Minds.after (quiet_inherited.expect _ (by decide))
  intro name
  apply Minds.after ((afterSign_minds .equal quiet).mono (by simp))
  intro initial
  exact .after (quiet_inherited.expect _ (by decide)) fun _ => .pure (by simp)

/-- The first clause of a `for` loop holds no `return`, being a declaration of a variable or an expression. -/
theorem forInitial_minds (quiet : Quiet expr) : Minds (keywords around).option (forInitial expr) := by
  apply Minds.after (accept?_quiet _)
  intro o
  cases o with
  | none =>
      have read : Minds (keywords around) (expressionStatement expr) := expressionStatement_minds quiet
      exact read.map (by simp)
  | some t =>
      dsimp only
      split
      · exact .pure (by simp)
      · have read : Minds (keywords around) (varRest expr) := varRest_minds quiet
        exact read.map (by simp)

/-- Only the body of a `for` loop can hold a `return`; its clauses are expressions. -/
theorem forRest_minds (quiet : Quiet expr) (minds : Minds (keywords around) body) :
    Minds (keywords around) (forRest expr body) := by
  apply Minds.after (quiet_inherited.expect _ (by decide))
  intro _
  apply (forInitial_minds quiet).bind
  intro initial
  apply Minds.after (quiet_inherited.unlessNext _ quiet)
  intro condition
  apply Minds.after (quiet_inherited.expect _ (by decide))
  intro _
  apply Minds.after (quiet_inherited.unlessNext _ quiet)
  intro increment
  apply Minds.after (quiet_inherited.expect _ (by decide))
  intro _
  apply minds.bind
  intro s
  apply Minds.pure
  rintro t top ⟨⟨due, notInitial⟩, notBody⟩
  have first : ∀ u ∈ initial, ¬ u.Returns t around top := fun u member inFirst =>
    notInitial ⟨u, member, inFirst⟩
  exact notBody ((Stmt.returns_forLoop first).mp due)

/-- The two arms settle their own keywords, one after the other. The keywords of the first arm are behind when
the second one is read, so they stay settled. -/
theorem ifRest_minds (quiet : Quiet expr) (minds : Minds (keywords around) body) :
    Minds (keywords around) (ifRest expr body) := by
  apply Minds.after (quiet_inherited.expect _ (by decide))
  intro _
  apply Minds.after quiet
  intro condition
  apply Minds.after (quiet_inherited.expect _ (by decide))
  intro _
  apply minds.bind
  intro yes
  apply (afterSign_minds _ minds).bind
  intro no
  apply Minds.pure
  rintro t top ⟨⟨due, notYes⟩, notNo⟩
  rcases Stmt.returns_branch.mp due with inYes | inNo
  · exact notYes inYes
  · exact notNo inNo

theorem printRest_minds (quiet : Quiet expr) : Minds (keywords around) (printRest expr) := by
  apply Minds.after quiet
  intro e
  exact .after (quiet_inherited.expect _ (by decide)) fun _ => .pure (by simp)

/-- The keyword of a `return` is settled when it has been read: it is reported at once, before its value, if no
function body is around. -/
theorem returnRest_minds (quiet : Quiet expr) {c : Cursor} (unreported : c.Unreported) {keyword : Token}
    {rest : List Token} (found : c.rest = keyword :: rest) :
    MindsBehind (keywords around) c rest (returnRest around keyword expr) := by
  obtain ⟨silent, reported⟩ := unreported.settle found
  have others : Minds (fun s t top => Stmt.Returns t around top s ∧ ¬ (t = keyword ∧ top = !around)) (do
      let value ← unlessNext .semicolon expr
      let _ ← expect .semicolon .semicolonAfterReturned
      return .return keyword value) := by
    apply Minds.after (quiet_inherited.unlessNext _ quiet)
    intro value
    apply Minds.after (quiet_inherited.expect _ (by decide))
    intro _
    apply Minds.pure
    rintro t top ⟨due, other⟩
    obtain ⟨rfl, same⟩ := Stmt.returns_return.mp due
    exact other ⟨rfl, same⟩
  cases around with
  | false =>
      have started : Minded (fun _ t top => t = keyword ∧ top = !false) c
          (.ok () (Cursor.report { c with rest := rest } (returnReport keyword))) := by
        refine ⟨reported.1, reported.2.1, ?_⟩
        rintro t top ⟨rfl, rfl⟩
        exact reported.2.2
      exact started.bind others
  | true =>
      have later : rest <:+ c.rest := found ▸ List.suffix_cons keyword rest
      have started : Minded (fun _ t top => t = keyword ∧ top = !true) c (.ok () { c with rest := rest }) := by
        refine ⟨unreported.suffix later, passes_suffix later, ?_⟩
        rintro t top ⟨rfl, rfl⟩
        exact silent
      exact started.bind others

theorem whileRest_minds (quiet : Quiet expr) (minds : Minds (keywords around) body) :
    Minds (keywords around) (whileRest expr body) := by
  apply Minds.after (quiet_inherited.expect _ (by decide))
  intro _
  apply Minds.after quiet
  intro condition
  apply Minds.after (quiet_inherited.expect _ (by decide))
  intro _
  apply minds.bind
  intro s
  apply Minds.pure
  rintro t top ⟨due, notBody⟩
  exact notBody (Stmt.returns_loop.mp due)

end Statements

section Declarations

variable {around : Bool} {declaration : Parse (Option Stmt)}

/-- A row of declarations settles the keywords of each. By induction over the turns, later ones being unreported
when their turn comes. -/
theorem declarationsUpTo_minds (stop : Option TokenKind) (minds : Minds (keywords around).option declaration)
    (fuel : Nat) : Minds (keywords around).list (declarationsUpTo stop declaration fuel) := by
  induction fuel with
  | zero => exact .pure (by simp)
  | succ fuel ih =>
      have turn : Minds (keywords around).list (do
          let first ← declaration
          let more ← declarationsUpTo stop declaration fuel
          return first.toList ++ more) := by
        apply minds.bind
        intro first
        apply (ih.mono fun _ _ _ due => due).bind
        intro more
        apply Minds.pure
        rintro t top ⟨⟨⟨s, listed, due⟩, notFirst⟩, notMore⟩
        rcases List.mem_append.mp listed with here | later
        · exact notFirst ⟨s, by simpa using here, due⟩
        · exact notMore ⟨s, later, due⟩
      intro c unreported
      unfold declarationsUpTo
      split
      · exact ⟨unreported, .refl c, by simp⟩
      · split
        · exact ⟨unreported, .refl c, by simp⟩
        · exact turn c unreported

theorem blockBody_minds (minds : Minds (keywords around).option declaration) :
    Minds (keywords around).list (blockBody declaration) := by
  apply Minds.after quiet_inherited.remaining
  intro fuel
  apply (declarationsUpTo_minds _ minds fuel).bind
  intro body
  apply Minds.after (quiet_inherited.expect _ (by decide))
  intro _
  exact .pure fun t top due => due.2 due.1

/-- The body of a function is read with a function body around, so none of its keywords is reported. -/
theorem functionRest_minds (minds : Minds (keywords true).option declaration) :
    Minds (keywords around) (functionRest declaration) := by
  apply Minds.after (quiet_inherited.expect _ (by decide))
  intro name
  apply Minds.after (quiet_inherited.expect _ (by decide))
  intro _
  apply Minds.after (quiet_inherited.items (by decide) (by decide) (quiet_inherited.expect _ (by decide)))
  intro parameters
  apply Minds.after (quiet_inherited.expect _ (by decide))
  intro _
  apply (blockBody_minds minds).bind
  intro body
  apply Minds.pure
  rintro t top ⟨due, notBody⟩
  exact notBody (Stmt.returns_function.mp due)

end Declarations

/-- Every declaration and every statement settles its keywords, at any depth and whether or not a function body
is around. By induction over the depth. -/
theorem declaration_statement_minds (depth : Nat) :
    (∀ around, Minds (keywords around).option (declaration depth around)) ∧
      ∀ around, Minds (keywords around) (statement depth around) := by
  induction depth with
  | zero => exact ⟨fun _ c unreported => ⟨unreported, .refl c⟩, fun _ c unreported => ⟨unreported, .refl c⟩⟩
  | succ depth ih =>
      obtain ⟨declared, stated⟩ := ih
      have quiet : Quiet (expression depth .assignment) := quiet_inherited.expression depth .assignment
      constructor
      · intro around
        apply recovering_minds
        apply Minds.after (accept?_quiet _)
        intro o
        cases o with
        | none => exact stated around
        | some t =>
            dsimp only
            split
            · exact functionRest_minds (declared true)
            · exact varRest_minds quiet
      · intro around
        apply Minds.accept? (expressionStatement_minds quiet)
        intro t rest c unreported found
        dsimp only
        split
        · exact (forRest_minds quiet (stated around)).behind unreported found
        · exact (ifRest_minds quiet (stated around)).behind unreported found
        · exact (printRest_minds quiet).behind unreported found
        · exact returnRest_minds quiet unreported found
        · exact (whileRest_minds quiet (stated around)).behind unreported found
        · exact ((blockBody_minds (declared around)).map (by simp)).behind unreported found

end Parse

/-- **Every keyword is settled.** In what was read, a `return` is reported if and only if no function body is
around it, provided that no two tokens would be reported alike. -/
theorem Program.ofTokens_settles {depth : Nat} {tokens : List Token} {p : Program}
    (read : ofTokens depth tokens = some p)
    (distinct : (cursor tokens).rest.Pairwise fun t u => Cursor.returnReport t ≠ Cursor.returnReport u)
    {s : Stmt} (listed : s ∈ p.statements) {t : Token} {top : Bool} (returns : s.Returns t false top) :
    Cursor.returnReport t ∈ p.faults ↔ top = true := by
  have unreported : (cursor tokens).Unreported := ⟨distinct, by simp [cursor]⟩
  have minded := Parse.declarationsUpTo_minds none ((Parse.declaration_statement_minds depth).1 false)
    (cursor tokens).rest.length (cursor tokens) unreported
  unfold ofTokens at read
  cases result : Parse.declarationsUpTo none (Parse.declaration depth false) (cursor tokens).rest.length
      (cursor tokens) with
  | error e c => simp [result] at read
  | ok statements c =>
      rw [result] at minded
      simp only [result, Option.some.injEq] at read
      subst read
      have settled := (minded.2.2 t top ⟨s, listed, returns⟩).reported
      simpa using settled

end Treewalk

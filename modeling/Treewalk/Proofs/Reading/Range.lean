import Treewalk.Proofs.Reading.Depth
import Treewalk.Proofs.Reading.Walk

/-!
Reading ends and stays inside the list of tokens, whatever the tokens are. Every reader is made of single
steps, so that it can walk over the list by position (`Reader.walk`). The loops need no bound on their
turns: every turn takes a token, and a turn over a declaration does so even where the declaration is
malformed and only skipped.
-/

namespace Treewalk

namespace Parse

/-! ### Declarations and statements are made of steps -/

/-- A property that all steps have and sequencing keeps, the report of a `return` outside every function
body and the turns of a loop over declarations included. -/
structure InheritedByAll (H : (α : Type) → Parse α → Prop) : Prop extends Inherited H where
  report_return (t : Token) : H Unit (Parse.report t .topLevelReturn)
  turn (stop : Option TokenKind) {p : Parse Stmt} : H Stmt p → H (Option (Option Stmt)) (Parse.turn stop p)

/-- What a loop over declarations does after one turn, `rest` being the turns after it. -/
def afterTurn (rest : Parse (List Stmt)) : Option (Option Stmt) → Parse (List Stmt)
  | none => return []
  | some first => do
    let more ← rest
    return first.toList ++ more

/-- A loop over declarations is one turn and what comes after it. The turn is a step of its own, since it looks
for the stop, reads and recovers. -/
theorem declarationsUpTo_succ (stop : Option TokenKind) (p : Parse Stmt) (fuel : Nat) :
    declarationsUpTo stop (recovering p) (fuel + 1) =
      turn stop p >>= afterTurn (declarationsUpTo stop (recovering p) fuel) := by
  funext c
  rw [bind_apply]
  cases found : c.rest with
  | nil =>
      simp only [declarationsUpTo, turn, found]
      rfl
  | cons t rest =>
      simp only [declarationsUpTo, turn, found]
      by_cases stopped : stop = some t.kind
      · rw [if_pos stopped, if_pos (by simp [stopped])]
        rfl
      · have going : ¬ (t :: rest).head?.map Token.kind ∈ [none, stop] := by
          simpa using fun same => stopped same.symm
        rw [if_neg stopped, if_neg going, bind_apply, bind_apply]
        cases recovering p c <;> rfl

namespace InheritedByAll

variable {H : (α : Type) → Parse α → Prop} (inherited : InheritedByAll H) {α : Type} {expr : Parse Expr}
  {body : Parse Stmt}

include inherited

theorem afterSign {p : Parse α} (kind : TokenKind) (holds : H α p) : H (Option α) (afterSign kind p) := by
  apply inherited.bind (inherited.accept? [kind])
  intro o
  cases o with
  | none => exact inherited.pure none
  | some t => exact inherited.map some holds

theorem expressionStatement (holds : H Expr expr) : H Stmt (expressionStatement expr) := by
  apply inherited.bind holds
  intro e
  exact inherited.bind (inherited.expect _ (by decide)) fun _ => inherited.pure _

theorem varRest (holds : H Expr expr) : H Stmt (varRest expr) := by
  apply inherited.bind (inherited.expect _ (by decide))
  intro name
  apply inherited.bind (inherited.afterSign _ holds)
  intro initial
  exact inherited.bind (inherited.expect _ (by decide)) fun _ => inherited.pure _

/-- The first clause of a `for` loop, by its three forms. Each of them is a row of steps with at most
one expression. -/
theorem forInitial (holds : H Expr expr) : H (Option Stmt) (forInitial expr) := by
  apply inherited.bind (inherited.accept? _)
  intro o
  cases o with
  | none => exact inherited.map some (inherited.expressionStatement holds)
  | some t =>
      dsimp only
      split
      · exact inherited.pure none
      · exact inherited.map some (inherited.varRest holds)

/-- A `for` loop is a sequence of steps, its clauses and its body; each has the property, and sequencing keeps
it. -/
theorem forRest (holds : H Expr expr) (repeated : H Stmt body) : H Stmt (forRest expr body) := by
  apply inherited.bind (inherited.expect _ (by decide))
  intro _
  apply inherited.bind (inherited.forInitial holds)
  intro initial
  apply inherited.bind (inherited.unlessNext _ holds)
  intro condition
  apply inherited.bind (inherited.expect _ (by decide))
  intro _
  apply inherited.bind (inherited.unlessNext _ holds)
  intro increment
  apply inherited.bind (inherited.expect _ (by decide))
  intro _
  exact inherited.bind repeated fun s => inherited.pure _

/-- A branch is a sequence of steps around its two arms, and the second arm is there only behind its sign. -/
theorem ifRest (holds : H Expr expr) (branch : H Stmt body) : H Stmt (ifRest expr body) := by
  apply inherited.bind (inherited.expect _ (by decide))
  intro _
  apply inherited.bind holds
  intro condition
  apply inherited.bind (inherited.expect _ (by decide))
  intro _
  apply inherited.bind branch
  intro yes
  exact inherited.bind (inherited.afterSign _ branch) fun no => inherited.pure _

theorem printRest (holds : H Expr expr) : H Stmt (printRest expr) := by
  apply inherited.bind holds
  intro e
  exact inherited.bind (inherited.expect _ (by decide)) fun _ => inherited.pure _

/-- A `return` may report its keyword, which is why that report is among the steps. -/
theorem returnRest (f : Bool) (keyword : Token) (holds : H Expr expr) :
    H Stmt (returnRest f keyword expr) := by
  have reporting : H Unit (reportIf (!f) (Parse.report keyword .topLevelReturn)) := by
    cases f with
    | true => exact inherited.pure ()
    | false => exact inherited.report_return keyword
  apply inherited.bind reporting
  intro _
  apply inherited.bind (inherited.unlessNext _ holds)
  intro value
  exact inherited.bind (inherited.expect _ (by decide)) fun _ => inherited.pure _

theorem whileRest (holds : H Expr expr) (repeated : H Stmt body) : H Stmt (whileRest expr body) := by
  apply inherited.bind (inherited.expect _ (by decide))
  intro _
  apply inherited.bind holds
  intro condition
  apply inherited.bind (inherited.expect _ (by decide))
  intro _
  exact inherited.bind repeated fun s => inherited.pure _

/-- A loop over declarations has the property when one of its turns has it. By induction over the turns. -/
theorem declarationsUpTo (stop : Option TokenKind) (holds : H Stmt body) (fuel : Nat) :
    H (List Stmt) (declarationsUpTo stop (recovering body) fuel) := by
  induction fuel with
  | zero => exact inherited.pure []
  | succ fuel ih =>
      rw [declarationsUpTo_succ]
      apply inherited.bind (inherited.turn stop holds)
      intro o
      cases o with
      | none => exact inherited.pure []
      | some first => exact inherited.bind ih fun more => inherited.pure _

theorem blockBody (holds : H Stmt body) : H (List Stmt) (blockBody (recovering body)) := by
  apply inherited.bind inherited.remaining
  intro fuel
  apply inherited.bind (inherited.declarationsUpTo _ holds fuel)
  intro found
  exact inherited.bind (inherited.expect _ (by decide)) fun _ => inherited.pure _

theorem functionRest (holds : H Stmt body) : H Stmt (functionRest (recovering body)) := by
  apply inherited.bind (inherited.expect _ (by decide))
  intro name
  apply inherited.bind (inherited.expect _ (by decide))
  intro _
  apply inherited.bind (inherited.items (by decide) (by decide) (inherited.expect _ (by decide)))
  intro parameters
  apply inherited.bind (inherited.expect _ (by decide))
  intro _
  exact inherited.bind (inherited.blockBody holds) fun found => inherited.pure _

/-- What all steps have and sequencing keeps holds of every declaration and every statement. By induction over
the depth. -/
theorem declared_statement (depth : Nat) :
    (∀ f, H Stmt (declared depth f)) ∧ ∀ f, H Stmt (statement depth f) := by
  induction depth with
  | zero => exact ⟨fun _ => inherited.tooDeep, fun _ => inherited.tooDeep⟩
  | succ depth ih =>
      obtain ⟨declares, states⟩ := ih
      have expr := inherited.expression depth .assignment
      constructor
      · intro f
        apply inherited.bind (inherited.accept? _)
        intro o
        cases o with
        | none => exact states f
        | some t =>
            dsimp only
            split
            · rw [declaration_eq]
              exact inherited.functionRest (declares true)
            · exact inherited.varRest expr
      · intro f
        apply inherited.bind (inherited.accept? _)
        intro o
        cases o with
        | none => exact inherited.expressionStatement expr
        | some t =>
            dsimp only
            split
            · exact inherited.forRest expr (states f)
            · exact inherited.ifRest expr (states f)
            · exact inherited.printRest expr
            · exact inherited.returnRest f t expr
            · exact inherited.whileRest expr (states f)
            · rw [declaration_eq]
              exact inherited.map _ (inherited.blockBody (declares f))

end InheritedByAll

/-- Every reader is made of steps. What inherits from the steps includes being put together from them, so each
reader of the grammar has a `Reader` that it is the meaning of. -/
theorem steps_inherited : InheritedByAll fun α p => ∃ r : Reader α, r.read = p where
  pure a := ⟨.pure a, rfl⟩
  bind := by
    rintro α β p q ⟨r, rfl⟩ next
    have same (a : α) : (next a).choose.read = q a := (next a).choose_spec
    refine ⟨.bind r fun a => (next a).choose, ?_⟩
    simp only [Reader.read, same]
  tooDeep := ⟨.tooDeep, rfl⟩
  fail {_ fault} _ := ⟨.fail fault, rfl⟩
  report {fault} t _ := ⟨.report t fault, rfl⟩
  reportHere {fault} _ := ⟨.reportHere fault, rfl⟩
  accept? kinds := ⟨.accept? kinds, rfl⟩
  nextIs kind := ⟨.nextIs kind, rfl⟩
  remaining := ⟨.remaining, rfl⟩
  report_return t := ⟨.report t .topLevelReturn, rfl⟩
  turn := by
    rintro stop p ⟨r, rfl⟩
    exact ⟨.turn stop r, rfl⟩

/-! ### Loops -/

/-- Sequencing with readers that agree where the first one ends. Agreement is asked at one cursor only, so
bounds that hold there may be used. -/
theorem bind_congr_at {α β : Type} {p : Parse α} {q q' : α → Parse β} {c : Cursor}
    (same : ∀ a d, p c = .ok a d → q a d = q' a d) : (p >>= q) c = (p >>= q') c := by
  rw [bind_apply, bind_apply]
  cases read : p c with
  | error stop d => rfl
  | ok a d => exact same a d read

/-- A loop over declarations that each take a token: more turns than tokens change nothing. By induction over
the turns, with the tokens left as the measure. -/
theorem declarationsUpTo_of_enough {stop : Option TokenKind} {declaration : Parse (Option Stmt)}
    (advances : Advances declaration) {turns turns' : Nat} {c : Cursor} (enough : c.rest.length ≤ turns)
    (enough' : c.rest.length ≤ turns') :
    declarationsUpTo stop declaration turns c = declarationsUpTo stop declaration turns' c := by
  induction turns generalizing turns' c with
  | zero =>
      have none : c.rest = [] := List.length_eq_zero_iff.mp (Nat.le_zero.mp enough)
      rw [Joint.declarationsUpTo_ended stop 0 none, Joint.declarationsUpTo_ended stop turns' none]
  | succ turns ih =>
      cases found : c.rest with
      | nil => rw [Joint.declarationsUpTo_ended stop _ found, Joint.declarationsUpTo_ended stop turns' found]
      | cons t rest =>
          have left : c.rest ≠ [] := by simp [found]
          have some := List.length_pos_iff.mpr left
          obtain ⟨turns', rfl⟩ : ∃ k, turns' = k + 1 := ⟨turns' - 1, by omega⟩
          simp only [declarationsUpTo, found]
          split
          · rfl
          · apply bind_congr_at
            intro first d read
            have fewer := advances c first d left read
            have same : declarationsUpTo stop declaration turns d = declarationsUpTo stop declaration turns' d :=
              ih (by omega) (by omega)
            rw [bind_apply, bind_apply, same]

/-- An accepted token is a token less, so a turn that begins with one makes the bound smaller. -/
theorem accept?_length {kinds : List TokenKind} {t : Token} {c d : Cursor}
    (taken : accept? kinds c = .ok (some t) d) : d.rest.length < c.rest.length := by
  cases found : c.rest with
  | nil =>
      rw [accept?_nil found] at taken
      cases taken
  | cons u rest =>
      rw [accept?_cons found] at taken
      split at taken
      · cases taken
        exact Nat.lt_succ_self _
      · cases taken

/-- Ends a loop where no token was accepted. -/
def orElse {σ : Type} (a : σ) (turn : Token → Parse σ) : Option Token → Parse σ
  | none => return a
  | some t => turn t

/-- A loop that in each turn accepts a token of these kinds and reads `body` behind it. -/
structure Turns {σ β : Type} (kinds : List TokenKind) (body : Parse β) (next : σ → Token → β → σ)
    (loop : Nat → σ → Parse σ) : Prop where
  zero : ∀ a, loop 0 a = return a
  succ : ∀ turns a, loop (turns + 1) a =
    accept? kinds >>= orElse a fun t => body >>= fun b => loop turns (next a t b)

/-- A loop that takes a token in each turn: more turns than tokens change nothing. By induction over the turns,
for any state that the loop carries. -/
theorem Turns.of_enough {σ β : Type} {kinds : List TokenKind} {body : Parse β} {next : σ → Token → β → σ}
    {loop : Nat → σ → Parse σ} (repeats : Turns kinds body next loop) (shrinks : Shrinks body)
    {turns turns' : Nat} (a : σ) {c : Cursor} (enough : c.rest.length ≤ turns)
    (enough' : c.rest.length ≤ turns') : loop turns a c = loop turns' a c := by
  have ended {c : Cursor} (a : σ) (none : c.rest = []) (turns : Nat) : loop turns a c = .ok a c := by
    cases turns with
    | zero =>
        rw [repeats.zero]
        rfl
    | succ turns =>
        rw [repeats.succ, bind_apply, accept?_nil none]
        rfl
  induction turns generalizing turns' a c with
  | zero =>
      have none : c.rest = [] := List.length_eq_zero_iff.mp (Nat.le_zero.mp enough)
      rw [ended a none 0, ended a none turns']
  | succ turns ih =>
      cases turns' with
      | zero =>
          have none : c.rest = [] := List.length_eq_zero_iff.mp (Nat.le_zero.mp enough')
          rw [ended a none (turns + 1), ended a none 0]
      | succ turns' =>
          rw [repeats.succ, repeats.succ]
          apply bind_congr_at
          intro o d taken
          cases o with
          | none => rfl
          | some t =>
              have fewer := accept?_length taken
              apply bind_congr_at
              intro b e read
              have fewer' := shrinks d b e read
              exact ih _ (by omega) (by omega)

/-- A row of operators and operands is such a loop, whose state is the tree built so far. -/
theorem chain_turns (ops : List TokenKind) (join : Expr → Token → Expr → Expr) (operand : Parse Expr) :
    Turns ops operand join (chain ops join operand) := by
  constructor
  · exact fun left => rfl
  · exact fun turns left => rfl

/-- A row of calls is such a loop, whose state is the callee and whose turns begin with a parenthesis. -/
theorem calls_turns (argument : Parse Expr) :
    Turns [.leftParen] (arguments argument) Expr.call (calls argument) := by
  constructor
  · exact fun callee => rfl
  · exact fun turns callee => rfl

/-- The loop over items takes a comma in each turn but the last, so more turns than tokens change nothing. -/
theorem itemsFrom_of_enough {α : Type} {excess : SyntaxFault} {item : Parse α} (shrinks : Shrinks item)
    {turns turns' : Nat} (count : Nat) {c : Cursor} (enough : c.rest.length < turns)
    (enough' : c.rest.length < turns') :
    itemsFrom excess item turns count c = itemsFrom excess item turns' count c := by
  induction turns generalizing turns' count c with
  | zero => omega
  | succ turns ih =>
      obtain ⟨turns', rfl⟩ : ∃ k, turns' = k + 1 := ⟨turns' - 1, by omega⟩
      have reporting : Shrinks (reportIf (decide (mostArguments ≤ count)) (reportHere excess)) :=
        (reportIf_sound (reportHere_sound excess)).shrinks
      apply bind_congr_at
      intro _ d reported
      have fewer := reporting c _ d reported
      apply bind_congr_at
      intro first e read
      have fewer' := shrinks d first e read
      apply bind_congr_at
      intro o e' taken
      cases o with
      | none => rfl
      | some comma =>
          have fewer'' := accept?_length taken
          have same : itemsFrom excess item turns (count + 1) e' = itemsFrom excess item turns' (count + 1) e' :=
            ih _ (by omega) (by omega)
          dsimp only
          rw [bind_apply, bind_apply, same]

/-- No loop of reading at this depth is ended by the bound on its turns. -/
structure Unhurried (depth : Nat) : Prop where
  declarations : ∀ stop f c turns, c.rest.length ≤ turns →
    declarationsUpTo stop (declaration depth f) turns c =
      declarationsUpTo stop (declaration depth f) c.rest.length c
  operands : ∀ ops join l left c turns, c.rest.length ≤ turns →
    chain ops join (expression depth l) turns left c =
      chain ops join (expression depth l) c.rest.length left c
  calls : ∀ l callee c turns, c.rest.length ≤ turns →
    calls (expression depth l) turns callee c = calls (expression depth l) c.rest.length callee c
  arguments : ∀ excess l count c turns, c.rest.length < turns →
    itemsFrom excess (expression depth l) turns count c =
      itemsFrom excess (expression depth l) (c.rest.length + 1) count c
  parameters : ∀ excess kind fault count c turns, c.rest.length < turns →
    itemsFrom excess (expect kind fault) turns count c =
      itemsFrom excess (expect kind fault) (c.rest.length + 1) count c

/-- No loop of reading is ended by the bound on its turns: every turn takes a token. So the bounds are no part
of what is read, and only make the loops total. -/
theorem unhurried (depth : Nat) : Unhurried depth := by
  have shrinks (l : Level) : Shrinks (expression depth l) := shrinks_inherited.expression depth l
  constructor
  · intro stop f c turns enough
    exact declarationsUpTo_of_enough (declaration_advances depth f) enough (Nat.le_refl _)
  · intro ops join l left c turns enough
    exact (chain_turns ops join _).of_enough (shrinks l) left enough (Nat.le_refl _)
  · intro l callee c turns enough
    have listed : Shrinks (Parse.arguments (expression depth l)) :=
      shrinks_inherited.items (by decide) (by decide) (shrinks l)
    exact (calls_turns _).of_enough listed callee enough (Nat.le_refl _)
  · intro excess l count c turns enough
    exact itemsFrom_of_enough (shrinks l) count enough (Nat.lt_succ_self _)
  · intro excess kind fault count c turns enough
    exact itemsFrom_of_enough (expect_sound kind fault).shrinks count enough (Nat.lt_succ_self _)

/-- Nothing is skipped in silence. A declaration without a statement has at least one report that was not
there before. -/
theorem declaration_none_reported {depth : Nat} {f : Bool} {c d : Cursor}
    (skipped : declaration depth f c = .ok none d) : c.reported.size < d.reported.size := by
  have conforms := declared_sound depth f c
  rw [declaration_eq] at skipped
  unfold recovering at skipped
  cases read : declared depth f c with
  | ok s e =>
      rw [read] at skipped
      cases skipped
  | error stop e =>
      rw [read] at skipped conforms
      cases stop with
      | tooDeep => cases skipped
      | malformed =>
          cases skipped
          rw [Cursor.reported_synchronize]
          exact conforms.2

end Parse

/-- On the way to this spot the position never went back and never passed the first end token. -/
structure Spot.Inside (tokens : List Token) (s : Spot) : Prop where
  rising : (s.current :: s.trail).Pairwise (· ≥ ·)
  bound : s.current ≤ endPosition tokens

/-- A position that mirrors a cursor lies inside the list, at or before the first end token. -/
theorem At.inside {tokens ts : List Token} {last : Token} {c : Cursor} {s : Spot}
    (ended : Ended tokens ts last) (here : At ts last c s) : s.Inside tokens := by
  constructor
  · exact List.pairwise_cons.mpr ⟨here.passed, here.rising⟩
  · rw [ended.endPosition_eq]
    exact here.bound

namespace Program

open Parse

variable {tokens ts : List Token} {last : Token} {depth : Nat}

/-- The walk begins at the first token, where the cursor of the program does, with nothing reported. -/
theorem at_start (ended : Ended tokens ts last) : At ts last (cursor tokens) .start := by
  rw [ended.cursor_eq]
  constructor
  · exact List.drop_zero.symm
  · exact Nat.zero_le _
  · rfl
  · rfl
  · exact List.Pairwise.nil
  · exact fun i listed => absurd listed List.not_mem_nil

/-- Walking over the list gives what reading gives, and nothing else can happen: there is a result, or the depth
runs out, and no lookup misses the list. -/
theorem walk_ends (ended : Ended tokens ts last) {r : Reader (List Stmt)}
    (made : r.read = declarationsUpTo none (declaration depth false) (cursor tokens).rest.length) :
    ∃ s, s.Inside tokens ∧
      ((∃ A, r.walk tokens .start = .ok A s ∧ ofTokens depth tokens = some ⟨A, s.reported.toList⟩) ∨
        r.walk tokens .start = .error (.unwind .tooDeep) s ∧ ofTokens depth tokens = none) := by
  have mirrors := r.walk_mirrors ended (at_start ended)
  have recovers := declarationsUpTo_recovers none (declaration_recovers depth false)
    (cursor tokens).rest.length (cursor tokens)
  rw [made] at mirrors
  unfold ofTokens
  dsimp only
  cases read : declarationsUpTo none (declaration depth false) (cursor tokens).rest.length (cursor tokens) with
  | ok A d =>
      rw [read] at mirrors
      obtain ⟨s, walked, there, -⟩ := mirrors
      refine ⟨s, there.inside ended, .inl ⟨A, walked, ?_⟩⟩
      dsimp only
      rw [there.reported]
  | error why d =>
      rw [read] at mirrors
      obtain ⟨s, walked, there, -⟩ := mirrors
      cases why with
      | malformed => exact absurd read (recovers d)
      | tooDeep => exact ⟨s, there.inside ended, .inr ⟨walked, rfl⟩⟩

/-- **Reading stays inside its tokens.** However malformed the tokens are, reading ends and stays inside their
list. With enough depth there is a program. Put together from its steps in any way, reading by position looks
for no token outside the list, never goes back and never passes the first end token, and gives what reading
gives. A declaration never unwinds; it takes a token where there is one, and reports something when it gives
nothing. No loop is ended by the bound on its turns. -/
theorem reading_stays_inside (tokens : List Token) (ended : ∃ t ∈ tokens, t.kind = .endOfInput)
    (depth : Nat) :
    (11 * tokens.length + 12 < depth → ∃ p, ofTokens depth tokens = some p) ∧
    (∃ r : Reader (List Stmt),
      r.read = declarationsUpTo none (declaration depth false) (cursor tokens).rest.length) ∧
    (∀ r : Reader (List Stmt),
      r.read = declarationsUpTo none (declaration depth false) (cursor tokens).rest.length →
      ∃ s, s.Inside tokens ∧
        ((∃ A, r.walk tokens .start = .ok A s ∧ ofTokens depth tokens = some ⟨A, s.reported.toList⟩) ∨
          r.walk tokens .start = .error (.unwind .tooDeep) s ∧ ofTokens depth tokens = none)) ∧
    (∀ f c d, declaration depth f c ≠ .error .malformed d) ∧
    (∀ f c o d, c.rest ≠ [] → declaration depth f c = .ok o d → d.rest.length < c.rest.length) ∧
    (∀ f c d, declaration depth f c = .ok none d → c.reported.size < d.reported.size) ∧
    Unhurried depth := by
  obtain ⟨t, listed, kind⟩ := ended
  obtain ⟨ts, last, ended⟩ := Ended.exists_of_mem listed kind
  refine ⟨exists_ofTokens tokens, ?_, fun r made => walk_ends ended made, declaration_recovers depth,
    declaration_advances depth, fun f c d skipped => declaration_none_reported skipped, unhurried depth⟩
  rw [declaration_eq]
  exact steps_inherited.declarationsUpTo none ((steps_inherited.declared_statement depth).1 false) _

/-- The tokens of `(; } x`, and one more behind the end. -/
def unbalanced : List Token :=
  [sign .leftParen "(", sign .semicolon ";", sign .rightBrace "\x7d", sign .identifier "x",
    sign .endOfInput "", sign .identifier "y"]
where
  sign (kind : TokenKind) (lexeme : String) : Token := ⟨kind, lexeme, .nil, 1, none⟩

/-- Reading these tokens by position ends too, inside their list. -/
theorem unbalanced_stays_inside : (∃ t ∈ unbalanced, t.kind = .endOfInput) ∧
    ∃ (r : Reader (List Stmt)) (s : Spot) (A : List Stmt), r.walk unbalanced .start = .ok A s ∧
      s.Inside unbalanced ∧ ofTokens 100 unbalanced = some ⟨A, s.reported.toList⟩ := by
  have ended : ∃ t ∈ unbalanced, t.kind = .endOfInput := by decide
  obtain ⟨total, ⟨r, made⟩, walks, -⟩ := reading_stays_inside unbalanced ended 100
  obtain ⟨p, read⟩ := total (by decide)
  obtain ⟨s, inside, ⟨A, walked, same⟩ | ⟨-, unread⟩⟩ := walks r made
  · exact ⟨ended, r, s, A, walked, inside, same⟩
  · rw [read] at unread
    cases unread

end Program

end Treewalk

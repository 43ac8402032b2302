import Treewalk.Proofs.Run.Safety
import Treewalk.Proofs.Session.Report

/-!
How running a source in a session can end. It finishes with a status, goes too deep or does not end; no
failure that nobody expected comes out of it, whatever the source is, as long as the functions in the store
were read. A source with a static fault leaves the session as it is.
-/

namespace Treewalk

/-- Endings that do not speak of a broken tree. -/
inductive Ending.Proper : Ending → Prop
  | finished (status : Status) : Proper (.finished status)
  | tooDeep : Proper (.failed .tooDeep)
  | endless : Proper (.failed .endless)

/-- A source that is rejected before anything runs. -/
def Program.Rejected (limits : Limits) (source : String) : Prop :=
  ∃ p, Program.ofSource limits.depth source = some p ∧ hasStatic p.faults = true

/-- Every statement of a program has an outline, unless the depth runs out. -/
theorem Program.printable_of_ofTokens {limit : Nat} {tokens : List Token} {p : Program}
    (parsed : ofTokens limit tokens = some p) (depth : Nat) :
    ∀ stmt ∈ p.statements, ∀ form, Outline.ofStmt depth stmt ≠ .error (.unprintable form) := by
  intro stmt listed form unprintable
  have formed := (ofTokens_wellFormed parsed fun _ _ => trivial).1 stmt listed
  have printable := Outline.ofStmt_printable (K := fun _ => True) formed depth
  rw [unprintable] at printable
  exact printable

namespace Session

variable {limits : Limits} {s : Session} {source : String} {statements : List Stmt} {w : World}

/-- Showing outlines of what was read fails for depth only, as each of them is printable. By induction over
the statements. -/
theorem printOutlines_proper {depth : Nat}
    (printable : ∀ stmt ∈ statements, ∀ form, Outline.ofStmt depth stmt ≠ .error (.unprintable form))
    {f : Failure} {w' : World} (failed : printOutlines depth statements w = .error f w') : f = .tooDeep := by
  induction statements generalizing w with
  | nil => cases failed
  | cons stmt rest ih =>
      unfold printOutlines at failed
      cases outline : Outline.ofStmt depth stmt with
      | ok line =>
          rw [outline] at failed
          exact ih (fun other listed => printable other (List.mem_cons_of_mem _ listed)) failed
      | error fault =>
          rw [outline] at failed
          cases fault with
          | tooDeep =>
              cases failed
              rfl
          | unprintable form => exact absurd outline (printable stmt List.mem_cons_self form)

theorem showing_proper {depth : Nat}
    (printable : ∀ stmt ∈ statements, ∀ form, Outline.ofStmt depth stmt ≠ .error (.unprintable form))
    {f : Failure} {w' : World} (failed : s.showing depth statements w = .error f w') : f = .tooDeep := by
  unfold showing at failed
  split_ifs at failed
  exact printOutlines_proper printable failed

/-- Interpreting what was read ends properly, and keeps to functions that were read. No run of it meets a tree
that reading does not build. -/
theorem interpret_proper (read : w.store.Read) (known : ∀ stmt ∈ statements, stmt.Read) :
    (s.interpret limits source statements w).1.Proper ∧
      (s.interpret limits source statements w).2.store.Read := by
  have ends := Discipline.reading.executeProgram_keeps limits known trivial w (Nat.le_refl _) read
  unfold interpret Run.interpret
  cases ran : Run.executeProgram limits statements w with
  | ok _ w' =>
      rw [ran] at ends
      exact ⟨.finished _, ends.2.1⟩
  | error stop w' =>
      rw [ran] at ends
      cases stop with
      | fault f => exact ⟨.finished _, ends.2.1⟩
      | tooDeep => exact ⟨.tooDeep, ends.2.1⟩
      | endless => exact ⟨.endless, ends.2.1⟩
      | unknownExpression | unknownStatement | unknownOperator | zeroDivision => exact ends.2.2.elim

/-- Running a source ends properly in any world whose functions were read, whatever the source is. -/
theorem runIn_proper (limits : Limits) (s : Session) (source : String) (read : w.store.Read) :
    (s.runIn limits source w).1.Proper ∧ (s.runIn limits source w).2.store.Read := by
  cases parsed : Program.ofSource limits.depth source with
  | none =>
      rw [(runIn_of_unread limits parsed s w).1]
      exact ⟨.tooDeep, read⟩
  | some p =>
      cases faulty : hasStatic p.faults with
      | true =>
          rw [(runIn_of_faulty limits parsed faulty s w).1]
          exact ⟨.finished _, read⟩
      | false =>
          have kept := store_showing limits.depth s p.statements w
          rw [runIn_of_clean limits parsed faulty]
          simp only [Program.ofSource, Option.map_eq_some_iff] at parsed
          obtain ⟨q, tokens, rfl⟩ := parsed
          cases outlines : s.showing limits.depth q.statements w with
          | ok _ w' =>
              rw [outlines] at kept
              exact interpret_proper (kept ▸ read) fun stmt listed => ⟨_, _, q, tokens, stmt, listed, .here⟩
          | error f w' =>
              rw [outlines] at kept
              obtain rfl := showing_proper (Program.printable_of_ofTokens tokens limits.depth) outlines
              exact ⟨.tooDeep, kept ▸ read⟩

/-- Running a source ends properly, and keeps to functions that were read. -/
theorem run_proper (limits : Limits) (s : Session) (source : String) (read : s.world.store.Read) :
    (s.run limits source).ending.Proper ∧ (s.run limits source).session.world.store.Read := by
  obtain ⟨proper, kept⟩ := s.runIn_proper limits source (w := s.start) read
  rw [run_eq]
  exact ⟨proper, kept⟩

/-- A rejected source leaves the session exactly as it was. It binds nothing, counts no function and reads no
clock, and the session keeps no printed line. -/
theorem run_rejected (rejected : Program.Rejected limits source) (quiet : s.world.printed = #[]) :
    (s.run limits source).ending = .finished .badProgram ∧ (s.run limits source).session = s := by
  obtain ⟨p, parsed, faulty⟩ := rejected
  rw [run_eq, (runIn_of_faulty limits parsed faulty s s.start).1]
  refine ⟨rfl, ?_⟩
  change { s with world := { s.world with printed := #[] } } = s
  rw [← quiet]

end Session

end Treewalk

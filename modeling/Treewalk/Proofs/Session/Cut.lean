import Treewalk.Proofs.Reading.Limit
import Treewalk.Proofs.Run.Cut
import Treewalk.Proofs.Session.Report
import Treewalk.Proofs.Tree.Outlined

/-!
Running a source under a smaller limit on depth. As long as none of its stages goes too deep, it comes to
exactly what it comes to under the larger limit. A stage that goes too deep ends the run there and then, and
what was printed until then is what the other run prints first. No stage hides that another went too deep.
-/

namespace Treewalk

namespace Session

variable {depth depth' : Nat} {source : String} {p : Program}

/-- One of the stages goes too deep: reading the source, showing its outlines, or running it. -/
inductive GoesTooDeep (limits : Limits) (s : Session) (source : String) : Prop where
  | reading : Program.ofSource limits.depth source = none → GoesTooDeep limits s source
  | showing {p v} : Program.ofSource limits.depth source = some p → hasStatic p.faults = false →
      s.showing limits.depth p.statements s.start = .error .tooDeep v → GoesTooDeep limits s source
  | running {p w v} : Program.ofSource limits.depth source = some p → hasStatic p.faults = false →
      s.showing limits.depth p.statements s.start = .ok () w →
      Run.executeProgram limits p.statements w = .error .tooDeep v → GoesTooDeep limits s source

/-! ### Nothing printed is taken back -/

/-- Showing outlines only adds lines, one for each outline that exists. -/
theorem precedes_printOutlines (depth : Nat) (statements : List Stmt) (w : World) :
    w.Precedes (shown (printOutlines depth statements w)) := by
  induction statements generalizing w with
  | nil => exact World.precedes_of_eq rfl
  | cons stmt rest ih =>
      unfold printOutlines
      cases Outline.ofStmt depth stmt with
      | error f => cases f <;> exact World.precedes_of_eq rfl
      | ok line =>
          have pushed : w.Precedes { w with printed := w.printed.push line } := ⟨[line], by simp⟩
          exact pushed.trans (ih _)

theorem precedes_showing (depth : Nat) (s : Session) (statements : List Stmt) (w : World) :
    w.Precedes (shown (s.showing depth statements w)) := by
  unfold showing
  by_cases asked : s.showOutlines = true
  · rw [if_pos asked]
    exact precedes_printOutlines depth statements w
  · rw [if_neg asked]
    exact World.precedes_of_eq rfl

/-- A report only adds lines, behind those that are there. -/
theorem precedes_printReport (s : Session) (source : String) (ds : List Diagnostic) (w : World) :
    w.Precedes (s.printReport source ds w) :=
  ⟨Report.lines s.guard.style s.shownPath source ds, by simp [printReport]⟩

/-- What the statements printed comes before the report about them. -/
theorem after_precedes_interpret (limits : Limits) (s : Session) (source : String) (statements : List Stmt)
    (w : World) :
    ((Run.executeProgram limits statements).after w).Precedes (s.interpret limits source statements w).2 := by
  rw [interpret_eq, ← world_interpret limits statements []]
  exact precedes_printReport s source _ _

theorem precedes_interpret (limits : Limits) (s : Session) (source : String) (statements : List Stmt)
    (w : World) : w.Precedes (s.interpret limits source statements w).2 := by
  have grows := (Run.executeProgram_cuts limits.turns (Nat.le_refl limits.depth) statements w).2
  exact grows.trans (after_precedes_interpret limits s source statements w)

/-- Running comes after showing, so outlines are the first lines of a run that shows them. -/
theorem shown_precedes_runIn (limits : Limits) (read : Program.ofSource limits.depth source = some p)
    (clean : hasStatic p.faults = false) (s : Session) (w : World) :
    (shown (s.showing limits.depth p.statements w)).Precedes (s.runIn limits source w).2 := by
  rw [runIn_of_clean limits read clean]
  cases s.showing limits.depth p.statements w with
  | error f w' => exact World.precedes_of_eq rfl
  | ok _ w' => exact precedes_interpret limits s source p.statements w'

/-- A run only adds lines to those that were printed before it, in each of its three cases. -/
theorem precedes_runIn (limits : Limits) (s : Session) (source : String) (w : World) :
    w.Precedes (s.runIn limits source w).2 := by
  cases read : Program.ofSource limits.depth source with
  | none =>
      rw [(runIn_of_unread limits read s w).1]
      exact World.precedes_of_eq rfl
  | some p =>
      cases faulty : hasStatic p.faults with
      | true =>
          rw [(runIn_of_faulty limits read faulty s w).1]
          exact precedes_printReport s source p.faults w
      | false =>
          have shown := precedes_showing limits.depth s p.statements w
          exact shown.trans (shown_precedes_runIn limits read faulty s w)

/-! ### Under a larger limit -/

section Larger

variable (enough : depth ≤ depth')

include enough

/-- Showing outlines under a smaller limit shows the same, or stops at one that is nested too deeply after
showing a part. -/
theorem printOutlines_cut (statements : List Stmt) (w : World) :
    printOutlines depth statements w = printOutlines depth' statements w ∨
      ∃ v, printOutlines depth statements w = .error .tooDeep v ∧
        v.Precedes (shown (printOutlines depth' statements w)) := by
  induction statements generalizing w with
  | nil => exact .inl rfl
  | cons stmt rest ih =>
      rcases Outline.ofStmt_reveals enough stmt with deep | same
      · refine .inr ⟨w, ?_, precedes_printOutlines depth' (stmt :: rest) w⟩
        rw [printOutlines, deep]
        rfl
      · rw [printOutlines, printOutlines, same]
        cases Outline.ofStmt depth' stmt with
        | error f => cases f <;> exact .inl rfl
        | ok line => exact ih { w with printed := w.printed.push line }

/-- Showing under a smaller limit comes to the same or stops too deep, with outlines asked for or not. Without
them there is nothing to cut. -/
theorem showing_cut (s : Session) (statements : List Stmt) (w : World) :
    s.showing depth statements w = s.showing depth' statements w ∨
      ∃ v, s.showing depth statements w = .error .tooDeep v ∧
        v.Precedes (shown (s.showing depth' statements w)) := by
  unfold showing
  by_cases asked : s.showOutlines = true
  · rw [if_pos asked, if_pos asked]
    exact printOutlines_cut enough statements w
  · rw [if_neg asked, if_neg asked]
    exact .inl rfl

/-- Interpreting under a smaller limit comes to the same, or goes too deep having printed a part of
the lines. -/
theorem interpret_cut (turns : Nat) (s : Session) (source : String) (statements : List Stmt) (w : World) :
    Run.interpret ⟨depth, turns⟩ statements [] w = Run.interpret ⟨depth', turns⟩ statements [] w ∧
        s.interpret ⟨depth, turns⟩ source statements w = s.interpret ⟨depth', turns⟩ source statements w ∨
      ∃ v, s.interpret ⟨depth, turns⟩ source statements w = (.failed .tooDeep, v) ∧
        v.Precedes (s.interpret ⟨depth', turns⟩ source statements w).2 := by
  rcases (Run.executeProgram_cuts turns enough statements w).1 with same | ⟨v, deep, printed⟩
  · have same' : Run.interpret ⟨depth, turns⟩ statements [] w =
        Run.interpret ⟨depth', turns⟩ statements [] w := by
      unfold Run.interpret
      rw [same]
    refine .inl ⟨same', ?_⟩
    unfold interpret
    rw [same']
  · refine .inr ⟨v, ?_, printed.trans (after_precedes_interpret _ s source statements w)⟩
    unfold interpret Run.interpret
    rw [deep]
    rfl

/-- Either both runs come to the same, or the one under the smaller limit goes too deep on the way: in reading,
in showing or in running. Its lines are then a first part of the other one's. -/
theorem runIn_cut (turns : Nat) (s : Session) (source : String) (w : World) :
    s.outcome ⟨depth, turns⟩ source w = s.outcome ⟨depth', turns⟩ source w ∧
        s.runIn ⟨depth, turns⟩ source w = s.runIn ⟨depth', turns⟩ source w ∨
      ∃ v, s.runIn ⟨depth, turns⟩ source w = (.failed .tooDeep, v) ∧
        v.Precedes (s.runIn ⟨depth', turns⟩ source w).2 := by
  cases read : Program.ofSource depth source with
  | none => exact .inr ⟨w, (runIn_of_unread ⟨depth, turns⟩ read s w).1, precedes_runIn _ s source w⟩
  | some p =>
      have read' := Program.ofSource_of_le enough read
      cases faulty : hasStatic p.faults with
      | true =>
          obtain ⟨ran, found⟩ := runIn_of_faulty ⟨depth, turns⟩ read faulty s w
          obtain ⟨ran', found'⟩ := runIn_of_faulty ⟨depth', turns⟩ read' faulty s w
          exact .inl ⟨by rw [found, found'], by rw [ran, ran']⟩
      | false =>
          have later := shown_precedes_runIn ⟨depth', turns⟩ read' faulty s w
          rw [runIn_of_clean ⟨depth, turns⟩ read faulty, outcome_of_clean ⟨depth, turns⟩ read faulty]
          rcases showing_cut enough s p.statements w with same | ⟨v, deep, printed⟩
          · rw [runIn_of_clean ⟨depth', turns⟩ read' faulty, outcome_of_clean ⟨depth', turns⟩ read' faulty, same]
            cases s.showing depth' p.statements w with
            | error f w' => exact .inl ⟨rfl, rfl⟩
            | ok _ w' =>
                dsimp only
                rcases interpret_cut enough turns s source p.statements w' with ⟨found, ran⟩ | cut
                · exact .inl ⟨by rw [found], ran⟩
                · exact .inr cut
          · rw [deep]
            exact .inr ⟨v, rfl, printed.trans later⟩

/-- Running a source under a smaller limit comes to the same, diagnostics included, or goes too deep on
the way. -/
theorem run_cut (turns : Nat) (s : Session) (source : String) :
    s.run ⟨depth, turns⟩ source = s.run ⟨depth', turns⟩ source ∧
        s.diagnostics ⟨depth, turns⟩ source = s.diagnostics ⟨depth', turns⟩ source ∨
      (s.run ⟨depth, turns⟩ source).ending = .failed .tooDeep ∧
        (s.run ⟨depth, turns⟩ source).printed <+: (s.run ⟨depth', turns⟩ source).printed := by
  unfold diagnostics
  rw [run_eq, run_eq]
  rcases runIn_cut enough turns s source s.start with ⟨found, ran⟩ | ⟨v, deep, printed⟩
  · rw [found, ran]
    exact .inl ⟨rfl, rfl⟩
  · rw [deep]
    exact .inr ⟨rfl, printed⟩

end Larger

/-! ### Going too deep is never hidden -/

/-- Where runtime faults are recorded, going too deep is not: it leaves the diagnostics as they were and
passes through. -/
theorem interpret_eq_tooDeep_iff (limits : Limits) (statements : List Stmt) (ds : List Diagnostic) (w v : World) :
    Run.interpret limits statements ds w = ⟨.error .tooDeep, ds, v⟩ ↔
      Run.executeProgram limits statements w = .error .tooDeep v := by
  unfold Run.interpret
  cases Run.executeProgram limits statements w with
  | ok _ w' => simp
  | error stop w' => cases stop <;> simp

/-- Interpreting fails for depth exactly when the statements go too deep. -/
theorem ending_interpret (limits : Limits) (s : Session) (source : String) (statements : List Stmt) (w : World) :
    (s.interpret limits source statements w).1 = .failed .tooDeep ↔
      ∃ v, Run.executeProgram limits statements w = .error .tooDeep v := by
  unfold interpret Run.interpret
  cases Run.executeProgram limits statements w with
  | ok _ w' => simp [hasRuntime]
  | error stop w' =>
      cases stop with
      | fault f => simp [hasRuntime, Diagnostic.atRuntime, Diagnostic.isRuntime]
      | tooDeep => simp [Failure.ofStop]
      | unknownExpression | unknownStatement | unknownOperator | zeroDivision | endless => simp [Failure.ofStop]

/-- A run fails for depth exactly when its source goes too deep in being read, shown or run. `GoesTooDeep` says
which, without a look at how runs are put together. -/
theorem ending_run (limits : Limits) (s : Session) (source : String) :
    (s.run limits source).ending = .failed .tooDeep ↔ s.GoesTooDeep limits source := by
  rw [run_eq]
  dsimp only
  constructor
  · intro ended
    cases read : Program.ofSource limits.depth source with
    | none => exact .reading read
    | some p =>
        cases faulty : hasStatic p.faults with
        | true =>
            rw [(runIn_of_faulty limits read faulty s s.start).1] at ended
            cases ended
        | false =>
            rw [runIn_of_clean limits read faulty] at ended
            cases shown : s.showing limits.depth p.statements s.start with
            | error f v =>
                rw [shown] at ended
                cases ended
                exact .showing read faulty shown
            | ok _ w =>
                rw [shown] at ended
                obtain ⟨v, deep⟩ := (ending_interpret limits s source p.statements w).mp ended
                exact .running read faulty shown deep
  · intro deep
    cases deep with
    | reading unread => rw [(runIn_of_unread limits unread s s.start).1]
    | showing read clean deep => rw [runIn_of_clean limits read clean, deep]
    | running read clean shown deep =>
        rw [runIn_of_clean limits read clean, shown]
        exact (ending_interpret limits s source _ _).mpr ⟨_, deep⟩

/-- **A limit on depth only cuts a run short.** If the run under the smaller limit does not go too deep, the run
under the larger one comes to the same: the same ending, the same lines, the same session afterwards and the
same diagnostics. If it does, its lines are the first lines of the other run. It ends as too deep exactly when
one of its stages does; skipping malformed declarations, reading function bodies and recording runtime faults
let that through as it is. -/
theorem depth_only_cuts_short {depth depth' : Nat} (enough : depth ≤ depth') (turns : Nat) (s : Session)
    (source : String) :
    let cut := s.run ⟨depth, turns⟩ source
    let whole := s.run ⟨depth', turns⟩ source
    (cut.ending ≠ .failed .tooDeep → whole = cut ∧
      s.diagnostics ⟨depth', turns⟩ source = s.diagnostics ⟨depth, turns⟩ source) ∧
    (cut.ending = .failed .tooDeep → cut.printed <+: whole.printed) ∧
    (cut.ending = .failed .tooDeep ↔ s.GoesTooDeep ⟨depth, turns⟩ source) ∧
    (∀ (α : Type) (p : Parse α) c d,
      Parse.recovering p c = .error .tooDeep d ↔ p c = .error .tooDeep d) ∧
    (∀ declaration c d, Parse.functionRest declaration c = .error .tooDeep d ↔
      ∃ head e, Parse.functionHead c = .ok head e ∧ Parse.blockBody declaration e = .error .tooDeep d) ∧
    ∀ statements ds w v, Run.interpret ⟨depth, turns⟩ statements ds w = ⟨.error .tooDeep, ds, v⟩ ↔
      Run.executeProgram ⟨depth, turns⟩ statements w = .error .tooDeep v := by
  intro cut whole
  refine ⟨?_, ?_, ending_run _ s source, fun α => Parse.recovering_eq_tooDeep_iff,
    Parse.functionRest_eq_tooDeep_iff, interpret_eq_tooDeep_iff _⟩
  · intro ended
    rcases run_cut enough turns s source with ⟨same, found⟩ | ⟨deep, -⟩
    · exact ⟨same.symm, found.symm⟩
    · exact absurd deep ended
  · intro deep
    rcases run_cut enough turns s source with ⟨same, -⟩ | ⟨-, printed⟩
    · have equal : cut = whole := same
      exact ⟨[], by rw [List.append_nil, equal]⟩
    · exact printed

/-- Prints longer and longer strings, each in a call inside the one before. -/
def nestedCalls : String :=
  "fun f(s) \x7b print s; if (s != \"aaaaaaaa\") f(s + \"a\"); \x7d f(\"\");"

/-- Cut short after eight lines under a limit that is too small for its calls, and not cut under two larger
ones, which make no difference. -/
theorem depth_only_cuts_short_nestedCalls :
    let s : Session := ⟨⟨false, .plain⟩, promptPath, false, .initial .stopped⟩
    (s.run ⟨25, 9⟩ nestedCalls).ending = .failed .tooDeep ∧
    (s.run ⟨25, 9⟩ nestedCalls).printed.length = 8 ∧
    (s.run ⟨25, 9⟩ nestedCalls).printed <+: (s.run ⟨40, 9⟩ nestedCalls).printed ∧
    (s.run ⟨40, 9⟩ nestedCalls).ending = .finished .ok ∧
    s.run ⟨90, 9⟩ nestedCalls = s.run ⟨40, 9⟩ nestedCalls := by
  intro s
  have deep : (s.run ⟨25, 9⟩ nestedCalls).ending = .failed .tooDeep := by decide +kernel
  have ended : (s.run ⟨40, 9⟩ nestedCalls).ending = .finished .ok := by decide +kernel
  have shallow : (s.run ⟨40, 9⟩ nestedCalls).ending ≠ .failed .tooDeep := by
    rw [ended]
    decide
  obtain ⟨-, printed, -⟩ := depth_only_cuts_short (show 25 ≤ 40 by decide) 9 s nestedCalls
  obtain ⟨same, -⟩ := depth_only_cuts_short (show 40 ≤ 90 by decide) 9 s nestedCalls
  exact ⟨deep, by decide +kernel, printed deep, ended, (same shallow).1⟩

end Session

end Treewalk

import Treewalk.Proofs.Session.Cut
import Treewalk.Proofs.Session.Safety

/-!
What a source comes to when it is run by itself. It is rejected before anything runs, or it stops at a
runtime fault, or nesting goes too deep while it is read, shown or run, or each of its statements is
executed. `Concludes` says so statement by statement, together with the lines that are printed until then;
a source that ends comes to exactly one of these.
-/

namespace Treewalk

/-- What a source that ends comes to. -/
inductive Verdict where
  | rejected (faults : List Diagnostic)
  | faulted (f : RuntimeFault)
  | tooDeep
  | completed

namespace Verdict

def ending : Verdict → Ending
  | .rejected _ => .finished .badProgram
  | .faulted _ => .finished .broken
  | .tooDeep => .failed .tooDeep
  | .completed => .finished .ok

/-- What there is to report. -/
def diagnostics : Verdict → List Diagnostic
  | .rejected faults => faults
  | .faulted f => [.atRuntime f.token f.message]
  | .tooDeep | .completed => []

end Verdict

/-! ### Statement by statement -/

namespace Run

/-- `Executed limits A w v`: the statements of `A` are executed one after another, from `w` to `v`. -/
inductive Executed (limits : Limits) : List Stmt → World → World → Prop where
  | nil {w} : Executed limits [] w w
  | cons {stmt rest w w₁ v flow} : execute limits.turns limits.depth stmt World.globals w = .ok flow w₁ →
      Executed limits rest w₁ v → Executed limits (stmt :: rest) w v

/-- `StopsIn limits A w stop v`: after some of the statements, the next one stops. -/
def StopsIn (limits : Limits) (A : List Stmt) (w : World) (stop : Stop) (v : World) : Prop :=
  ∃ before stmt after w₁, A = before ++ stmt :: after ∧ Executed limits before w w₁ ∧
    execute limits.turns limits.depth stmt World.globals w₁ = .error stop v

variable {limits : Limits} {A before : List Stmt} {w w₁ v : World} {stop : Stop}

/-- Statements that were run to their ends may be left out of the account, the world being the one they
led to. -/
theorem executeProgram_append_of_executed (executed : Executed limits before w w₁) (rest : List Stmt) :
    executeProgram limits (before ++ rest) w = executeProgram limits rest w₁ := by
  induction executed with
  | nil => rfl
  | cons ran _ ih =>
      rw [List.cons_append, executeProgram, bind_apply, ran]
      exact ih

theorem executeProgram_of_executed (executed : Executed limits A w v) :
    executeProgram limits A w = .ok () v := by
  have ran := executeProgram_append_of_executed executed []
  rw [List.append_nil] at ran
  exact ran

/-- A program stops where one of its statements does, with the world as it was then. The statements behind that
one have no part in it. -/
theorem executeProgram_of_stopsIn (stops : StopsIn limits A w stop v) :
    executeProgram limits A w = .error stop v := by
  obtain ⟨before, stmt, after, w₁, rfl, executed, failed⟩ := stops
  rw [executeProgram_append_of_executed executed, executeProgram, bind_apply, failed]

/-- Statements run to their ends, or one of them stops. The two exclude each other, so each program has one of
them as its account. By induction over the list. -/
theorem executed_or_stopsIn (limits : Limits) (A : List Stmt) (w : World) :
    (∃ v, Executed limits A w v) ∨ ∃ stop v, StopsIn limits A w stop v := by
  induction A generalizing w with
  | nil => exact .inl ⟨w, .nil⟩
  | cons stmt rest ih =>
      cases ran : execute limits.turns limits.depth stmt World.globals w with
      | error stop v => exact .inr ⟨stop, v, [], stmt, rest, w, rfl, .nil, ran⟩
      | ok flow w₁ =>
          rcases ih w₁ with ⟨v, executed⟩ | ⟨stop, v, before, failing, after, w₂, rfl, executed, failed⟩
          · exact .inl ⟨v, .cons ran executed⟩
          · exact .inr ⟨stop, v, stmt :: before, failing, after, w₂, rfl, .cons ran executed, failed⟩

/-- Statements that were read stop for a runtime fault, for depth or for want of an end, and for no other
reason, as long as all functions in the store were read too. -/
theorem stop_proper (read : w.store.Read) (known : ∀ stmt ∈ A, stmt.Read)
    (stops : StopsIn limits A w stop v) : (∃ f, stop = .fault f) ∨ stop = .tooDeep ∨ stop = .endless := by
  have ends := Discipline.reading.executeProgram_keeps limits known trivial w (Nat.le_refl _) read
  rw [executeProgram_of_stopsIn stops] at ends
  cases stop with
  | fault f => exact .inl ⟨f, rfl⟩
  | tooDeep => exact .inr (.inl rfl)
  | endless => exact .inr (.inr rfl)
  | unknownExpression | unknownStatement | unknownOperator | zeroDivision => exact ends.2.2.elim

end Run

namespace Outline

/-- `Shows depth A lines`: the lines are the outlines of the statements. -/
def Shows (depth : Nat) : List Stmt → List String → Prop :=
  List.Forall₂ fun stmt line => ofStmt depth stmt = .ok line

/-- All statements have outlines, or there is a first one that has none. -/
theorem shows_or_not (depth : Nat) (A : List Stmt) : (∃ lines, Shows depth A lines) ∨
    ∃ before stmt after lines fault, A = before ++ stmt :: after ∧ Shows depth before lines ∧
      ofStmt depth stmt = .error fault := by
  induction A with
  | nil => exact .inl ⟨[], .nil⟩
  | cons stmt rest ih =>
      cases outline : ofStmt depth stmt with
      | error fault => exact .inr ⟨[], stmt, rest, [], fault, rfl, .nil, outline⟩
      | ok line =>
          rcases ih with ⟨lines, shows⟩ | ⟨before, failing, after, lines, fault, rfl, shows, failed⟩
          · exact .inl ⟨line :: lines, .cons outline shows⟩
          · exact .inr ⟨stmt :: before, failing, after, line :: lines, fault, rfl, .cons outline shows, failed⟩

end Outline

namespace Session

variable {limits : Limits} {clock : Clock} {asked : Bool} {source : String} {s : Session}

/-- The world in which a source runs by itself, after these lines were printed. -/
def fresh (clock : Clock) (lines : List String) : World := { World.initial clock with printed := lines.toArray }

/-- Outlines that exist are printed, one line for each statement, before anything else. By induction over
the statements. -/
theorem printOutlines_append {depth : Nat} {before : List Stmt} {lines : List String}
    (shows : Outline.Shows depth before lines) (rest : List Stmt) (w : World) :
    printOutlines depth (before ++ rest) w =
      printOutlines depth rest { w with printed := w.printed ++ lines.toArray } := by
  induction shows generalizing w with
  | nil => simp
  | cons outline _ ih =>
      rename_i stmt line before lines _
      have pushed : w.printed ++ (line :: lines).toArray = w.printed.push line ++ lines.toArray := by simp
      rw [List.cons_append, printOutlines, outline, pushed]
      exact ih { w with printed := w.printed.push line }

/-- What is printed before statements run: their outlines, if they are asked for. -/
def Prints (depth : Nat) : Bool → List Stmt → List String → Prop
  | true, A, lines => Outline.Shows depth A lines
  | false, _, lines => lines = []

/-- `Concludes limits clock asked source verdict lines`: run by itself, the source comes to this verdict, and
the lines are printed until then. `asked` says whether outlines are asked for. -/
inductive Concludes (limits : Limits) (clock : Clock) (asked : Bool) (source : String) :
    Verdict → List String → Prop where
  | rejected {p} : Program.ofSource limits.depth source = some p → p.faults ≠ [] →
      Concludes limits clock asked source (.rejected p.faults) []
  | unread : Program.ofSource limits.depth source = none → Concludes limits clock asked source .tooDeep []
  | unshown {before stmt after lines} :
      Program.ofSource limits.depth source = some ⟨before ++ stmt :: after, []⟩ → asked = true →
      Outline.Shows limits.depth before lines → Outline.ofStmt limits.depth stmt = .error .tooDeep →
      Concludes limits clock asked source .tooDeep lines
  | overflowed {A lines v} : Program.ofSource limits.depth source = some ⟨A, []⟩ →
      Prints limits.depth asked A lines → Run.StopsIn limits A (fresh clock lines) .tooDeep v →
      Concludes limits clock asked source .tooDeep v.printed.toList
  | faulted {A lines f v} : Program.ofSource limits.depth source = some ⟨A, []⟩ →
      Prints limits.depth asked A lines → Run.StopsIn limits A (fresh clock lines) (.fault f) v →
      Concludes limits clock asked source (.faulted f) v.printed.toList
  | completed {A lines v} : Program.ofSource limits.depth source = some ⟨A, []⟩ →
      Prints limits.depth asked A lines → Run.Executed limits A (fresh clock lines) v →
      Concludes limits clock asked source .completed v.printed.toList

/-- Run by itself, the source does not end. -/
def Endless (limits : Limits) (clock : Clock) (asked : Bool) (source : String) : Prop :=
  ∃ A lines v, Program.ofSource limits.depth source = some ⟨A, []⟩ ∧
    Prints limits.depth asked A lines ∧ Run.StopsIn limits A (fresh clock lines) .endless v

/-- Whatever is found in reading is a static fault, so a program with faults is not run. -/
theorem hasStatic_of_ne_nil {depth : Nat} {p : Program} (read : Program.ofSource depth source = some p)
    (faulty : p.faults ≠ []) : hasStatic p.faults = true := by
  obtain ⟨d, listed⟩ := List.exists_mem_of_ne_nil _ faulty
  refine List.any_eq_true.mpr ⟨d, listed, ?_⟩
  rw [Program.isRuntime_of_mem_faults read listed]
  rfl

/-! ### Every source that ends comes to a verdict -/

/-- Statements that were read without a fault come to one of three verdicts, unless they do not end: completed,
faulted, or too deep. -/
theorem exists_concludes_of_prints {depth : Nat} {tokens : List Token} {p : Program} {lines : List String}
    (parsed : Program.ofTokens depth tokens = some p)
    (read : Program.ofSource limits.depth source = some ⟨p.statements, []⟩)
    (prints : Prints limits.depth asked p.statements lines) (ends : ¬ Endless limits clock asked source) :
    ∃ verdict lines, Concludes limits clock asked source verdict lines := by
  rcases Run.executed_or_stopsIn limits p.statements (fresh clock lines) with ⟨v, executed⟩ | ⟨stop, v, stops⟩
  · exact ⟨_, _, .completed read prints executed⟩
  · have known : ∀ stmt ∈ p.statements, stmt.Read :=
      fun stmt listed => ⟨depth, tokens, p, parsed, stmt, listed, .here⟩
    have stored : (fresh clock lines).store.Read := World.initial_read clock
    rcases Run.stop_proper stored known stops with ⟨f, rfl⟩ | rfl | rfl
    · exact ⟨_, _, .faulted read prints stops⟩
    · exact ⟨_, _, .overflowed read prints stops⟩
    · exact absurd ⟨_, _, v, read, prints, stops⟩ ends

/-- Every source that ends comes to a verdict: it is rejected, or too deep to be read or shown, or its
statements come to one. -/
theorem exists_concludes (ends : ¬ Endless limits clock asked source) :
    ∃ verdict lines, Concludes limits clock asked source verdict lines := by
  cases read : Program.ofSource limits.depth source with
  | none => exact ⟨_, _, .unread read⟩
  | some p =>
      by_cases faulty : p.faults = []
      · obtain ⟨A, faults⟩ := p
        obtain rfl : faults = [] := faulty
        obtain ⟨p, parsed, same⟩ := Option.map_eq_some_iff.mp read
        obtain rfl : p.statements = A := congrArg Program.statements same
        cases asked with
        | false =>
            have prints : Prints limits.depth false p.statements [] := rfl
            exact exists_concludes_of_prints parsed read prints ends
        | true =>
            rcases Outline.shows_or_not limits.depth p.statements with
              ⟨lines, shows⟩ | ⟨before, stmt, after, lines, fault, split, shows, failed⟩
            · exact exists_concludes_of_prints parsed read shows ends
            · have listed : stmt ∈ p.statements := by simp [split]
              cases fault with
              | unprintable form =>
                  exact absurd failed (Program.printable_of_ofTokens parsed limits.depth stmt listed form)
              | tooDeep =>
                  rw [split] at read
                  exact ⟨_, _, .unshown read rfl shows failed⟩
      · exact ⟨_, _, .rejected read faulty⟩

/-! ### What a session makes of it -/

/-- A program that runs to its end finishes in order, and nothing is reported. -/
theorem interpret_of_executed (s : Session) (source : String) {A : List Stmt} {w v : World}
    (executed : Run.Executed limits A w v) : s.interpret limits source A w = (.finished .ok, v) := by
  unfold interpret Run.interpret
  rw [Run.executeProgram_of_executed executed]
  rfl

/-- A program that fails is reported and finishes as broken. The report has the one diagnostic of the fault, and
comes behind the lines of the program. -/
theorem interpret_of_faulted (s : Session) (source : String) {A : List Stmt} {w v : World} {f : RuntimeFault}
    (stops : Run.StopsIn limits A w (.fault f) v) : s.interpret limits source A w =
      (.finished .broken, s.printReport source [.atRuntime f.token f.message] v) := by
  unfold interpret Run.interpret
  rw [Run.executeProgram_of_stopsIn stops]
  rfl

/-- A program that stops for any other reason makes the session fail, and nothing is reported by the
session itself. -/
theorem interpret_of_stopsIn (s : Session) (source : String) {A : List Stmt} {w v : World} {stop : Stop}
    (other : ∀ f, stop ≠ .fault f) (stops : Run.StopsIn limits A w stop v) :
    s.interpret limits source A w = (.failed (.ofStop stop), v) := by
  unfold interpret Run.interpret
  rw [Run.executeProgram_of_stopsIn stops]
  cases stop with
  | fault f => exact absurd rfl (other f)
  | tooDeep | endless | unknownExpression | unknownStatement | unknownOperator | zeroDivision => rfl

section Fresh

variable (new : s.world = .initial clock)

include new

theorem start_eq : s.start = fresh clock [] := by
  unfold start fresh
  rw [new]

theorem printOutlines_start {depth : Nat} {before : List Stmt} {lines : List String}
    (shows : Outline.Shows depth before lines) (rest : List Stmt) :
    printOutlines depth (before ++ rest) s.start = printOutlines depth rest (fresh clock lines) := by
  have empty : (fresh clock []).printed ++ lines.toArray = lines.toArray := by simp [fresh]
  rw [start_eq new, printOutlines_append shows, empty]
  rfl

/-- Showing outlines that exist prints them and goes on. -/
theorem showing_of_prints {depth : Nat} {A : List Stmt} {lines : List String}
    (prints : Prints depth s.showOutlines A lines) :
    s.showing depth A s.start = .ok () (fresh clock lines) := by
  unfold showing
  cases asked : s.showOutlines with
  | false =>
      rw [asked] at prints
      obtain rfl : lines = [] := prints
      rw [start_eq new]
      rfl
  | true =>
      rw [asked] at prints
      have shown := printOutlines_start new prints []
      rw [List.append_nil] at shown
      rw [if_pos rfl, shown]
      rfl

/-- Showing stops at the first outline that is nested too deeply, with those before it printed. -/
theorem showing_of_unshown {depth : Nat} {before after : List Stmt} {stmt : Stmt} {lines : List String}
    (asked : s.showOutlines = true) (shows : Outline.Shows depth before lines)
    (deep : Outline.ofStmt depth stmt = .error .tooDeep) :
    s.showing depth (before ++ stmt :: after) s.start = .error .tooDeep (fresh clock lines) := by
  rw [showing, if_pos asked, printOutlines_start new shows, printOutlines, deep]
  rfl

/-- Running the source in a new session ends as the verdict says. The lines come first and the report last. One
case for each verdict, read off the steps of the run. -/
theorem run_of_concludes {verdict : Verdict} {lines : List String}
    (concludes : Concludes limits clock s.showOutlines source verdict lines) :
    (s.run limits source).ending = verdict.ending ∧ (s.run limits source).printed =
      lines ++ Report.lines s.guard.style s.shownPath source verdict.diagnostics := by
  have clean : hasStatic [] = false := rfl
  rw [run_eq]
  cases concludes with
  | rejected read faulty =>
      rw [(runIn_of_faulty limits read (hasStatic_of_ne_nil read faulty) s s.start).1, start_eq new]
      constructor
      · rfl
      · simp [printReport, fresh, Verdict.diagnostics]
  | unread unread =>
      rw [(runIn_of_unread limits unread s s.start).1, start_eq new]
      exact ⟨rfl, rfl⟩
  | unshown read asked shows deep =>
      rw [runIn_of_clean limits read clean, showing_of_unshown new asked shows deep]
      exact ⟨rfl, (List.append_nil _).symm⟩
  | overflowed read prints stops =>
      rw [runIn_of_clean limits read clean, showing_of_prints new prints]
      dsimp only
      rw [interpret_of_stopsIn s source (fun _ => Stop.noConfusion) stops]
      exact ⟨rfl, (List.append_nil _).symm⟩
  | faulted read prints stops =>
      rw [runIn_of_clean limits read clean, showing_of_prints new prints]
      dsimp only
      rw [interpret_of_faulted s source stops]
      constructor
      · rfl
      · simp [printReport, Verdict.diagnostics]
  | completed read prints executed =>
      rw [runIn_of_clean limits read clean, showing_of_prints new prints]
      dsimp only
      rw [interpret_of_executed s source executed]
      exact ⟨rfl, (List.append_nil _).symm⟩

/-- A program that does not end within its turns makes the run fail as endless. It is the one way to end that is
no verdict. -/
theorem run_of_endless (endless : Endless limits clock s.showOutlines source) :
    (s.run limits source).ending = .failed .endless := by
  obtain ⟨A, lines, v, read, prints, stops⟩ := endless
  have clean : hasStatic [] = false := rfl
  rw [run_eq, runIn_of_clean limits read clean, showing_of_prints new prints]
  dsimp only
  rw [interpret_of_stopsIn s source (fun _ => Stop.noConfusion) stops]
  rfl

end Fresh

end Session

end Treewalk

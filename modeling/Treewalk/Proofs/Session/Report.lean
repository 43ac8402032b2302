import Treewalk.Proofs.Report
import Treewalk.Proofs.Session.Joining

/-!
What a session reports. A report quotes the source that was just run. A fresh session knows no other
source, so its reports show the line of the offending token, as long as the lines that are shown are those
that the scanner counts. Functions outlive their source, however: in a later run the token may belong to a
function of an earlier source, and then the line quoted is another one, with the same number.
-/

namespace Treewalk

open Text

namespace Session

variable {limits : Limits} {s : Session} {source : String} {w : World} {d : Diagnostic}
  {roots : Stmt → Prop}

/-! ### What there is to report -/

/-- What running a source comes to before it is reported: the diagnostics, and the world. -/
def outcome (limits : Limits) (s : Session) (source : String) (w : World) : List Diagnostic × World :=
  match Program.ofSource limits.depth source with
  | none => ([], w)
  | some p =>
    if hasStatic p.faults then (p.faults, w)
    else
      match if s.showOutlines then printOutlines limits.depth p.statements w else .ok () w with
      | .error _ w => ([], w)
      | .ok _ w =>
        let i := Run.interpret limits p.statements [] w
        (i.diagnostics, i.world)

/-- The diagnostics that running a source reports. -/
def diagnostics (limits : Limits) (s : Session) (source : String) : List Diagnostic :=
  (s.outcome limits source s.start).1

/-- Nothing is printed when there is nothing to report. -/
theorem printReport_nil (s : Session) (source : String) (w : World) : s.printReport source [] w = w := by
  simp [printReport, Report.lines]

/-- Whatever interpreting statements records is reported, in the world that interpreting them leads to. So a
report can be told from the record. -/
theorem interpret_eq (limits : Limits) (s : Session) (source : String) (statements : List Stmt) (w : World) :
    (s.interpret limits source statements w).2 =
      s.printReport source (Run.interpret limits statements [] w).diagnostics
        (Run.interpret limits statements [] w).world := by
  unfold interpret Run.interpret
  cases Run.executeProgram limits statements w with
  | ok _ w => exact (s.printReport_nil source w).symm
  | error e w =>
      cases e with
      | fault f => rfl
      | unknownExpression | unknownStatement | unknownOperator | zeroDivision | tooDeep | endless =>
          exact (s.printReport_nil source w).symm

/-- Interpreting statements leaves the world that running them gets to, a recorded fault included. -/
theorem world_interpret (limits : Limits) (statements : List Stmt) (ds : List Diagnostic) (w : World) :
    (Run.interpret limits statements ds w).world = (Run.executeProgram limits statements).after w := by
  unfold Run.interpret Run.after
  cases Run.executeProgram limits statements w with
  | ok _ w' => rfl
  | error stop w' => cases stop <;> rfl

/-! ### The stages of a run -/

section Stages

variable {p : Program}

/-- Showing outlines, if the session shows them. -/
def showing (depth : Nat) (s : Session) (statements : List Stmt) (w : World) :
    EStateM.Result Failure World Unit :=
  if s.showOutlines then printOutlines depth statements w else .ok () w

/-- The world after showing outlines, all of them or not. -/
def shown : EStateM.Result Failure World Unit → World
  | .ok _ w | .error _ w => w

/-- A source that is nested too deeply to be read makes the run fail, and nothing is run or reported. -/
theorem runIn_of_unread (limits : Limits) (unread : Program.ofSource limits.depth source = none) (s : Session)
    (w : World) :
    s.runIn limits source w = (.failed .tooDeep, w) ∧ s.outcome limits source w = ([], w) := by
  unfold runIn outcome
  rw [unread]
  exact ⟨rfl, rfl⟩

/-- A source with a fault is reported and not run. What is reported is all that was found, and nothing else
is printed. -/
theorem runIn_of_faulty (limits : Limits) (read : Program.ofSource limits.depth source = some p)
    (faulty : hasStatic p.faults = true) (s : Session) (w : World) :
    s.runIn limits source w = (.finished .badProgram, s.printReport source p.faults w) ∧
      s.outcome limits source w = (p.faults, w) := by
  unfold runIn outcome
  rw [read]
  simp only [if_pos faulty, and_self]

/-- A source without a fault is shown, if outlines are asked for, and then run. -/
theorem runIn_of_clean (limits : Limits) (read : Program.ofSource limits.depth source = some p)
    (clean : hasStatic p.faults = false) (s : Session) (w : World) :
    s.runIn limits source w = match s.showing limits.depth p.statements w with
      | .error f w' => (.failed f, w')
      | .ok _ w' => s.interpret limits source p.statements w' := by
  cases asked : s.showOutlines with
  | false => simp [runIn, showing, read, clean, asked]
  | true =>
      cases shown : printOutlines limits.depth p.statements w with
      | ok _ w' => simp [runIn, showing, read, clean, asked, shown]
      | error f w' => simp [runIn, showing, read, clean, asked, shown]

theorem outcome_of_clean (limits : Limits) (read : Program.ofSource limits.depth source = some p)
    (clean : hasStatic p.faults = false) (s : Session) (w : World) :
    s.outcome limits source w = match s.showing limits.depth p.statements w with
      | .error _ w' => ([], w')
      | .ok _ w' => ((Run.interpret limits p.statements [] w').diagnostics,
          (Run.interpret limits p.statements [] w').world) := by
  cases asked : s.showOutlines with
  | false => simp [outcome, showing, read, clean, asked]
  | true =>
      cases shown : printOutlines limits.depth p.statements w with
      | ok _ w' => simp [outcome, showing, read, clean, asked, shown]
      | error f w' => simp [outcome, showing, read, clean, asked, shown]

theorem store_printOutlines (depth : Nat) (statements : List Stmt) (w : World) :
    (shown (printOutlines depth statements w)).store = w.store := by
  induction statements generalizing w with
  | nil => rfl
  | cons stmt rest ih =>
      unfold printOutlines
      cases Outline.ofStmt depth stmt with
      | error f => cases f <;> rfl
      | ok line => exact ih { w with printed := w.printed.push line }

/-- Showing outlines binds nothing, whether or not they are asked for and whether or not they all exist. -/
theorem store_showing (depth : Nat) (s : Session) (statements : List Stmt) (w : World) :
    (shown (s.showing depth statements w)).store = w.store := by
  unfold showing
  by_cases asked : s.showOutlines = true
  · rw [if_pos asked]
    exact store_printOutlines depth statements w
  · rw [if_neg asked]
    rfl

end Stages

/-! ### What comes last -/

/-- A run prints its report behind everything else, and what is reported is what the run recorded. -/
theorem runIn_eq (limits : Limits) (s : Session) (source : String) (w : World) :
    (s.runIn limits source w).2 =
      s.printReport source (s.outcome limits source w).1 (s.outcome limits source w).2 := by
  cases read : Program.ofSource limits.depth source with
  | none =>
      obtain ⟨ran, found⟩ := runIn_of_unread limits read s w
      rw [ran, found, printReport_nil]
  | some p =>
      cases faulty : hasStatic p.faults with
      | true =>
          obtain ⟨ran, found⟩ := runIn_of_faulty limits read faulty s w
          rw [ran, found]
      | false =>
          rw [runIn_of_clean limits read faulty, outcome_of_clean limits read faulty]
          cases s.showing limits.depth p.statements w with
          | error f w' => exact (s.printReport_nil source w').symm
          | ok _ w' => exact s.interpret_eq limits source p.statements w'

/-- A run starts with nothing printed, and its result holds all lines that were printed, in order. -/
theorem run_eq (limits : Limits) (s : Session) (source : String) :
    s.run limits source = ⟨(s.runIn limits source s.start).1, (s.runIn limits source s.start).2.printed.toList,
      { s with world := { (s.runIn limits source s.start).2 with printed := #[] } }⟩ := by
  have begun : ({ s.world with printed := #[] } : World) = s.start := rfl
  rw [run, begun]

/-- The report comes last. What stands before it is what was shown and what the statements printed. -/
theorem printed_run (limits : Limits) (s : Session) (source : String) : ∃ printed,
    (s.run limits source).printed =
      printed ++ Report.lines s.guard.style s.shownPath source (s.diagnostics limits source) := by
  rw [run_eq, runIn_eq]
  exact ⟨(s.outcome limits source s.start).2.printed.toList, by simp [printReport, diagnostics]⟩

theorem store_run (limits : Limits) (s : Session) (source : String) :
    (s.run limits source).session.world.store = (s.outcome limits source s.start).2.store := by
  rw [run_eq, runIn_eq, printReport]

/-- Code that a source brings into a run, having been read without a static fault. -/
def Brings (limits : Limits) (source : String) (root : Stmt) : Prop :=
  ∃ p, Program.ofSource limits.depth source = some p ∧ hasStatic p.faults = false ∧ root ∈ p.statements

/-- The roots of all code that a run may reach, given those of the functions in the store. -/
def Reached (limits : Limits) (source : String) (roots : Stmt → Prop) (root : Stmt) : Prop :=
  roots root ∨ Brings limits source root

/-- Running a source interprets its statements, unless there is a static fault, or it is read or shown in vain.
Outlines leave the store as it is. Facts about runs are proved by these cases. -/
theorem outcome_cases (limits : Limits) (s : Session) (source : String) (w : World) :
    (s.outcome limits source w).1 = [] ∧ (s.outcome limits source w).2.store = w.store ∨
    ∃ p, Program.ofSource limits.depth source = some p ∧
      (s.outcome limits source w = (p.faults, w) ∨
        hasStatic p.faults = false ∧ ∃ w' : World, w'.store = w.store ∧
          s.outcome limits source w = ((Run.interpret limits p.statements [] w').diagnostics,
            (Run.interpret limits p.statements [] w').world)) := by
  cases read : Program.ofSource limits.depth source with
  | none =>
      rw [(runIn_of_unread limits read s w).2]
      exact .inl ⟨rfl, rfl⟩
  | some p =>
      cases faulty : hasStatic p.faults with
      | true => exact .inr ⟨p, rfl, .inl (runIn_of_faulty limits read faulty s w).2⟩
      | false =>
          have kept := store_showing limits.depth s p.statements w
          rw [outcome_of_clean limits read faulty]
          cases outlines : s.showing limits.depth p.statements w with
          | error f w' =>
              rw [outlines] at kept
              exact .inl ⟨rfl, kept⟩
          | ok _ w' =>
              rw [outlines] at kept
              exact .inr ⟨p, rfl, .inr ⟨faulty, w', kept, rfl⟩⟩

/-- Interpreting the statements of a source in a store whose functions come from some roots: faults are blamed
on the roots or the source, and the functions afterwards come from these. -/
theorem interpret_brings (limits : Limits) {p : Program} (read : Program.ofSource limits.depth source = some p)
    (clean : hasStatic p.faults = false) (stored : w.store.Under roots) :
    (Run.interpret limits p.statements [] w).Blames (Reached limits source roots) [] := by
  apply Run.interpret_blames
  · exact stored.mono fun _ => .inl
  · exact fun root listed => .inr ⟨p, read, clean, listed⟩

/-- All functions in the store after a run come from the roots before it or from the source. A source that is
not interpreted adds none. -/
theorem outcome_store (limits : Limits) (s : Session) (source : String) (stored : w.store.Under roots) :
    (s.outcome limits source w).2.store.Under (Reached limits source roots) := by
  have before : w.store.Under (Reached limits source roots) := stored.mono fun _ => .inl
  rcases outcome_cases limits s source w with ⟨-, same⟩ | ⟨p, read, static | ⟨clean, w', same, ran⟩⟩
  · rw [same]
    exact before
  · rw [static]
    exact before
  · rw [ran]
    exact (interpret_brings limits read clean (same ▸ stored)).store

/-- What is reported is a static fault, or it is the one runtime fault that the statements stopped at. -/
theorem outcome_diagnostics (stored : w.store.Under roots) (found : d ∈ (s.outcome limits source w).1) :
    (∃ p, Program.ofSource limits.depth source = some p ∧ d ∈ p.faults) ∨
      (s.outcome limits source w).1 = [d] ∧ ∃ t message, d = .atRuntime t message ∧
        ∃ e : Expr, e.Under (Reached limits source roots) ∧ e.blamed? = some t := by
  rcases outcome_cases limits s source w with ⟨silent, -⟩ | ⟨p, read, static | ⟨clean, w', same, ran⟩⟩
  · rw [silent] at found
    cases found
  · rw [static] at found
    exact .inl ⟨p, read, found⟩
  · rw [ran] at found ⊢
    rcases (interpret_brings limits read clean (same ▸ stored)).recorded with ⟨-, silent⟩ | ⟨-, f, one, blames⟩
    · rw [silent] at found
      cases found
    · rw [one] at found ⊢
      obtain rfl := List.mem_singleton.mp found
      exact .inr ⟨rfl, f.token, f.message, rfl, blames⟩

/-- Runtime faults are blamed on tokens of the source that brought the code, since the tree of a source holds no
other tokens. -/
theorem Brings.scanned {root : Stmt} {e : Expr} {t : Token} (brings : Brings limits source root)
    (mentions : root.Mentions e) (blamed : e.blamed? = some t) :
    t ∈ (Scan.ofSource source).tokens ∧ t.kind ∈ blamedKinds := by
  obtain ⟨p, read, -, listed⟩ := brings
  exact Program.Blames.scanned ⟨root, listed, e, mentions, blamed⟩ read

/-! ### A fresh session -/

/-- A session is opened with the style it is given and in the initial world. -/
theorem open_eq {guard : Guard} {path : String} {interactive showOutlines : Bool} {clock : Clock}
    (opened : Session.open guard path interactive showOutlines clock = .ok s) :
    s.guard.style = guard.style ∧ s.world = .initial clock := by
  unfold Session.open at opened
  split at opened
  · cases opened
    exact ⟨rfl, rfl⟩
  · split at opened
    · cases opened
    · cases opened
      exact ⟨rfl, rfl⟩

/-- As long as the store holds no function, what is reported with a column names a token of the source. No other
source has any code that could fail. -/
theorem diagnostics_name (fresh : s.world.store.Under fun _ => False)
    (found : d ∈ s.diagnostics limits source) {c : Int} (placed : d.column = some c) :
    ∃ t ∈ (Scan.ofSource source).tokens, t.kind ≠ .endOfInput ∧ d.Names t := by
  have stored : s.start.store.Under fun _ => False := fresh
  rcases outcome_diagnostics stored found with ⟨p, read, listed⟩ | ⟨-, t, message, rfl, e, under, blamed⟩
  · obtain ⟨reading, same, each⟩ := Program.faults_name_tokens read
    rw [same] at listed
    rcases List.mem_append.mp listed with lexical | syntactic
    · unfold Diagnostic.column at placed
      rw [Scan.site_of_mem_faults lexical] at placed
      cases placed
    · rcases (each d syntactic).2 with named | ⟨last, -, -, atEnd⟩
      · exact named
      · rw [atEnd] at placed
        cases placed
  · obtain ⟨root, never | brings, mentions⟩ := under
    · exact never.elim
    · obtain ⟨scanned, kind⟩ := brings.scanned mentions blamed
      exact ⟨t, scanned, (inner_of_blamed kind).1, Diagnostic.names_atRuntime t message⟩

/-- **A report underlines the token it names.** A diagnostic with a column, reported by the first run of a
session without colors, names a token of the source. If every line above ends with a line feed, alone or behind
a carriage return, and no break stands on the token's line up to its end, then that line is printed under the
message, with an underline that begins below the token and is as long. A break on the line behind the token ends
what is printed of it. -/
theorem report_underlines_token (limits : Limits) {fatal interactive showOutlines : Bool} {path : String}
    {clock : Clock} (opened : Session.open ⟨fatal, .plain⟩ path interactive showOutlines clock = .ok s)
    (found : d ∈ s.diagnostics limits source) {c : Int} (placed : d.column = some c) :
    ∃ t ∈ (Scan.ofSource source).tokens, d.Names t ∧ ∃ offset above before after,
      t.StandsAt source.toList offset ∧
      IsLine source.toList d.line above (before ++ t.lexeme.toList ++ after) ∧
      offset = above.length + before.length ∧ c = before.length ∧
      (OnlyLineEnds above → (∀ c ∈ before ++ t.lexeme.toList, isLineBreak c = false) → ∃ earlier later,
        (s.run limits source).printed = earlier ++
          [Report.headline .plain s.shownPath d, Excerpt.underlined
            (before ++ t.lexeme.toList ++ upToBreak after) before.length t.lexeme.length] ++ later) := by
  obtain ⟨style, fresh⟩ := open_eq opened
  obtain ⟨t, scanned, inner, names⟩ :=
    diagnostics_name (fresh ▸ World.initial_under _ clock) found placed
  obtain ⟨offset, stands⟩ := Scan.standsAt_of_mem scanned inner
  obtain ⟨above, before, after, isLine, column, same, quoted⟩ := Report.excerpt?_of_token names stands placed
  rw [names.lexeme] at isLine quoted
  refine ⟨t, scanned, names, offset, above, before, after, stands, isLine, same, column, ?_⟩
  intro ends unbroken
  obtain ⟨printed, ended⟩ := s.printed_run limits source
  obtain ⟨earlier, later, reported⟩ := Report.lines_of_mem .plain s.shownPath source found
  rw [quoted ends unbroken, Excerpt.marked_plain, String.length_toList] at reported
  refine ⟨printed ++ earlier, later, ?_⟩
  rw [ended, style, reported]
  simp

/-- A variable that no one declared, on the second line. Both lines end with a carriage return and a line feed. -/
def undeclaredName : String := "print \"a\";\r\nprint name;\r\n"

/-- A name that is not declared, on the second line of a source whose lines end with carriage returns and line
feeds: the whole line is quoted and the name is underlined. -/
theorem undeclared_underlined : ∃ s d,
    Session.open ⟨true, .plain⟩ "names" false false .stopped = .ok s ∧
    d ∈ s.diagnostics ⟨40, 9⟩ undeclaredName ∧ d.column = some 6 ∧
    ∃ above before lexeme after earlier later,
      IsLine undeclaredName.toList d.line above (before ++ lexeme ++ after) ∧ OnlyLineEnds above ∧
      (s.run ⟨40, 9⟩ undeclaredName).printed = earlier ++
        [Report.headline .plain s.shownPath d,
          Excerpt.underlined (before ++ lexeme ++ upToBreak after) 6 lexeme.length] ++ later := by
  have opened : Session.open ⟨true, .plain⟩ "names" false false .stopped =
      .ok ⟨⟨true, .plain⟩, "names", false, .initial .stopped⟩ := rfl
  have found : ((Session.mk ⟨true, .plain⟩ "names" false (.initial .stopped)).diagnostics ⟨40, 9⟩
      undeclaredName).any (fun d => d.column == some 6 && d.lexeme == "name") = true := by decide +kernel
  obtain ⟨d, listed, holds⟩ := List.any_eq_true.mp found
  obtain ⟨placed, named⟩ := Bool.and_eq_true_iff.mp holds
  have column : d.column = some 6 := by simpa using placed
  have lexeme : d.lexeme = "name" := by simpa using named
  obtain ⟨t, -, names, offset, above, before, after, -, isLine, -, six, quoted⟩ :=
    report_underlines_token ⟨40, 9⟩ opened listed column
  have ends : OnlyLineEnds undeclaredName.toList := by
    have first : OnlyFeeds "print \"a\";".toList := by decide +kernel
    have second : OnlyFeeds "print name;".toList := by decide +kernel
    exact first.onlyLineEnds.append (.returnFeed (second.onlyLineEnds.append (.returnFeed .nil)))
  obtain ⟨below, split, -⟩ := isLine.ends
  have endsAbove : OnlyLineEnds above := ends.upTo (by rw [split, List.append_assoc]) isLine.begins
  have named : t.lexeme.toList = "name".toList := by rw [← names.lexeme, lexeme]
  have unbroken : ∀ c ∈ before ++ t.lexeme.toList, isLineBreak c = false := by
    have whole : undeclaredName.toList = above ++ (before ++ 'n' :: ("ame".toList ++ (after ++ below))) := by
      rw [split, named]
      simp
    have noFeed : '\n' ∉ before ++ ['n'] := by
      intro listed
      have early : '\n' ∈ before := by simpa using listed
      exact isLine.unbroken (by simp [early])
    have calm : ("name".toList.all fun c => !isLineBreak c) = true := rfl
    intro c listed
    rcases List.mem_append.mp listed with first | second
    · exact ends.unbroken whole noFeed c first
    · simpa using List.all_eq_true.mp calm c (named ▸ second)
  obtain ⟨earlier, later, printed⟩ := quoted endsAbove unbroken
  have length : before.length = 6 := by omega
  rw [length, ← String.length_toList] at printed
  exact ⟨_, d, opened, listed, column, above, before, _, after, earlier, later, isLine, endsAbove, printed⟩

/-- A form feed ends a shown line but no line of the scanner: the comment is quoted instead. -/
example : ((Session.mk ⟨false, .plain⟩ promptPath false (.initial .stopped)).run ⟨40, 9⟩
    "// a\x0cprint x;\nx;").printed =
      ["[line 2] runtime error: Undefined variable 'x'.", "    print x;\n          ^"] := by
  decide +kernel

/-! ### Several runs -/

/-- A function that a source declares somewhere in the code that it brings. -/
def Declares (limits : Limits) (source : String) (f : Stmt) : Prop :=
  (∃ name parameters body, f = .function name parameters body) ∧
    ∃ root, Brings limits source root ∧ f.Within root

/-- A function that one of the sources declares. -/
def DeclaredIn (limits : Limits) (sources : List String) (f : Stmt) : Prop :=
  ∃ source ∈ sources, Declares limits source f

/-- Runs sources one after another. -/
def runAll (limits : Limits) (s : Session) (sources : List String) : Session :=
  sources.foldl (fun s source => (s.run limits source).session) s

/-- Running several sources is running the first and then the others in the session that it leaves. -/
theorem runAll_cons (limits : Limits) (s : Session) (source : String) (sources : List String) :
    s.runAll limits (source :: sources) = (s.run limits source).session.runAll limits sources :=
  List.foldl_cons ..

/-- The guard and the path of a session never change, so reports keep their style and their path. -/
theorem runAll_guard (limits : Limits) (s : Session) (sources : List String) :
    (s.runAll limits sources).guard = s.guard ∧ (s.runAll limits sources).path = s.path := by
  induction sources generalizing s with
  | nil => exact ⟨rfl, rfl⟩
  | cons source sources ih =>
      have same : (s.run limits source).session.guard = s.guard ∧
          (s.run limits source).session.path = s.path := by
        rw [run_eq]
        exact ⟨rfl, rfl⟩
      rw [runAll_cons, ← same.1, ← same.2]
      exact ih (s.run limits source).session

/-- Whatever functions a run leaves in the store were there before or are declared in its source. This is the
step for sessions of several runs. -/
theorem run_declared {earlier : List String} (stored : s.world.store.Under (DeclaredIn limits earlier))
    (source : String) :
    (s.run limits source).session.world.store.Under (DeclaredIn limits (earlier ++ [source])) := by
  have begun : s.start.store.Under (DeclaredIn limits earlier) := stored
  rw [store_run]
  apply (outcome_store limits s source begun).imp
  rintro name parameters body ⟨root, ⟨old, listed, declares⟩ | brings, within⟩
  · exact ⟨root, ⟨old, List.mem_append_left _ listed, declares⟩, within⟩
  · refine ⟨_, ⟨source, List.mem_append_right _ (List.mem_singleton_self _), ?_⟩, .here⟩
    exact ⟨⟨name, parameters, body, rfl⟩, root, brings, within⟩

/-- All functions of a session are declared in the sources that it has run. By induction over the sources, one
`run_declared` for each. -/
theorem runAll_declared {earlier : List String} (stored : s.world.store.Under (DeclaredIn limits earlier))
    (sources : List String) :
    (s.runAll limits sources).world.store.Under (DeclaredIn limits (earlier ++ sources)) := by
  induction sources generalizing s earlier with
  | nil => simpa [runAll] using stored
  | cons source sources ih =>
      rw [runAll_cons, List.append_cons]
      exact ih (run_declared stored source)

/-- **A report quotes the source that was just run.** After any runs, a runtime fault names a token `t` that it
is blamed on. A token of the source that was just run is shown on its line. Otherwise `t` stands in a function
of an earlier source, and an excerpt, if there is one, shows the line of that number in the source that was
just run. -/
theorem report_quotes_current_source (limits : Limits) {guard : Guard} {path : String}
    {interactive showOutlines : Bool} {clock : Clock}
    (opened : Session.open guard path interactive showOutlines clock = .ok s) (sources : List String)
    (feeds : OnlyFeeds source.toList)
    (found : d ∈ (s.runAll limits sources).diagnostics limits source) (runtime : d.isRuntime = true) :
    ∃ t printed excerpt, d.Names t ∧
      ((s.runAll limits sources).run limits source).printed =
        printed ++ Report.headline guard.style s.shownPath d :: excerpt.toList ∧
      (t ∈ (Scan.ofSource source).tokens ∧ (∃ offset, t.StandsAt source.toList offset ∧
          ∃ text, excerpt = some text ∧ Report.Quotes guard.style source.toList d offset text) ∨
        ∃ earlier ∈ sources, t ∈ (Scan.ofSource earlier).tokens ∧
          (∃ f, Declares limits earlier f ∧ ∃ e, f.Mentions e ∧ e.blamed? = some t) ∧
          ∀ text ∈ excerpt, ∃ offset, Report.Quotes guard.style source.toList d offset text) := by
  obtain ⟨style, fresh⟩ := open_eq opened
  obtain ⟨sameGuard, samePath⟩ := s.runAll_guard limits sources
  have shownPath : (s.runAll limits sources).shownPath = s.shownPath := by
    unfold Session.shownPath
    rw [samePath]
  have empty : s.world.store.Under (DeclaredIn limits []) := fresh ▸ World.initial_under _ clock
  have stored : (s.runAll limits sources).start.store.Under (DeclaredIn limits sources) :=
    runAll_declared empty sources
  rcases outcome_diagnostics stored found with ⟨p, read, listed⟩ | ⟨one, t, message, rfl, e, under, blamed⟩
  · rw [Program.isRuntime_of_mem_faults read listed] at runtime
    cases runtime
  have names := Diagnostic.names_atRuntime t message
  obtain ⟨printed, ended⟩ := (s.runAll limits sources).printed_run limits source
  rw [diagnostics, one, sameGuard, shownPath, style] at ended
  refine ⟨t, printed, Report.excerpt? guard.style (shownLines source.toList) (.atRuntime t message), names,
    ?_, ?_⟩
  · rw [ended]
    simp [Report.lines]
  obtain ⟨root, ⟨earlier, listed, declares⟩ | brings, mentions⟩ := under
  · have declared := declares
    obtain ⟨-, outer, brings, within⟩ := declares
    obtain ⟨scanned, kind⟩ := brings.scanned (mentions.outer within) blamed
    obtain ⟨offset, stands⟩ := Scan.standsAt_of_mem scanned (inner_of_blamed kind).1
    refine .inr ⟨earlier, listed, scanned, ⟨root, declared, e, mentions, blamed⟩, ?_⟩
    intro text quoted
    exact Report.quotes_of_excerpt? feeds stands.natural quoted
  · obtain ⟨scanned, kind⟩ := brings.scanned mentions blamed
    obtain ⟨inner, short⟩ := inner_of_blamed kind
    obtain ⟨offset, stands⟩ := Scan.standsAt_of_mem scanned inner
    obtain ⟨c, placed⟩ := Scan.exists_column scanned inner short
    obtain ⟨above, before, after, isLine, -, same, quoted⟩ := Report.excerpt?_of_token names stands placed
    have unbroken := feeds.unbroken isLine
    have ends : OnlyLineEnds above := OnlyFeeds.onlyLineEnds fun c listed =>
      feeds.upTo isLine c (List.mem_append_left _ listed)
    have whole : upToBreak after = after :=
      upToBreak_eq_self fun c listed => unbroken c (List.mem_append_right _ listed)
    have shown := quoted ends (fun c listed => unbroken c (List.mem_append_left _ listed)) guard.style
    rw [whole] at shown
    exact .inl ⟨scanned, offset, stands, _, shown, above, before, after, isLine, same, rfl⟩

/-- A function of the first source fails in the second run, at a name that the second source has too. -/
theorem double_quotes_current_source : ∃ s d,
    Session.open ⟨false, .plain⟩ promptPath true false .stopped = .ok s ∧
    d ∈ (s.runAll ⟨40, 9⟩ ["fun double() \x7b return n + n; \x7d"]).diagnostics ⟨40, 9⟩
      "\x7b var n = \"a\"; print double(); \x7d" ∧ d.isRuntime = true ∧
    ∃ t ∈ (Scan.ofSource "fun double() \x7b return n + n; \x7d").tokens, d.Names t ∧
    ∃ (printed : List String) (excerpt : Option String),
      ((s.runAll ⟨40, 9⟩ ["fun double() \x7b return n + n; \x7d"]).run ⟨40, 9⟩
        "\x7b var n = \"a\"; print double(); \x7d").printed =
          printed ++ Report.headline .plain s.shownPath d :: excerpt.toList ∧
      ∀ text ∈ excerpt, ∃ offset,
        Report.Quotes .plain "\x7b var n = \"a\"; print double(); \x7d".toList d offset text := by
  have opened : Session.open ⟨false, .plain⟩ promptPath true false .stopped =
      .ok ⟨⟨false, .plain⟩, promptPath, false, .initial .stopped⟩ := rfl
  have stopped : (((Session.mk ⟨false, .plain⟩ promptPath false (.initial .stopped)).runAll ⟨40, 9⟩
      ["fun double() \x7b return n + n; \x7d"]).diagnostics ⟨40, 9⟩
        "\x7b var n = \"a\"; print double(); \x7d").any
          (fun d => d.isRuntime && d.column == some 22) = true := by decide +kernel
  -- nothing begins at that column of the second source
  have apart : ((Scan.ofSource "\x7b var n = \"a\"; print double(); \x7d").tokens.all
      fun t => t.column != some 22) = true := by decide +kernel
  obtain ⟨d, listed, holds⟩ := List.any_eq_true.mp stopped
  obtain ⟨runtime, placed⟩ := Bool.and_eq_true_iff.mp holds
  have column : d.column = some 22 := by simpa using placed
  obtain ⟨t, printed, excerpt, names, ended, ⟨scanned, -⟩ | ⟨earlier, first, scanned, -, quoted⟩⟩ :=
    report_quotes_current_source ⟨40, 9⟩ opened _ (by decide +kernel) listed runtime
  · have other := List.all_eq_true.mp apart t scanned
    simp [← names.column, column] at other
  · obtain rfl := List.mem_singleton.mp first
    exact ⟨_, d, opened, listed, runtime, t, scanned, names, printed, excerpt, ended, quoted⟩

/-- The failing `n` is the one that `double` adds; the line quoted is the one that calls `double`. -/
example : (((Session.mk ⟨false, .plain⟩ promptPath false (.initial .stopped)).runAll ⟨40, 9⟩
    ["fun double() \x7b return n + n; \x7d"]).run ⟨40, 9⟩
      "\x7b var n = \"a\"; print double(); \x7d").printed =
        ["[line 1] runtime error: Undefined variable 'n'.",
          "    \x7b var n = \"a\"; print double(); \x7d\n          ^"] := by
  decide +kernel

end Session

end Treewalk

import Treewalk.Proofs.Prompt
import Treewalk.Proofs.Prompt.Continuation
import Treewalk.Proofs.Session.Safety

/-!
No line ends the conversation but the commands that are there for it. `Sound` is what every prompt keeps
that starts from an interactive session: its guard is not fatal, the functions in its store were read, and
its mark tells whether a source is pending. From a sound prompt nothing escapes, short of a program that
does not end. A rejected input leaves the prompt as it was, so it can be deleted from a transcript.
-/

namespace Treewalk

open Text

namespace Prompt

/-- Whether a line is a command, and no part of a source. -/
def isCommand (line : List Char) : Bool := (Request.ofLine line).text?.isNone

/-- What is seen of a line: what it printed, whether it ended the conversation, and what escaped. -/
structure Entry where
  line : List Char
  printed : List String
  done : Bool
  escaped : Option Failure

/-- Whether an entry is about a command. -/
def Entry.isCommand (e : Entry) : Bool := Prompt.isCommand e.line

/-- What is seen of one line. -/
def entry (limits : Limits) (p : Prompt) (line : List Char) : Entry :=
  ⟨line, (p.feed limits line).printed, (p.feed limits line).done, (p.feed limits line).escaped⟩

/-- What is seen of lines fed one after another. -/
def transcript (limits : Limits) (p : Prompt) : List (List Char) → List Entry
  | [] => []
  | line :: rest => p.entry limits line :: (p.feed limits line).prompt.transcript limits rest

/-- The lines of one input: none is pending before them, and the last of them completes its source. -/
def Inputs (limits : Limits) (p : Prompt) (lines : List (List Char)) (source : List Char) : Prop :=
  p.pending = [] ∧ ∃ init last, lines = init ++ [last] ∧
    (∀ step ∈ p.feedAll limits init, step.ran = none) ∧
    ((p.afterAll limits init).feed limits last).ran = some source

variable {limits : Limits} {p : Prompt} {line : List Char}

/-- The prompt after lines and more lines is that after the second ones, given at the prompt after the first. -/
theorem afterAll_append (limits : Limits) (p : Prompt) (lines more : List (List Char)) :
    p.afterAll limits (lines ++ more) = (p.afterAll limits lines).afterAll limits more := by
  induction lines generalizing p with
  | nil => rfl
  | cons line lines ih => exact ih (p.feed limits line).prompt

/-- What is printed for lines and more lines comes in their order, and the later part is what the prompt after
the first lines prints. -/
theorem transcript_append (limits : Limits) (p : Prompt) (lines more : List (List Char)) :
    p.transcript limits (lines ++ more) =
      p.transcript limits lines ++ (p.afterAll limits lines).transcript limits more := by
  induction lines generalizing p with
  | nil => rfl
  | cons line lines ih => exact congrArg _ (ih (p.feed limits line).prompt)

/-! ### What every prompt keeps -/

/-- What holds of a prompt between two lines. -/
structure Sound (p : Prompt) : Prop where
  fatal : p.session.guard.fatal = false
  quiet : p.session.world.printed = #[]
  read : p.session.world.store.Read
  mark : p.mark = if p.pending.isEmpty then firstMark else secondMark
  waits : p.pending ≠ [] → needsContinuation p.pending = true

theorem sound_ofSession {s : Session} (fatal : s.guard.fatal = false) (quiet : s.world.printed = #[])
    (read : s.world.store.Read) : (ofSession s).Sound :=
  ⟨fatal, quiet, read, rfl, fun pending => absurd rfl pending⟩

/-- An interactive session that was just opened has a sound prompt: the guard is not fatal, nothing was printed,
and the store holds only what was read, which is nothing yet. -/
theorem Sound.ofOpen {guard : Guard} {path : String} {showOutlines : Bool} {clock : Clock} {s : Session}
    (opened : Session.open guard path true showOutlines clock = .ok s) : (ofSession s).Sound := by
  cases opened
  exact sound_ofSession rfl rfl (World.initial_read clock)

/-- Running a source leaves a sound prompt, however the run ends. What the run printed is taken out of the
world, and what is bound was read. -/
theorem Sound.runSource (limits : Limits) (source : List Char) (sound : p.Sound) :
    (p.runSource limits source).prompt.Sound := by
  have read := (p.session.run_proper limits (String.ofList source) sound.read).2
  rw [(runSource_ran limits p source).prompt]
  apply sound_ofSession
  · rw [Session.run_eq]
    exact sound.fatal
  · rw [Session.run_eq]
  · exact read

theorem Sound.addText (limits : Limits) (text : List Char) (sound : p.Sound) :
    (p.addText limits text).prompt.Sound := by
  unfold Prompt.addText addBlank addCode
  dsimp only
  split_ifs with blank idle waits
  · exact sound
  · have pending : p.pending ≠ [] := by simpa using idle
    refine ⟨sound.fatal, sound.quiet, sound.read, ?_, fun _ => ?_⟩
    · simpa [idle] using sound.mark
    · exact (needsContinuation_feed p.pending).trans (sound.waits pending)
  · refine ⟨sound.fatal, sound.quiet, sound.read, by simp, fun _ => ?_⟩
    exact (needsContinuation_feed _).trans waits
  · exact sound.runSource limits _

/-- Every line leaves a sound prompt. From this, by induction, all lines do. -/
theorem Sound.feed (limits : Limits) (line : List Char) (sound : p.Sound) :
    (p.feed limits line).prompt.Sound := by
  cases asked : (Request.ofLine line).text? with
  | none =>
      rw [feed_command asked]
      exact sound
  | some text =>
      rw [feed_text asked]
      exact sound.addText limits text

/-- Whatever lines are given, the prompt stays sound. By induction over the lines, one `Sound.feed` for each. -/
theorem Sound.afterAll (limits : Limits) (lines : List (List Char)) (sound : p.Sound) :
    (p.afterAll limits lines).Sound := by
  induction lines generalizing p with
  | nil => exact sound
  | cons line lines ih => exact ih (sound.feed limits line)

/-- The second mark is shown exactly while a source is pending. -/
theorem Sound.mark_eq_iff (sound : p.Sound) : p.mark = secondMark ↔ p.pending ≠ [] := by
  rw [sound.mark]
  cases p.pending with
  | nil => decide
  | cons c rest => simp

/-! ### Nothing escapes -/

/-- No failure escapes from running a source, unless the program does not end. The guard of an interactive
session is not fatal, so it reports what it catches and goes on. -/
theorem Sound.escaped_runSource (limits : Limits) (source : List Char) (sound : p.Sound) :
    (p.runSource limits source).escaped = none ∨
      (p.session.run limits (String.ofList source)).ending = .failed .endless := by
  have proper := (p.session.run_proper limits (String.ofList source) sound.read).1
  unfold Prompt.runSource
  dsimp only
  generalize (p.session.run limits (String.ofList source)).ending = ending at proper ⊢
  cases proper with
  | finished status => exact .inl rfl
  | tooDeep =>
      left
      simp [Guard.aftermath, sound.fatal]
  | endless => exact .inr rfl

/-- A line that lets something escape has run a source, and the program of that source does not end. -/
theorem Sound.escaped_feed (limits : Limits) (line : List Char) (sound : p.Sound) :
    (p.feed limits line).escaped = none ∨ ∃ source, (p.feed limits line).ran = some source ∧
      (p.session.run limits (String.ofList source)).ending = .failed .endless := by
  rcases feed_cases limits p line with ⟨-, fed⟩ | ⟨_, _, -, fed, -⟩ | ⟨text, -, fed⟩
  · exact .inl (by rw [fed])
  · exact .inl (by rw [fed])
  · rw [fed, (runSource_ran limits p _).ran]
    rcases sound.escaped_runSource limits (p.pending ++ text) with caught | endless
    · exact .inl caught
    · exact .inr ⟨_, rfl, endless⟩

/-- The conversation is done after a command that ends it, and after nothing else. -/
theorem done_feed (limits : Limits) (p : Prompt) (line : List Char) :
    (p.feed limits line).done = (Request.ofLine line).ends := by
  rcases feed_cases limits p line with ⟨-, fed⟩ | ⟨_, _, adds, fed, -⟩ | ⟨text, adds, fed⟩
  · rw [fed]
  · rw [fed, Request.ends_of_text adds]
  · rw [fed, Request.ends_of_text adds, (runSource_ran limits p _).goesOn]

/-! ### Rejected inputs leave no trace -/

/-- A line that runs nothing leaves the session as it is: a command, and a line of a source that is not
complete yet. -/
theorem session_feed (silent : (p.feed limits line).ran = none) :
    (p.feed limits line).prompt.session = p.session := by
  rcases feed_cases limits p line with ⟨-, fed⟩ | ⟨_, q, -, fed, session⟩ | ⟨text, -, fed⟩
  · rw [fed]
  · rw [fed, session]
  · rw [fed, (runSource_ran limits p _).ran] at silent
    cases silent

theorem session_afterAll {lines : List (List Char)} (silent : ∀ step ∈ p.feedAll limits lines, step.ran = none) :
    (p.afterAll limits lines).session = p.session := by
  induction lines generalizing p with
  | nil => rfl
  | cons line lines ih =>
      obtain ⟨first, later⟩ := List.forall_mem_cons.mp silent
      exact (ih later).trans (session_feed first)

/-- A line that runs a source leaves a prompt with nothing pending, in the session that the run leaves. -/
theorem prompt_feed {source : List Char} (ran : (p.feed limits line).ran = some source) :
    (p.feed limits line).prompt = ofSession (p.session.run limits (String.ofList source)).session := by
  rcases feed_cases limits p line with ⟨-, fed⟩ | ⟨_, _, -, fed, -⟩ | ⟨text, -, fed⟩
  · rw [fed] at ran
    cases ran
  · rw [fed] at ran
    cases ran
  · obtain ⟨source', after, -, -⟩ := runSource_ran limits p (p.pending ++ text)
    rw [fed, source'] at ran
    cases ran
    rw [fed, after]

theorem Sound.eq_ofSession (sound : p.Sound) (idle : p.pending = []) : p = ofSession p.session := by
  have mark := sound.mark
  obtain ⟨session, pending, mark⟩ := p
  cases idle
  cases mark
  rfl

/-- Lines that make up a rejected source leave the prompt as it was before them. The source binds nothing and
prints nothing that the session keeps. -/
theorem Sound.afterAll_rejected {lines : List (List Char)} {source : List Char} (sound : p.Sound)
    (input : p.Inputs limits lines source) (rejected : Program.Rejected limits (String.ofList source)) :
    p.afterAll limits lines = p := by
  obtain ⟨idle, init, last, rfl, silent, ran⟩ := input
  have same := (Session.run_rejected rejected sound.quiet).2
  calc p.afterAll limits (init ++ [last])
      = ((p.afterAll limits init).feed limits last).prompt := afterAll_append limits p init [last]
    _ = ofSession (p.session.run limits (String.ofList source)).session := by
        rw [prompt_feed ran, session_afterAll silent]
    _ = p := by rw [same, ← sound.eq_ofSession idle]

/-- Commands show the same at every prompt, whatever stands between them. They do not look at the session or at
what is pending, and change neither. -/
theorem filter_transcript (limits : Limits) (p q : Prompt) (lines : List (List Char)) :
    (p.transcript limits lines).filter Entry.isCommand =
        q.transcript limits (lines.filter isCommand) ∧
      q.afterAll limits (lines.filter isCommand) = q := by
  induction lines generalizing p with
  | nil => exact ⟨rfl, rfl⟩
  | cons line lines ih =>
      obtain ⟨entries, after⟩ := ih (p.feed limits line).prompt
      by_cases command : isCommand line = true
      · have asked : (Request.ofLine line).text? = none := Option.isNone_iff_eq_none.mp command
        have listed : (p.entry limits line).isCommand = true := command
        have same : p.entry limits line = q.entry limits line := by
          simp only [entry, feed_command asked]
        have stays : (q.feed limits line).prompt = q := by rw [feed_command asked]
        rw [transcript, List.filter_cons_of_pos listed, List.filter_cons_of_pos command, transcript,
          Prompt.afterAll, stays, entries, same]
        exact ⟨rfl, after⟩
      · have unlisted : ¬(p.entry limits line).isCommand = true := command
        rw [transcript, List.filter_cons_of_neg unlisted, List.filter_cons_of_neg command]
        exact ⟨entries, after⟩

/-- **A conversation survives its faults.** Whatever lines an interactive session was given: nothing escapes
from the next one unless its program does not end, the conversation is done only after `exit` alone or `EOF`,
the guard does not become fatal, and the mark tells whether a source is pending. An input with a static fault
leaves the prompt as it was, and without its lines all others show the same. -/
theorem conversation_survives {guard : Guard} {path : String} {showOutlines : Bool} {clock : Clock}
    {s : Session} (opened : Session.open guard path true showOutlines clock = .ok s) (limits : Limits)
    (lines : List (List Char)) :
    let p := (ofSession s).afterAll limits lines
    p.session.guard.fatal = false ∧
    (p.pending ≠ [] ↔ p.mark = secondMark) ∧
    (p.pending ≠ [] → needsContinuation p.pending = true) ∧
    (∀ line,
      ((p.feed limits line).escaped = none ∨ ∃ source, (p.feed limits line).ran = some source ∧
        (p.session.run limits (String.ofList source)).ending = .failed .endless) ∧
      ((p.feed limits line).done = true ↔
        (strip line).takeWhile Request.isWordPart = "exit".toList ∧
            strip ((strip line).dropWhile Request.isWordPart) = [] ∨
          (strip line).takeWhile Request.isWordPart = "EOF".toList)) ∧
    ∀ input source later, p.Inputs limits input source → Program.Rejected limits (String.ofList source) →
      p.afterAll limits input = p ∧
      (ofSession s).transcript limits (lines ++ input ++ later) =
        (ofSession s).transcript limits lines ++ p.transcript limits input ++ p.transcript limits later ∧
      (ofSession s).transcript limits (lines ++ input.filter isCommand ++ later) =
        (ofSession s).transcript limits lines ++ (p.transcript limits input).filter Entry.isCommand ++
          p.transcript limits later := by
  intro p
  have sound : p.Sound := (Sound.ofOpen opened).afterAll limits lines
  refine ⟨sound.fatal, sound.mark_eq_iff.symm, sound.waits, ?_, ?_⟩
  · intro line
    rw [done_feed, Request.ends_ofLine]
    exact ⟨sound.escaped_feed limits line, Iff.rfl⟩
  · intro input source later inputs rejected
    have same : p.afterAll limits input = p := sound.afterAll_rejected inputs rejected
    obtain ⟨entries, kept⟩ := filter_transcript limits p p input
    refine ⟨same, ?_, ?_⟩
    · rw [transcript_append, transcript_append, afterAll_append, same]
    · rw [transcript_append, transcript_append, afterAll_append, kept, entries]

/-- Help is asked for in the middle of an input that is rejected. -/
theorem conversation_survives_rejected_print :
    let s : Session := ⟨⟨false, .plain⟩, Session.promptPath, false, .initial .stopped⟩
    let p := (ofSession s).afterAll ⟨40, 9⟩ ["var a = 1;".toList]
    let input := ["print (", "help", "1 2);"].map String.toList
    Session.open ⟨true, .plain⟩ Session.promptPath true false .stopped = .ok s ∧
    p.Inputs ⟨40, 9⟩ input "print (\n1 2);".toList ∧
    Program.Rejected ⟨40, 9⟩ (String.ofList "print (\n1 2);".toList) ∧
    p.afterAll ⟨40, 9⟩ input = p ∧
    (ofSession s).transcript ⟨40, 9⟩ (["var a = 1;", "help", "print a;"].map String.toList) =
      (ofSession s).transcript ⟨40, 9⟩ ["var a = 1;".toList] ++
        (p.transcript ⟨40, 9⟩ input).filter Entry.isCommand ++
        p.transcript ⟨40, 9⟩ ["print a;".toList] := by
  intro s p input
  have opened : Session.open ⟨true, .plain⟩ Session.promptPath true false .stopped = .ok s := rfl
  have silent : ∀ step ∈ p.feedAll ⟨40, 9⟩ (["print (", "help"].map String.toList), step.ran = none := by
    decide +kernel
  have inputs : p.Inputs ⟨40, 9⟩ input "print (\n1 2);".toList :=
    ⟨by decide +kernel, ["print (", "help"].map String.toList, "1 2);".toList, rfl, silent, by decide +kernel⟩
  have rejected : Program.Rejected ⟨40, 9⟩ (String.ofList "print (\n1 2);".toList) := by
    have faulty : (Program.ofSource 40 (String.ofList "print (\n1 2);".toList)).any
        (fun p => hasStatic p.faults) = true := by decide +kernel
    exact (Option.any_eq_true _ _).mp faulty
  obtain ⟨-, -, -, -, deletes⟩ := conversation_survives opened ⟨40, 9⟩ ["var a = 1;".toList]
  obtain ⟨same, -, others⟩ := deletes input _ ["print a;".toList] inputs rejected
  exact ⟨opened, inputs, rejected, same, others⟩

end Prompt

end Treewalk

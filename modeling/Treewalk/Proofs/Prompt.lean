import Treewalk.Prompt
import Treewalk.Proofs.Session.Report

/-!
What one line does at the prompt, and what lines do one after another. A line is a command, which only
prints and can end the conversation, or it adds a text to the source that is pending. `exit` and `help`
with an argument are texts too.
-/

namespace Treewalk

open Text

namespace Request

/-- The text that a request adds to a source. A command adds none. -/
def text? : Request → Option (List Char)
  | .blank => some []
  | .code text => some text
  | .help argument => if argument.isEmpty then none else some ("help ".toList ++ argument)
  | .exit argument => if argument.isEmpty then none else some ("exit ".toList ++ argument)
  | .endOfInput => none

/-- What a command prints. -/
def answer : Request → List String
  | .help _ => [Prompt.helpText]
  | .endOfInput => [""]
  | .blank | .code _ | .exit _ => []

/-- Whether a command ends the conversation. -/
def ends : Request → Bool
  | .exit argument => argument.isEmpty
  | .endOfInput => true
  | .blank | .code _ | .help _ => false

theorem ofStripped_eq_code {line text : List Char} (code : ofStripped line = .code text) : line = text := by
  simp only [ofStripped] at code
  split_ifs at code
  cases code
  rfl

/-- What follows the word for help is what help is asked about. -/
theorem ofStripped_help (rest : List Char) : ofStripped ("help ".toList ++ rest) = .help (strip rest) := by
  have word : ("help ".toList ++ rest).takeWhile isWordPart = "help".toList := rfl
  have rest : ("help ".toList ++ rest).dropWhile isWordPart = ' ' :: rest := rfl
  simp only [ofStripped, word, rest]
  rfl

/-- A line of code is what is left of the line when it is stripped, and this is not empty. -/
theorem ofLine_eq_code {line text : List Char} (code : ofLine line = .code text) :
    strip line = text ∧ text ≠ [] := by
  unfold ofLine at code
  split at code
  · cases code
  · rw [ofStripped_help] at code
    cases code
  · next stripped =>
      cases code
      exact ⟨stripped, List.cons_ne_nil _ _⟩
  · next stripped =>
      obtain rfl := ofStripped_eq_code code
      exact ⟨stripped, List.cons_ne_nil _ _⟩

theorem ofLine_eq_blank {line : List Char} (blank : ofLine line = .blank) : strip line = [] := by
  unfold ofLine at blank
  split at blank
  · next stripped => exact stripped
  · rw [ofStripped_help] at blank
    cases blank
  · cases blank
  · simp only [ofStripped] at blank
    split_ifs at blank

/-- The conversation ends with the word `exit` alone, and with the word `EOF`. -/
theorem ends_ofLine (line : List Char) :
    (ofLine line).ends = true ↔
      (strip line).takeWhile isWordPart = "exit".toList ∧
          strip ((strip line).dropWhile isWordPart) = [] ∨
        (strip line).takeWhile isWordPart = "EOF".toList := by
  have word (w : List Char) (s : String) : String.ofList w = s ↔ w = s.toList :=
    ⟨fun same => by rw [← same, String.toList_ofList], fun same => by rw [same, String.ofList_toList]⟩
  unfold ofLine
  split
  · next stripped => simp [stripped, ends]
  · next stripped =>
      rw [ofStripped_help, stripped]
      simp [ends, isWordPart]
  · next stripped => simp [stripped, ends, isWordPart]
  · next c rest _ _ stripped =>
      rw [stripped]
      simp only [ofStripped, word]
      split_ifs with help exit eof
      · simp [ends, help]
      · simp [ends, exit]
      · simp [ends, eof]
      · simp only [ends, exit, eof, false_and, or_false, Bool.false_eq_true]

/-- A line that adds to the source does not end the conversation, so a conversation ends by a command only. -/
theorem ends_of_text {r : Request} {text : List Char} (adds : r.text? = some text) : r.ends = false := by
  cases r with
  | exit argument =>
      by_contra ends
      have empty : argument.isEmpty = true := by simpa [Request.ends] using ends
      simp [text?, empty] at adds
  | endOfInput => cases adds
  | blank | code _ | help _ => rfl

end Request

/-- What a guard says at the end of a run: nothing, or its message about the failure. -/
def Guard.remark (g : Guard) : Ending → List String
  | .finished _ => []
  | .failed f => (g.message? f).toList

namespace Prompt

/-- The step of a source that ran with the given result: the prompt begins again in the session after the run,
and the conversation goes on. -/
structure Step.Ran (step : Step) (guard : Guard) (source : List Char) (r : Session.Result) : Prop where
  ran : step.ran = some source
  prompt : step.prompt = ofSession r.session
  printed : step.printed = r.printed ++ guard.remark r.ending
  goesOn : step.done = false

/-- Adds a text to the source that is pending. -/
def addText (limits : Limits) (p : Prompt) (text : List Char) : Step :=
  if text = [] then ⟨p.addBlank, [], false, none, none⟩ else p.addCode limits text

/-- The steps of lines fed one after another. -/
def feedAll (limits : Limits) (p : Prompt) : List (List Char) → List Step
  | [] => []
  | line :: rest => p.feed limits line :: (p.feed limits line).prompt.feedAll limits rest

/-- The prompt after lines. -/
def afterAll (limits : Limits) (p : Prompt) : List (List Char) → Prompt
  | [] => p
  | line :: rest => (p.feed limits line).prompt.afterAll limits rest

variable {limits : Limits} {p : Prompt} {line text : List Char}

@[simp]
theorem session_ofSession (s : Session) : (ofSession s).session = s := rfl

/-- A line that adds to the source is fed as its text. -/
theorem feed_text (adds : (Request.ofLine line).text? = some text) :
    p.feed limits line = p.addText limits text := by
  -- a word in front of an argument, as `help` and `exit` add it
  have worded {word argument : List Char} (shown : word ≠ [])
      (adds : (if argument.isEmpty then none else some (word ++ argument)) = some text) :
      ¬argument.isEmpty = true ∧ text = word ++ argument ∧ text ≠ [] := by
    split_ifs at adds with empty
    cases adds
    exact ⟨empty, rfl, by simp [shown]⟩
  unfold feed addText
  cases asked : Request.ofLine line with
  | blank =>
      rw [asked] at adds
      cases adds
      rfl
  | code shown =>
      rw [asked] at adds
      cases adds
      rw [if_neg (Request.ofLine_eq_code asked).2]
      rfl
  | help argument =>
      rw [asked] at adds
      obtain ⟨some, rfl, shown⟩ := worded (by decide) adds
      rw [follow, if_neg some, if_neg shown]
  | exit argument =>
      rw [asked] at adds
      obtain ⟨some, rfl, shown⟩ := worded (by decide) adds
      rw [follow, if_neg some, if_neg shown]
  | endOfInput =>
      rw [asked] at adds
      cases adds

/-- A command is answered, and leaves the session and what is pending as they are. A command may come in the
middle of a source that goes over several lines. -/
theorem feed_command (command : (Request.ofLine line).text? = none) :
    p.feed limits line =
      ⟨p, (Request.ofLine line).answer, (Request.ofLine line).ends, none, none⟩ := by
  unfold feed
  cases asked : Request.ofLine line with
  | blank | code shown =>
      rw [asked] at command
      cases command
  | help argument | exit argument =>
      rw [asked] at command
      have empty : argument.isEmpty = true := by
        by_contra some
        simp [Request.text?, some] at command
      simp [follow, Request.answer, Request.ends, empty]
  | endOfInput => rfl

/-- Running a source at the prompt is running it in the prompt's session. Nothing is pending afterwards, and
what is printed is what the run printed, with the guard's remark on its end. -/
theorem runSource_ran (limits : Limits) (p : Prompt) (source : List Char) :
    (p.runSource limits source).Ran p.session.guard source
      (p.session.run limits (String.ofList source)) := by
  unfold runSource
  dsimp only
  cases ended : (p.session.run limits (String.ofList source)).ending with
  | finished status =>
      exact { ran := rfl, prompt := rfl, printed := by simp [ended, Guard.remark], goesOn := rfl }
  | failed f =>
      have printed : (p.session.run limits (String.ofList source)).printed ++
            (p.session.guard.message? f).toList =
          (p.session.run limits (String.ofList source)).printed ++
            p.session.guard.remark (p.session.run limits (String.ofList source)).ending := by
        rw [ended, Guard.remark]
      dsimp only
      split
      · exact { ran := rfl, prompt := rfl, printed := printed, goesOn := rfl }
      · exact { ran := rfl, prompt := rfl, printed := printed, goesOn := rfl }

/-- A text is dropped or added to what is pending, and then the session stays as it is. Or it completes a
source, and the source runs. Every proof about the prompt splits into these two. -/
theorem addText_cases (limits : Limits) (p : Prompt) (text : List Char) :
    (∃ q : Prompt, p.addText limits text = ⟨q, [], false, none, none⟩ ∧ q.session = p.session) ∨
      p.addText limits text = p.runSource limits (p.pending ++ text) := by
  unfold addText addBlank addCode
  dsimp only
  split_ifs
  · exact .inl ⟨p, rfl, rfl⟩
  · exact .inl ⟨_, rfl, rfl⟩
  · exact .inl ⟨_, rfl, rfl⟩
  · exact .inr rfl

/-- What a line does: it is a command, or it adds to what is pending, or a source runs. This is the step of the
prompt, and what a conversation keeps is proved from it. -/
theorem feed_cases (limits : Limits) (p : Prompt) (line : List Char) :
    (Request.ofLine line).text? = none ∧ p.feed limits line =
        ⟨p, (Request.ofLine line).answer, (Request.ofLine line).ends, none, none⟩ ∨
      (∃ text q, (Request.ofLine line).text? = some text ∧
        p.feed limits line = ⟨q, [], false, none, none⟩ ∧ q.session = p.session) ∨
      ∃ text, (Request.ofLine line).text? = some text ∧
        p.feed limits line = p.runSource limits (p.pending ++ text) := by
  cases asked : (Request.ofLine line).text? with
  | none => exact .inl ⟨rfl, feed_command asked⟩
  | some text =>
      rw [feed_text asked]
      rcases p.addText_cases limits text with ⟨q, waited, session⟩ | ran
      · exact .inr (.inl ⟨text, q, rfl, waited, session⟩)
      · exact .inr (.inr ⟨text, rfl, ran⟩)

end Prompt

end Treewalk

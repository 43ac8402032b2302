import Treewalk.Command
import Treewalk.Proofs.Session.Conclusion

/-!
The exit status of a command that runs a file. Where there is a text to run, the status tells the verdict on
it: one status for a program that is rejected, one for a program that fails, and zero for a program whose
statements were all executed. What was printed before a failure stays, and what is said about it comes last.
-/

namespace Treewalk

open Text

namespace Verdict

def status : Verdict → Status
  | .rejected _ => .badProgram
  | .faulted _ | .tooDeep => .broken
  | .completed => .ok

/-- What the command says at the end. -/
def remarks (style : Style) (path source : String) (verdict : Verdict) : List String :=
  Report.lines style (some path) source verdict.diagnostics ++
    match verdict with
    | .tooDeep => [style.alarm "error: " ++ depthMessage]
    | _ => []

end Verdict

/-- The response to a program: the lines that it printed with the remarks on it, and the status. -/
structure Response.Tells (r : Response) (style : Style) (path source : String) (verdict : Verdict)
    (lines : List String) : Prop where
  out : r.out = printedText (lines ++ verdict.remarks style path source)
  err : r.err = ""
  rejected : r.status = 65 ↔ ∃ faults, verdict = .rejected faults
  failed : r.status = 70 ↔ (∃ f, verdict = .faulted f) ∨ verdict = .tooDeep
  completed : r.status = 0 ↔ verdict = .completed

theorem printedText_singleton (line : String) : printedText [line] = line ++ "\n" := by
  simp [printedText, String.join]

/-- A plain complaint begins with the word for an error, as the style shows it. -/
theorem Complaint.text_plain (style : Style) (message : String) (status : Status) :
    (plain message status).text style = style.alarm "error: " ++ message := by
  simp [text, plain]

theorem Complaint.text_internal (style : Style) (message : String) (status : Int) :
    text style ⟨message, none, true, status⟩ = style.alarm "[internal] " ++ style.alarm "error: " ++ message := by
  simp [text]

namespace Command

/-- The session in which a file is run. -/
def session (clock : Clock) (style : Style) (outline : Bool) (path : String) : Session :=
  ⟨⟨true, style⟩, path, outline, .initial clock⟩

variable {limits : Limits} {clock : Clock} {files : String → FileContent} {style : Style} {outline : Bool}
  {path source : String} {verdict : Verdict} {lines printed : List String}

/-- Any file but that with the name of the prompt opens a session, whose world has no bindings but those of the
built-in functions. -/
theorem open_session (named : path ≠ Session.promptPath) :
    Session.open ⟨true, style⟩ path false outline clock = .ok (session clock style outline path) := by
  rw [Session.open, if_neg Bool.false_ne_true, if_neg named]
  rfl

/-- A plain complaint ends the command with its status. What was printed before it stays in front of it, and
nothing goes to the other output. -/
theorem failed_plain (message : String) (status : Status) :
    failed ⟨true, style⟩ printed (.complaint (.plain message status)) =
      ⟨printedText (printed ++ [style.alarm "error: " ++ message]), "", status.code⟩ := by
  rw [← Complaint.text_plain style message status]
  rfl

/-! ### Files that there is a text of -/

/-- Running a file prints the lines of its program and then the remarks on its verdict, and ends with the status
of the verdict. This is the one place where a session and the response of the command meet. -/
theorem runFile_of_concludes (named : path ≠ Session.promptPath) (found : sourceOf files path = .ok source)
    (concludes : Session.Concludes limits clock outline source verdict lines) :
    runFile limits clock files ⟨true, style⟩ outline path =
      ⟨printedText (lines ++ verdict.remarks style path source), "", verdict.status.code⟩ := by
  obtain ⟨ending, printed⟩ :=
    Session.run_of_concludes (s := session clock style outline path) rfl concludes
  have shown : (session clock style outline path).shownPath = some path := if_neg named
  have styled : (session clock style outline path).guard.style = style := rfl
  rw [shown, styled] at printed
  unfold runFile
  rw [open_session named]
  dsimp only
  rw [found]
  dsimp only
  rw [ending, printed]
  cases verdict with
  | rejected faults => simp [Verdict.ending, Verdict.remarks, Verdict.status]
  | faulted f => simp [Verdict.ending, Verdict.remarks, Verdict.status]
  | completed => simp [Verdict.ending, Verdict.remarks, Verdict.status]
  | tooDeep =>
      have deep : failed ⟨true, style⟩ lines .tooDeep =
          failed ⟨true, style⟩ lines (.complaint (.plain depthMessage .broken)) := rfl
      simp [Verdict.ending, Verdict.remarks, Verdict.status, Verdict.diagnostics, Report.lines, deep, failed_plain]

/-- The response to a file tells what its source came to: what it prints is the lines of the program and the
remarks on the verdict, and each status stands for its own verdicts and no others. -/
theorem tells_of_concludes (named : path ≠ Session.promptPath) (found : sourceOf files path = .ok source)
    (concludes : Session.Concludes limits clock outline source verdict lines) :
    (runFile limits clock files ⟨true, style⟩ outline path).Tells style path source verdict lines := by
  rw [runFile_of_concludes named found concludes]
  constructor
  · rfl
  · rfl
  · cases verdict <;> simp [Verdict.status, Status.code]
  · cases verdict <;> simp [Verdict.status, Status.code]
  · cases verdict <;> simp [Verdict.status, Status.code]

/-- The text of a file is its bytes, decoded, with its line ends unified. -/
theorem sourceOf_bytes {content : List Nat} {chars : List Char} (clean : Char.ofNat 0 ∉ path.toList)
    (found : files path = .bytes content) (decoded : decodeUtf8 content = .ok chars) :
    sourceOf files path = .ok (String.ofList (unifyNewlines chars)) := by
  rw [sourceOf, if_neg (by simpa using clean), found]
  dsimp only
  rw [decoded]

/-! ### Files that there is no text of -/

/-- The name of the prompt is reserved and cannot be the name of a file. -/
theorem runFile_reserved : runFile limits clock files ⟨true, style⟩ outline Session.promptPath =
    ⟨style.alarm "error: " ++ "'<in>' is a reserved filename" ++ "\n", "", 64⟩ := by
  have refused : Session.open ⟨true, style⟩ Session.promptPath false outline clock =
      .error (.plain "'<in>' is a reserved filename" .usage) := rfl
  unfold runFile
  rw [refused]
  dsimp only
  rw [failed_plain, List.nil_append, printedText_singleton]
  rfl

/-- A file that cannot be opened is complained about, with a status of its own. Nothing is scanned and nothing
is run. -/
theorem runFile_unavailable (named : path ≠ Session.promptPath) (clean : Char.ofNat 0 ∉ path.toList)
    (missing : files path = .unavailable) : runFile limits clock files ⟨true, style⟩ outline path =
      ⟨style.alarm "error: " ++ ("'" ++ path ++ "' could not be opened") ++ "\n", "", 66⟩ := by
  have none : sourceOf files path =
      .error (.complaint (.plain ("'" ++ path ++ "' could not be opened") .noInput)) := by
    rw [sourceOf, if_neg (by simpa using clean), missing]
  unfold runFile
  rw [open_session named]
  dsimp only
  rw [none]
  dsimp only
  rw [failed_plain, List.nil_append, printedText_singleton]
  rfl

/-- A path with a null character is not looked up at all, and the complaint is the one about faults of the
command itself. -/
theorem runFile_null (named : path ≠ Session.promptPath) (broken : Char.ofNat 0 ∈ path.toList) :
    runFile limits clock files ⟨true, style⟩ outline path =
      ⟨style.alarm "[internal] " ++ style.alarm "error: " ++
        "unknown error: 'ValueError: embedded null byte'" ++ "\n", "", 70⟩ := by
  have none : sourceOf files path = .error (.unexpected "ValueError" "embedded null byte") := by
    rw [sourceOf, if_pos (by simpa using broken)]
  unfold runFile
  rw [open_session named]
  dsimp only
  rw [none]
  dsimp only
  have told : failed ⟨true, style⟩ [] (.unexpected "ValueError" "embedded null byte") =
      ⟨printedText [Complaint.text style
        ⟨"unknown error: 'ValueError: embedded null byte'", Option.none, true, 70⟩], "", 70⟩ := rfl
  rw [told, printedText_singleton, Complaint.text_internal]

/-! ### The whole command -/

/-- **The exit status tells the verdict.** A reserved name, a path with a null character and a file that
cannot be had have a status of their own each. Every text that ends comes to a verdict, and the response
tells it: rejected programs have one status, failing ones another, and zero is for programs whose statements
were all executed. A rejected program changes nothing and prints nothing but the reports; all others keep
what they printed. -/
theorem status_tells_verdict (limits : Limits) (clock : Clock) (terminal : Style) (arguments : List String)
    (files : String → FileContent) (input : String) {path : String} {outline noColor : Bool}
    (accepted : Arguments.parse arguments = .accepted ⟨some path, outline, noColor⟩) :
    let response := run limits clock terminal arguments files input
    let style := Arguments.style ⟨some path, outline, noColor⟩ terminal
    (path = Session.promptPath →
      response = ⟨style.alarm "error: " ++ "'<in>' is a reserved filename" ++ "\n", "", 64⟩) ∧
    (path ≠ Session.promptPath → Char.ofNat 0 ∈ path.toList →
      response = ⟨style.alarm "[internal] " ++ style.alarm "error: " ++
        "unknown error: 'ValueError: embedded null byte'" ++ "\n", "", 70⟩) ∧
    (path ≠ Session.promptPath → Char.ofNat 0 ∉ path.toList → files path = .unavailable →
      response = ⟨style.alarm "error: " ++ ("'" ++ path ++ "' could not be opened") ++ "\n", "", 66⟩) ∧
    ∀ content chars, path ≠ Session.promptPath → Char.ofNat 0 ∉ path.toList →
      files path = .bytes content → decodeUtf8 content = .ok chars →
      let source := String.ofList (unifyNewlines chars)
      ¬ Session.Endless limits clock outline source →
      (∃ verdict lines, Session.Concludes limits clock outline source verdict lines) ∧
      (∀ verdict lines, Session.Concludes limits clock outline source verdict lines →
        response.Tells style path source verdict lines) ∧
      (Program.Rejected limits source →
        ((session clock style outline path).run limits source).session = session clock style outline path) := by
  intro response style
  have answered : response = runFile limits clock files ⟨true, style⟩ outline path := by
    change run limits clock terminal arguments files input = _
    unfold run
    rw [accepted]
  rw [answered]
  refine ⟨?_, runFile_null, runFile_unavailable, ?_⟩
  · rintro rfl
    exact runFile_reserved
  · intro content chars named clean found decoded source ends
    have text : sourceOf files path = .ok source := sourceOf_bytes clean found decoded
    refine ⟨Session.exists_concludes ends, fun verdict lines => tells_of_concludes named text, ?_⟩
    intro rejected
    exact (Session.run_rejected rejected rfl).2

/-- A program that prints a line and then asks for a variable that no one declared. -/
def undeclared : String := "print \"a\"; print x;"

/-- With its outlines asked for, the program fails after three lines. -/
theorem undeclared_tells :
    let response := run ⟨40, 9⟩ .stopped .terminal ["--ast", "--no-color", "f"]
      (fun _ => .bytes (undeclared.toList.map Char.toNat)) ""
    Arguments.parse ["--ast", "--no-color", "f"] = .accepted ⟨some "f", true, true⟩ ∧ response.status = 70 ∧
      ∃ verdict lines, Session.Concludes ⟨40, 9⟩ .stopped true undeclared verdict lines ∧
        response.Tells .plain "f" undeclared verdict lines := by
  intro response
  have accepted : Arguments.parse ["--ast", "--no-color", "f"] = .accepted ⟨some "f", true, true⟩ := by
    decide +kernel
  have failed : response.status = 70 := by decide +kernel
  have decoded : decodeUtf8 (undeclared.toList.map Char.toNat) = .ok undeclared.toList := rfl
  have same : String.ofList (unifyNewlines undeclared.toList) = undeclared := by decide +kernel
  have ended : ((session .stopped .plain true "f").run ⟨40, 9⟩ undeclared).ending ≠ .failed .endless := by
    decide +kernel
  have ends : ¬ Session.Endless ⟨40, 9⟩ .stopped true undeclared := fun endless =>
    ended (Session.run_of_endless (s := session .stopped .plain true "f") rfl endless)
  obtain ⟨-, -, -, told⟩ := status_tells_verdict ⟨40, 9⟩ .stopped .terminal ["--ast", "--no-color", "f"]
    (fun _ => .bytes (undeclared.toList.map Char.toNat)) "" accepted
  have told := told _ _ (by decide) (by decide) rfl decoded
  rw [same] at told
  obtain ⟨⟨verdict, lines, concludes⟩, tells, -⟩ := told ends
  exact ⟨accepted, failed, verdict, lines, concludes, tells verdict lines concludes⟩

end Command

end Treewalk

import Treewalk.Proofs.Prompt
import Treewalk.Proofs.Prompt.Continuation

/-!
How the prompt cuts lines into sources. `GreedySplit` says it of the lines alone: an empty line that begins
no source is dropped, and otherwise the shortest run of lines that needs no continuation is taken. It leaves
no choice. The prompt runs these sources, in this order and each once, whatever they print or fail with.
-/

namespace Treewalk

open Text

namespace Prompt

/-- Lines as one source. -/
def joined (lines : List (List Char)) : List Char := ['\n'].intercalate lines

/-- Lines of a source that is not complete, each with its line feed. -/
def pendingText (lines : List (List Char)) : List Char := lines.flatMap (· ++ ['\n'])

/-- Every source that some of the lines make, from the first on, needs more of them. -/
def Unfinished (lines : List (List Char)) : Prop :=
  ∀ start, start ≠ [] → start <+: lines → needsContinuation (joined start) = true

/-- The lines make a complete source, and fewer of them do not. -/
structure Shortest (run : List (List Char)) : Prop where
  nonempty : run ≠ []
  complete : needsContinuation (joined run) = false
  shorter : ∀ start, start ≠ [] → start <+: run → start ≠ run → needsContinuation (joined start) = true

/-- The sources that lines are cut into, and the lines left over. -/
inductive GreedySplit : List (List Char) → List (List (List Char)) → List (List Char) → Prop
  | stop {left} : Unfinished left → GreedySplit left [] left
  | skip {lines runs left} : GreedySplit lines runs left → GreedySplit ([] :: lines) runs left
  | take {run lines runs left} : run.head? ≠ some [] → Shortest run → GreedySplit lines runs left →
      GreedySplit (run ++ lines) (run :: runs) left

/-! ### Lines that are joined -/

/-- A further line is joined behind the text that is pending. -/
theorem joined_concat (lines : List (List Char)) (line : List Char) :
    joined (lines ++ [line]) = pendingText lines ++ line := by
  induction lines with
  | nil => exact List.intercalate_singleton
  | cons first lines ih =>
      have more : lines ++ [line] ≠ [] := by simp
      calc joined (first :: lines ++ [line])
          = first ++ ['\n'] ++ joined (lines ++ [line]) := List.intercalate_cons_of_ne_nil more
        _ = first ++ ['\n'] ++ (pendingText lines ++ line) := by rw [ih]
        _ = pendingText (first :: lines) ++ line := (List.append_assoc _ _ _).symm

/-- The pending text of lines is those lines joined, with a line feed behind the last one. -/
theorem pendingText_concat (lines : List (List Char)) (line : List Char) :
    pendingText (lines ++ [line]) = joined (lines ++ [line]) ++ ['\n'] := by
  rw [joined_concat, pendingText, List.flatMap_append]
  simp [pendingText]

/-- The line feed at the end does not decide whether a further line is needed, so pending text can be judged by
the lines alone. -/
theorem needsContinuation_pendingText (lines : List (List Char)) :
    needsContinuation (pendingText lines) = needsContinuation (joined lines) := by
  rcases List.eq_nil_or_concat lines with rfl | ⟨init, last, rfl⟩
  · rfl
  · rw [List.concat_eq_append, pendingText_concat, needsContinuation_feed]

theorem Unfinished.nil : Unfinished [] :=
  fun _ some begins => absurd (List.prefix_nil.mp begins) some

theorem Unfinished.begins {lines : List (List Char)} (unfinished : Unfinished lines) :
    lines.head? ≠ some [] := by
  intro blank
  obtain ⟨rest, rfl⟩ := List.head?_eq_some_iff.mp blank
  have waits := unfinished [[]] (List.cons_ne_nil _ _) ⟨rest, rfl⟩
  exact absurd waits (by decide)

/-- Lines that need another one stay unfinished with a line that does not complete them. -/
theorem Unfinished.concat {lines : List (List Char)} {line : List Char} (unfinished : Unfinished lines)
    (waits : needsContinuation (joined (lines ++ [line])) = true) : Unfinished (lines ++ [line]) := by
  intro start some begins
  rcases List.prefix_concat_iff.mp begins with rfl | begins
  · exact waits
  · exact unfinished start some begins

/-- An empty line never completes a source: it adds a line feed, which does not decide whether a further line is
needed. So it is kept, as a part of a string perhaps. -/
theorem Unfinished.blank {lines : List (List Char)} (unfinished : Unfinished lines) (some : lines ≠ []) :
    Unfinished (lines ++ [[]]) := by
  refine unfinished.concat ?_
  rw [joined_concat, List.append_nil, needsContinuation_pendingText]
  exact unfinished lines some List.prefix_rfl

/-- The line that completes unfinished lines makes them a shortest complete source. -/
theorem Unfinished.shortest {lines : List (List Char)} {line : List Char} (unfinished : Unfinished lines)
    (complete : needsContinuation (joined (lines ++ [line])) = false) : Shortest (lines ++ [line]) where
  nonempty := by simp
  complete := complete
  shorter start some begins other :=
    unfinished start some ((List.prefix_concat_iff.mp begins).resolve_left other)

/-! ### The cut is the only one -/

/-- Of two shortest complete sources, none is a beginning of the other, since no proper beginning of a shortest
one is complete. -/
theorem Shortest.eq_of_prefix {run run' : List (List Char)} (short : Shortest run)
    (short' : Shortest run') (begins : run <+: run') : run = run' := by
  by_contra other
  have waits := short'.shorter run short.nonempty begins other
  rw [short.complete] at waits
  cases waits

/-- So the first source that lines begin with is determined by the lines, and so are the lines behind it. -/
theorem Shortest.eq_of_append {run run' lines lines' : List (List Char)} (short : Shortest run)
    (short' : Shortest run') (same : run ++ lines = run' ++ lines') : run = run' ∧ lines = lines' := by
  have begins : run <+: run' ++ lines' := same ▸ List.prefix_append run lines
  obtain rfl : run = run' := by
    rcases List.prefix_or_prefix_of_prefix begins (List.prefix_append run' lines') with begins | begins
    · exact short.eq_of_prefix short' begins
    · exact (short'.eq_of_prefix short begins).symm
  exact ⟨rfl, List.append_cancel_left same⟩

theorem Shortest.append_ne_cons {run lines rest : List (List Char)} (short : Shortest run)
    (begins : run.head? ≠ some []) : run ++ lines ≠ [] :: rest := by
  intro same
  cases run with
  | nil => exact short.nonempty rfl
  | cons first run => exact begins (congrArg some (List.cons.inj same).1)

/-- Unfinished lines do not begin with a complete source. -/
theorem Unfinished.ne_append {left run lines : List (List Char)} (unfinished : Unfinished left)
    (short : Shortest run) : left ≠ run ++ lines := by
  rintro rfl
  have waits := unfinished run short.nonempty (List.prefix_append run lines)
  rw [short.complete] at waits
  cases waits

/-- Lines are cut into sources in one way only, and the lines left over are determined as well. By induction
over the cut, with `Shortest.eq_of_append` for each source. -/
theorem GreedySplit.unique {lines : List (List Char)} {runs runs' : List (List (List Char))}
    {left left' : List (List Char)} (split : GreedySplit lines runs left)
    (other : GreedySplit lines runs' left') : runs' = runs ∧ left' = left := by
  induction split generalizing runs' left' with
  | @stop left unfinished =>
      cases other with
      | stop _ => exact ⟨rfl, rfl⟩
      | skip _ => exact absurd rfl unfinished.begins
      | take _ short _ => exact absurd rfl (unfinished.ne_append short)
  | @skip lines runs left _ ih =>
      generalize whole : [] :: lines = all at other
      cases other with
      | stop unfinished => exact absurd (by rw [← whole]; rfl) unfinished.begins
      | skip other =>
          cases whole
          exact ih other
      | take begins short _ => exact absurd whole.symm (short.append_ne_cons begins)
  | @take run lines runs left begins short _ ih =>
      generalize whole : run ++ lines = all at other
      cases other with
      | stop unfinished => exact absurd whole.symm (unfinished.ne_append short)
      | skip _ => exact absurd whole (short.append_ne_cons begins)
      | take _ short' other =>
          obtain ⟨rfl, rfl⟩ := short.eq_of_append short' whole
          obtain ⟨rfl, rfl⟩ := ih other
          exact ⟨rfl, rfl⟩

/-- Only empty lines are dropped. Together the sources and the lines left over hold every other line, in the
order in which they came. -/
theorem GreedySplit.lines_eq {lines : List (List Char)} {runs : List (List (List Char))}
    {left : List (List Char)} (split : GreedySplit lines runs left) :
    (runs.flatten ++ left).filter (· ≠ []) = lines.filter (· ≠ []) := by
  induction split with
  | stop _ => rfl
  | skip _ ih => exact ih
  | take _ _ _ ih => rw [List.flatten_cons, List.append_assoc, List.filter_append, ih, List.filter_append]

/-! ### The prompt makes the cut -/

/-- The prompt waits with these lines. -/
structure Holds (p : Prompt) (lines : List (List Char)) : Prop where
  pending : p.pending = pendingText lines
  unfinished : Unfinished lines

variable {p : Prompt} {lines : List (List Char)}

/-- A text is dropped, added to the lines that wait, or completes a source with them. This is the step of the
cut, one line at a time. -/
theorem Holds.addText (limits : Limits) (holds : p.Holds lines) (text : List Char) :
    lines = [] ∧ text = [] ∧ p.addText limits text = ⟨p, [], false, none, none⟩ ∨
    (∃ q : Prompt, p.addText limits text = ⟨q, [], false, none, none⟩ ∧
      q.session = p.session ∧ q.Holds (lines ++ [text])) ∨
    (lines ++ [text]).head? ≠ some [] ∧ Shortest (lines ++ [text]) ∧
      p.addText limits text = p.runSource limits (joined (lines ++ [text])) := by
  have source : p.pending ++ text = joined (lines ++ [text]) := by rw [holds.pending, joined_concat]
  by_cases blank : text = []
  · subst blank
    by_cases idle : lines = []
    · subst idle
      exact .inl ⟨rfl, rfl, by simp [Prompt.addText, addBlank, holds.pending, pendingText]⟩
    · have some : p.pending.isEmpty = false := by
        obtain ⟨line, rest, rfl⟩ := List.exists_cons_of_ne_nil idle
        simp [holds.pending, pendingText]
      refine .inr (.inl ⟨_, rfl, ?_, ?_, holds.unfinished.blank idle⟩)
      · simp [addBlank, some]
      · rw [pendingText_concat, ← source]
        simp [addBlank, some]
  · cases waits : needsContinuation (joined (lines ++ [text])) with
    | true =>
        refine .inr (.inl ⟨⟨p.session, joined (lines ++ [text]) ++ ['\n'], secondMark⟩, ?_, rfl, ?_,
          holds.unfinished.concat waits⟩)
        · rw [Prompt.addText, if_neg blank, addCode, source, if_pos waits]
        · rw [pendingText_concat]
    | false =>
        refine .inr (.inr ⟨?_, holds.unfinished.shortest waits, ?_⟩)
        · cases lines with
          | nil => simpa using blank
          | cons line rest => exact holds.unfinished.begins
        · rw [Prompt.addText, if_neg blank, addCode, source, if_neg (by rw [waits]; decide)]

/-- Lines of code, from a prompt that waits with lines: the cut is that of all these lines. By induction over
the lines sent, with the lines that wait in front of them. -/
theorem Holds.feedAll (limits : Limits) (holds : p.Holds lines) (sent : List (List Char))
    (texts : ∀ line ∈ sent, (Request.ofLine line).text? = some (strip line)) :
    ∃ runs left, GreedySplit (lines ++ sent.map strip) runs left ∧
      (p.feedAll limits sent).filterMap Step.ran = runs.map joined ∧
      (p.afterAll limits sent).session = p.session.runAll limits (runs.map (String.ofList ∘ joined)) ∧
      (p.afterAll limits sent).Holds left := by
  induction sent generalizing p lines with
  | nil =>
      refine ⟨[], lines, ?_, rfl, rfl, holds⟩
      rw [List.map_nil, List.append_nil]
      exact .stop holds.unfinished
  | cons line sent ih =>
      have later : ∀ line ∈ sent, (Request.ofLine line).text? = some (strip line) :=
        fun line listed => texts line (List.mem_cons_of_mem _ listed)
      simp only [Prompt.feedAll, afterAll, feed_text (texts line List.mem_cons_self), List.map_cons]
      rcases holds.addText limits (strip line) with
        ⟨rfl, blank, same⟩ | ⟨q, waited, session, holds'⟩ | ⟨begins, short, ran⟩
      · obtain ⟨runs, left, split, sources⟩ := ih holds later
        rw [same, blank]
        exact ⟨runs, left, .skip split, sources⟩
      · obtain ⟨runs, left, split, sources⟩ := ih holds' later
        rw [waited, List.append_cons, ← session]
        exact ⟨runs, left, split, sources⟩
      · obtain ⟨source, after, -, -⟩ := runSource_ran limits p (joined (lines ++ [strip line]))
        have idle : (ofSession (p.session.run limits
            (String.ofList (joined (lines ++ [strip line])))).session).Holds [] := ⟨rfl, .nil⟩
        obtain ⟨runs, left, split, sources, session, holds'⟩ := ih idle later
        rw [ran, List.filterMap_cons_some source, after, sources, List.append_cons]
        refine ⟨(lines ++ [strip line]) :: runs, left, .take begins short split, rfl, ?_, holds'⟩
        rw [session, session_ofSession, List.map_cons, Session.runAll_cons, Function.comp_apply]

/-- **Lines run as the sources they are cut into.** Lines of code, from a prompt at which nothing is pending,
run the sources that they are cut into, and the lines left over are pending afterwards. Nothing is lost and
nothing runs twice, whatever a source printed and however it ended. -/
theorem feedAll_runs_greedySplit (limits : Limits) (p : Prompt) (idle : p.pending = [])
    (lines : List (List Char))
    (sent : ∀ line ∈ lines, Request.ofLine line = .blank ∨ ∃ text, Request.ofLine line = .code text) :
    ∃ runs left, GreedySplit (lines.map strip) runs left ∧
      (∀ runs' left', GreedySplit (lines.map strip) runs' left' → runs' = runs ∧ left' = left) ∧
      (p.feedAll limits lines).filterMap Step.ran = runs.map joined ∧
      (p.afterAll limits lines).session = p.session.runAll limits (runs.map (String.ofList ∘ joined)) ∧
      (p.afterAll limits lines).pending = pendingText left ∧
      (runs.flatten ++ left).filter (· ≠ []) = (lines.map strip).filter (· ≠ []) := by
  have texts : ∀ line ∈ lines, (Request.ofLine line).text? = some (strip line) := by
    intro line listed
    rcases sent line listed with blank | ⟨text, code⟩
    · rw [Request.ofLine_eq_blank blank, blank]
      rfl
    · rw [code, (Request.ofLine_eq_code code).1]
      rfl
  have holds : p.Holds [] := ⟨idle, .nil⟩
  obtain ⟨runs, left, split, sources, session, holds'⟩ := holds.feedAll limits lines texts
  exact ⟨runs, left, split, fun _ _ => split.unique, sources, session, holds'.pending, split.lines_eq⟩

/-- A function of four lines, the second of them empty, then a call that fails, then an open parenthesis. -/
theorem feedAll_runs_function_and_call :
    let p := ofSession ⟨⟨false, .plain⟩, Session.promptPath, false, .initial .stopped⟩
    let lines := ["", "fun f() \x7b", "", "  print missing;", "\x7d", "f();", "print (1"].map String.toList
    p.pending = [] ∧
    (∀ line ∈ lines, Request.ofLine line = .blank ∨ ∃ text, Request.ofLine line = .code text) ∧
    (p.feedAll ⟨40, 9⟩ lines).filterMap Step.ran =
      ["fun f() \x7b\n\nprint missing;\n\x7d", "f();"].map String.toList ∧
    (p.afterAll ⟨40, 9⟩ lines).pending = "print (1\n".toList := by
  intro p lines
  have sent : ∀ line ∈ lines, Request.ofLine line = .blank ∨ ∃ text, Request.ofLine line = .code text := by
    have code : ∀ line ∈ lines,
        Request.ofLine line = .blank ∨ Request.ofLine line = .code (strip line) := by decide +kernel
    exact fun line listed => (code line listed).imp id fun code => ⟨_, code⟩
  have function : Shortest (["fun f() \x7b", "", "print missing;", "\x7d"].map String.toList) :=
    (((Unfinished.nil.concat (by decide +kernel)).concat (by decide +kernel)).concat
      (by decide +kernel)).shortest (by decide +kernel)
  have call : Shortest ["f();".toList] := Unfinished.nil.shortest (by decide +kernel)
  have unfinished : Unfinished ["print (1".toList] := Unfinished.nil.concat (by decide +kernel)
  have split : GreedySplit (lines.map strip)
      [["fun f() \x7b", "", "print missing;", "\x7d"].map String.toList, ["f();".toList]]
      ["print (1".toList] :=
    .skip (.take (by decide) function (.take (by decide) call (.stop unfinished)))
  obtain ⟨runs, left, -, only, sources, -, pending, -⟩ :=
    feedAll_runs_greedySplit ⟨40, 9⟩ p rfl lines sent
  obtain ⟨rfl, rfl⟩ := only _ _ split
  exact ⟨rfl, sent, sources, pending⟩

end Prompt

end Treewalk

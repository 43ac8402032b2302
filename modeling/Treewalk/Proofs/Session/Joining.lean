import Treewalk.Proofs.Reading.Joining
import Treewalk.Proofs.Run.Simulation
import Treewalk.Session

/-!
Running a program in pieces. Two sources without a static fault, run one after the other in a session, do
what the one source does that joins them by a line feed: the program prints the same, ends alike and
leaves the same world. Only the lines differ that functions of the second source remember, and they differ
by the lines of the first. When the first source stops at a runtime fault, so does the joined one, at the
same token.
-/

namespace Treewalk

/-! ### Stores that differ in the lines of code only -/

/-- Stores with the same scopes, which bind the same names to values that correspond. -/
structure Store.Like (like : Value → Value → Prop) (s s' : Store) : Prop where
  next : s'.next = s.next
  enclosing : ∀ id, s'.enclosing? id = s.enclosing? id
  bindings : ∀ id, Bindings.Like like (s.bindings id) (s'.bindings id)

namespace Store

variable {s s' : Store} {like : Value → Value → Prop}

/-- The scopes further out depend only on which scope lies inside which. -/
theorem outwards_congr (enclosing : ∀ id, s'.enclosing? id = s.enclosing? id) (fuel : Nat) (id : ScopeId) :
    s'.outwards fuel id = s.outwards fuel id := by
  induction fuel generalizing id with
  | zero => rfl
  | succ fuel ih =>
      simp only [outwards, enclosing id]
      cases s.enclosing? id with
      | none => rfl
      | some outer => simp only [ih outer]

namespace Like

/-- Stores stay alike when a scope is added to both inside the same one. -/
theorem add (same : s.Like like s') (outer : Option ScopeId) : (s.add outer).Like like (s'.add outer) where
  next := by rw [next_add, next_add, same.next]
  enclosing id := by rw [enclosing?_add, enclosing?_add, same.next, same.enclosing]
  bindings id := by
    rw [bindings_add, bindings_add]
    exact same.bindings id

/-- Stores stay alike when corresponding values are bound to a name in the same scope of both. -/
theorem define (same : s.Like like s') (id : ScopeId) (name : String) {v v' : Value} (held : like v v') :
    (s.define id name v).Like like (s'.define id name v') where
  next := by rw [next_define, next_define, same.next]
  enclosing k := by rw [enclosing?_define, enclosing?_define, same.enclosing]
  bindings k := by
    by_cases present : id < s.next
    · by_cases here : k = id
      · subst here
        rw [bindings_define_self present, bindings_define_self (same.next ▸ present)]
        exact (same.bindings k).set name held
      · rw [bindings_define_ne here, bindings_define_ne here]
        exact same.bindings k
    · rw [bindings_define_missing present, bindings_define_missing (same.next ▸ present)]
      exact same.bindings k

/-- Lookups visit the same scopes and find values that correspond, since both stores have the same tree
of scopes. -/
theorem get? (same : s.Like like s') (id : ScopeId) (name : String) :
    Option.Rel like (s.get? id name) (s'.get? id name) := by
  unfold Store.get? chain
  rw [outwards_congr same.enclosing]
  induction s.outwards (id + 1) id with
  | nil => exact .none
  | cons k rest ih =>
      rw [List.findSome?_cons, List.findSome?_cons]
      have found := (same.bindings k).find? name
      generalize (s.bindings k).find? name = o, (s'.bindings k).find? name = o' at found
      cases found with
      | none => exact ih
      | some held => exact .some held

/-- A name has one owner in stores that are alike, so assignments reach the same scope in both. -/
theorem owner? (same : s.Like like s') (id : ScopeId) (name : String) :
    s'.owner? id name = s.owner? id name := by
  unfold Store.owner? chain
  rw [outwards_congr same.enclosing]
  congr 1
  funext k
  have found := (same.bindings k).find? name
  generalize (s.bindings k).find? name = o, (s'.bindings k).find? name = o' at found
  cases found <;> rfl

end Like

/-- The code that a store holds: the declarations of its functions, and all that lies in them. -/
def Code (s : Store) (u : Stmt) : Prop :=
  ∃ c : Closure, (∃ id name, (name, .function (.closure c)) ∈ s.bindings id) ∧ u.Within c.declaration

end Store

/-- Where code stands in the joined source: the code that was there before stands where it stood, and the
code of `statements` stands `k` lines further down. -/
inductive Relocated (before : Store) (statements : List Stmt) (k : Int) : Int → Stmt → Prop where
  | kept {u} : before.Code u → Relocated before statements k 0 u
  | moved {s u} : s ∈ statements → u.Within s → Relocated before statements k k u

/-- Worlds that are alike, but for the lines that functions declared in `statements` remember. -/
structure World.Relocates (before : Store) (statements : List Stmt) (k : Int) (w w' : World) : Prop where
  store : w.store.Like (Value.Like (Relocated before statements k) Eq) w'.store
  functions : w'.functions = w.functions
  clock : w'.clock = w.clock

/-- Running statements, and running them moved down by some lines. -/
def Simulation.relocation (before : Store) (statements : List Stmt) (k : Int) (earlier : List String) :
    Simulation where
  Stage := Unit
  later _ _ := True
  code := Relocated before statements k
  scope _ := Eq
  binds _ := Eq
  store _ s s' := s.Like (Value.Like (Relocated before statements k) Eq) s'
  earlier := earlier
  cut := False
  cut' := False
  later_refl _ := trivial
  later_trans _ _ := trivial
  scope_mono _ same := same
  binds_mono _ same := same
  scope_of_binds same := same
  code_part := by
    intro l s u same part
    cases same with
    | kept held =>
        obtain ⟨c, bound, within⟩ := held
        exact .kept ⟨c, bound, within.part part⟩
    | moved listed within => exact .moved listed (within.part part)
  store_add := by
    rintro _ s s' i _ same rfl
    exact ⟨(), trivial, same.add _, same.next.symm⟩
  store_define := by
    rintro _ s s' i _ v v' name same rfl held
    exact same.define i name held
  get_like := by
    rintro _ s s' i _ name same rfl
    exact same.get? i name
  owner_binds := by
    rintro _ s s' i _ name same rfl
    rw [same.owner? i name]
    cases s.owner? i name with
    | none => exact .none
    | some owner => exact .some rfl

/-- A store corresponds to itself. Its functions are of the session's past, so they are not moved, and their
code is that of the store. -/
theorem Store.like_self (s : Store) (statements : List Stmt) (k : Int) :
    s.Like (Value.Like (Relocated s statements k) Eq) s where
  next := rfl
  enclosing _ := rfl
  bindings id := by
    apply List.forall₂_same.mpr
    rintro ⟨name, v⟩ listed
    refine ⟨rfl, .self ?_⟩
    rintro c rfl
    exact ⟨.kept ⟨c, ⟨id, name, listed⟩, .here⟩, rfl⟩

/-- Running two lists of statements in a row is running them one after the other, the second in the world that
the first leaves. -/
theorem Run.executeProgram_append (limits : Limits) (first second : List Stmt) :
    executeProgram limits (first ++ second) =
      executeProgram limits first >>= fun _ => executeProgram limits second := by
  induction first with
  | nil => simp [executeProgram]
  | cons s rest ih => simp [executeProgram, ih]

/-- A source without a static fault is read as a list of statements. -/
theorem Program.exists_of_clean {depth : Nat} {source : String}
    (clean : (Program.ofSource depth source).map Program.faults = some []) :
    ∃ statements, Program.ofSource depth source = some ⟨statements, []⟩ := by
  obtain ⟨⟨statements, faults⟩, read, silent⟩ := Option.map_eq_some_iff.mp clean
  obtain rfl : faults = [] := silent
  exact ⟨statements, read⟩

/-- The lines printed up to an outcome. -/
def Run.lines : Run.Outcome Unit → List String
  | .ok _ w | .error _ w => w.printed.toList

/-- The runtime fault that an outcome tells of. -/
def Run.fault? : Run.Outcome Unit → Option RuntimeFault
  | .error (.fault f) _ => some f
  | _ => none

namespace Session

variable {limits : Limits} {s : Session} {source a b : String} {A B : List Stmt}

/-- The world that a source starts to run in. -/
def start (s : Session) : World := { s.world with printed := #[] }

/-- Running the statements of a source, any report aside. -/
def execution (limits : Limits) (s : Session) (source : String) : Run.Outcome Unit :=
  match Program.ofSource limits.depth source with
  | none => .error .tooDeep s.start
  | some p => Run.executeProgram limits p.statements s.start

/-- The lines that the program itself prints. -/
def programLines (limits : Limits) (s : Session) (source : String) : List String :=
  Run.lines (s.execution limits source)

/-- The runtime fault that the program stops at. -/
def programFault? (limits : Limits) (s : Session) (source : String) : Option RuntimeFault :=
  Run.fault? (s.execution limits source)

/-- What is reported about a runtime fault. -/
def faultReport (s : Session) (source : String) (fault : Option RuntimeFault) : List String :=
  Report.lines s.guard.style s.shownPath source
    (fault.toList.map fun f => .atRuntime f.token f.message)

/-- What running a source gives, when its statements run like this. -/
def concluded (s : Session) (source : String) : Run.Outcome Unit → Result
  | .ok _ w => ⟨.finished .ok, w.printed.toList, { s with world := { w with printed := #[] } }⟩
  | .error (.fault f) w => ⟨.finished .broken, w.printed.toList ++ s.faultReport source (some f),
      { s with world := { w with printed := #[] } }⟩
  | .error e w => ⟨.failed (.ofStop e), w.printed.toList, { s with world := { w with printed := #[] } }⟩

/-- Without outlines, a run of a source without a fault is what the execution of its statements concludes to.
Nothing is left of reading and showing. -/
theorem run_eq_concluded (clean : (Program.ofSource limits.depth source).map Program.faults = some [])
    (quiet : s.showOutlines = false) :
    s.run limits source = s.concluded source (s.execution limits source) := by
  obtain ⟨statements, read⟩ := Program.exists_of_clean clean
  have interpreted : s.runIn limits source s.start = s.interpret limits source statements s.start := by
    simp [runIn, read, hasStatic, quiet]
  have executed : s.execution limits source = Run.executeProgram limits statements s.start := by
    simp only [execution, read]
  have begun : ({ s.world with printed := #[] } : World) = s.start := rfl
  rw [executed, run, begun, interpreted, interpret, Run.interpret]
  cases Run.executeProgram limits statements s.start with
  | ok _ w => rfl
  | error e w =>
      cases e with
      | fault f =>
          have recorded : hasRuntime [.atRuntime f.token f.message] = true := rfl
          simp [concluded, printReport, faultReport, recorded]
      | unknownExpression | unknownStatement | unknownOperator | zeroDivision | tooDeep | endless => rfl

/-- What is printed is the lines of the statements and then the report. -/
theorem printed_concluded (s : Session) (source : String) (o : Run.Outcome Unit) :
    (s.concluded source o).printed = Run.lines o ++ s.faultReport source (Run.fault? o) := by
  cases o with
  | ok _ w => simp [concluded, Run.lines, Run.fault?, faultReport, Report.lines]
  | error e w =>
      cases e with
      | fault f => rfl
      | unknownExpression | unknownStatement | unknownOperator | zeroDivision | tooDeep | endless =>
          simp [concluded, Run.lines, Run.fault?, faultReport, Report.lines]

/-- The statements of `b` run after `a`, and the same statements further down in the joined source. The two runs
agree, with the lines that `a` printed in front of the second one's. -/
theorem pieces_agree (limits : Limits) (B : List Stmt) (k : Int) (w : World) :
    (Simulation.relocation w.store B k w.printed.toList).Agrees (fun _ _ _ => True) ()
      (Run.executeProgram limits B { w with printed := #[] })
      (Run.executeProgram limits (B.map (Stmt.moved k)) w) := by
  have simulates : (Simulation.relocation w.store B k w.printed.toList).Simulates (fun _ _ _ => True) ()
      (Run.executeProgram limits B) (Run.executeProgram limits (B.map (Stmt.moved k))) := by
    apply Simulation.executeProgram_simulates limits rfl
    intro s listed
    exact Relocated.moved listed .here
  apply simulates () _ _ trivial
  exact ⟨w.store.like_self B k, (List.append_nil _).symm, rfl, rfl⟩

/-- What it means for results that the statements of the second source agree: the same status where they finish,
the lines of the first source in front, a fault on its own line or the moved one, and worlds that correspond. -/
theorem concluded_agrees {before : Store} {k : Int} {earlier : List String} {o o' : Run.Outcome Unit}
    (agrees : (Simulation.relocation before B k earlier).Agrees (fun _ _ _ => True) () o o')
    (s s' : Session) (source source' : String) :
    Run.lines o' = earlier ++ Run.lines o ∧
    (∃ l, (l = 0 ∨ l = k) ∧ Run.fault? o' = (Run.fault? o).map (RuntimeFault.moved l)) ∧
    (∀ status, (s'.concluded source' o').ending = .finished status ↔
      (s.concluded source o).ending = .finished status) ∧
    World.Relocates before B k (s.concluded source o).session.world
      (s'.concluded source' o').session.world := by
  cases agrees with
  | cut never => exact never.elim
  | cut' never => exact never.elim
  | ok _ _ related =>
      exact ⟨related.printed, ⟨0, .inl rfl, rfl⟩, fun _ => .rfl,
        related.store, related.functions, related.clock⟩
  | @stop _ l e w w' _ shifts related =>
      have place : l = 0 ∨ l = k := by
        obtain ⟨u, same⟩ := shifts
        cases same with
        | kept => exact .inl rfl
        | moved => exact .inr rfl
      have same : World.Relocates before B k w w' := ⟨related.store, related.functions, related.clock⟩
      refine ⟨related.printed, ⟨l, place, ?_⟩, ?_, ?_⟩
      · cases e <;> rfl
      · intro status
        cases e <;> simp [concluded, Stop.moved]
      · cases e <;> exact ⟨same.store, same.functions, same.clock⟩

theorem eq_ok_of_concluded {o : Run.Outcome Unit} (ended : (s.concluded source o).ending = .finished .ok) :
    ∃ w, o = .ok () w := by
  cases o with
  | ok _ w => exact ⟨w, rfl⟩
  | error e w => cases e <;> cases ended

/-- A run that ends as broken was ended by a runtime fault. -/
theorem eq_fault_of_concluded {o : Run.Outcome Unit}
    (ended : (s.concluded source o).ending = .finished .broken) : ∃ f w, o = .error (.fault f) w := by
  cases o with
  | ok _ w => cases ended
  | error e w =>
      cases e with
      | fault f => exact ⟨f, w, rfl⟩
      | unknownExpression | unknownStatement | unknownOperator | zeroDivision | tooDeep | endless => cases ended

/-- The statements of two sources, joined by a line feed, run as those of the first, and then, if these run to
their end, as those of the second one, moved down. -/
theorem execution_append (read : Program.ofSource limits.depth a = some ⟨A, []⟩)
    (read' : Program.ofSource limits.depth b = some ⟨B, []⟩) :
    s.execution limits (a ++ "\n" ++ b) = match s.execution limits a with
      | .ok _ w => Run.executeProgram limits (B.map (Stmt.moved (Text.lineFeeds a.toList + 1 : Nat))) w
      | .error e w => .error e w := by
  simp only [execution, read, Program.ofSource_append read read', Run.executeProgram_append, Run.bind_apply]
  cases Run.executeProgram limits A s.start <;> rfl

/-- **Running a program in pieces is running it whole.** `first` is what the first source gives, `second` what
the second one gives after it, and `joined` what both together give. -/
theorem run_append (limits : Limits) (s : Session) (a b : String) {first second joined : Result}
    (clean : (Program.ofSource limits.depth a).map Program.faults = some [])
    (clean' : (Program.ofSource limits.depth b).map Program.faults = some [])
    (quiet : s.showOutlines = false) (ran : s.run limits a = first)
    (ran' : first.session.run limits b = second) (ranJoined : s.run limits (a ++ "\n" ++ b) = joined) :
    (first.ending = .finished .ok →
      second.printed = first.session.programLines limits b ++
        s.faultReport b (first.session.programFault? limits b) ∧
      (∃ l : Int, (l = 0 ∨ l = (Text.lineFeeds a.toList + 1 : Nat)) ∧
        joined.printed = first.printed ++ first.session.programLines limits b ++
          s.faultReport (a ++ "\n" ++ b) ((first.session.programFault? limits b).map (RuntimeFault.moved l))) ∧
      (∀ status, joined.ending = .finished status ↔ second.ending = .finished status) ∧
      ∃ B, Program.ofSource limits.depth b = some ⟨B, []⟩ ∧
        World.Relocates first.session.world.store B (Text.lineFeeds a.toList + 1 : Nat) second.session.world
          joined.session.world) ∧
    (first.ending = .finished .broken →
      first.printed = s.programLines limits a ++ s.faultReport a (s.programFault? limits a) ∧
      joined.printed = s.programLines limits a ++
        s.faultReport (a ++ "\n" ++ b) (s.programFault? limits a) ∧
      joined.ending = .finished .broken) := by
  obtain ⟨A, read⟩ := Program.exists_of_clean clean
  obtain ⟨B, read'⟩ := Program.exists_of_clean clean'
  have cleanJoined : (Program.ofSource limits.depth (a ++ "\n" ++ b)).map Program.faults = some [] := by
    rw [Program.ofSource_append read read']
    rfl
  have whole := execution_append (s := s) read read'
  rw [run_eq_concluded clean quiet] at ran
  rw [run_eq_concluded cleanJoined quiet] at ranJoined
  subst ran ranJoined
  constructor
  · intro ended
    obtain ⟨w, done⟩ := eq_ok_of_concluded ended
    rw [done] at whole ran' ⊢
    have rest : (s.concluded a (.ok () w)).session.execution limits b =
        Run.executeProgram limits B { w with printed := #[] } := by
      simp only [execution, read']
      rfl
    have quiet' : (s.concluded a (.ok () w)).session.showOutlines = false := quiet
    rw [run_eq_concluded clean' quiet'] at ran'
    subst ran'
    have agrees := pieces_agree limits B (Text.lineFeeds a.toList + 1 : Nat) w
    rw [← rest] at agrees
    obtain ⟨lines, ⟨l, place, fault⟩, endings, same⟩ :=
      concluded_agrees agrees (s.concluded a (.ok () w)).session s b (a ++ "\n" ++ b)
    refine ⟨printed_concluded _ _ _, ⟨l, place, ?_⟩, ?_, B, read', ?_⟩
    · rw [printed_concluded, whole, lines, fault]
      rfl
    · rw [whole]
      exact endings
    · rw [whole]
      exact same
  · intro ended
    obtain ⟨f, w, stopped⟩ := eq_fault_of_concluded ended
    rw [stopped] at whole
    refine ⟨printed_concluded _ _ _, ?_, ?_⟩
    · rw [printed_concluded, whole, programLines, programFault?, stopped]
    · rw [whole]
      rfl

/-- The second source calls a function of the first one twice, and the second call fails. -/
theorem run_append_twice :
    ((Session.mk ⟨true, .plain⟩ "twice" false (.initial .stopped)).run ⟨40, 9⟩
      "fun f(x) \x7b\n  return x(); \x7d").ending = .finished .ok ∧
    ((Session.mk ⟨true, .plain⟩ "twice" false (.initial .stopped)).run ⟨40, 9⟩
      ("fun f(x) \x7b\n  return x(); \x7d" ++ "\n" ++
        "fun g() \x7b print \"hi\"; \x7d\nf(g); f(nil);")).ending = .finished .broken :=
  ⟨by decide +kernel,
    (((run_append ⟨40, 9⟩ _ _ _ (by decide +kernel) (by decide +kernel) rfl rfl rfl rfl).1
      (by decide +kernel)).2.2.1 .broken).mpr (by decide +kernel)⟩

end Session

end Treewalk

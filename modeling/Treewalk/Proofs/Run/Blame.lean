import Treewalk.Proofs.Grammar.Acceptance
import Treewalk.Proofs.Reading.Trees
import Treewalk.Proofs.Run.Discipline
import Treewalk.Proofs.Token.Joining
import Treewalk.Run.Interpret

/-!
What diagnostics are about. A runtime fault is blamed on a token of the code that runs: `Expr.blamed?` says
which token of an expression that is. Functions that are called may have been declared anywhere, so the
code that runs is all that lies under some roots, and the roots have to hold the declaration of every
function in the store; `Discipline.under` says that runs keep it so. In a fresh world the statements of the
program are the only roots. Then every diagnostic of the run, static or not, names a token of the source.
-/

namespace Treewalk

/-- The token that the faults of an expression itself are blamed on: the name of a variable that is read
or assigned, a unary or binary operator, or the opening parenthesis of a call. -/
def Expr.blamed? : Expr → Option Token
  | .variable name | .assign name _ => some name
  | .unary op _ | .binary _ op _ => some op
  | .call _ paren _ => some paren
  | .literal _ | .grouping _ | .logical _ _ _ | .ternary _ _ _ | .misplaced _ => none

/-- Every fault that an expression raises is blamed on the one token that the expression keeps for this. -/
theorem Expr.Raises.blamed {e : Expr} {f : RuntimeFault} (raised : e.Raises (.fault f)) :
    e.blamed? = some f.token := by
  cases raised <;> rfl

/-- The kinds of tokens that faults are blamed on. -/
def blamedKinds : List TokenKind := [.identifier, .leftParen, .bang, .minus] ++ binaryOperators

/-- No end token and no string is ever blamed, so every blamed token has a column. -/
theorem inner_of_blamed {kind : TokenKind} (blamed : kind ∈ blamedKinds) :
    kind ≠ .endOfInput ∧ kind ≠ .string := by
  have all : ∀ kind ∈ blamedKinds, kind ≠ .endOfInput ∧ kind ≠ .string := by decide
  exact all kind blamed

/-- In a tree that was read, a blamed token is a known one of a fitting kind. -/
theorem Expr.Fitting.blamed {K : Token → Prop} {e : Expr} {t : Token} (fitting : e.Fitting K)
    (blamed : e.blamed? = some t) : K t ∧ t.kind ∈ blamedKinds := by
  cases e with
  | «variable» name | assign name =>
      obtain rfl := Option.some.inj blamed
      exact ⟨fitting.1, by simp [blamedKinds, fitting.2]⟩
  | unary op =>
      obtain rfl := Option.some.inj blamed
      exact ⟨fitting.1, by rcases fitting.2 with kind | kind <;> simp [blamedKinds, kind]⟩
  | binary left op =>
      obtain rfl := Option.some.inj blamed
      exact ⟨fitting.1, List.mem_append_right _ fitting.2⟩
  | call callee paren =>
      obtain rfl := Option.some.inj blamed
      exact ⟨fitting.1, by simp [blamedKinds, fitting.2]⟩
  | literal | grouping | logical | ternary | misplaced => cases blamed

/-! ### Code under roots -/

/-- A statement that lies in one of the roots. -/
def Stmt.Under (roots : Stmt → Prop) (s : Stmt) : Prop := ∃ root, roots root ∧ s.Within root

/-- An expression that lies in one of the roots. -/
def Expr.Under (roots : Stmt → Prop) (e : Expr) : Prop := ∃ root, roots root ∧ root.Mentions e

/-- A value that is no function declared outside the roots. -/
def Value.Under (roots : Stmt → Prop) : Value → Prop
  | .const _ | .function (.native _) => True
  | .function (.closure c) => (Stmt.function c.name c.parameters c.body).Under roots

/-- Every function in the store was declared under the roots. -/
def Store.Under (roots : Stmt → Prop) (s : Store) : Prop :=
  ∀ id name v, (name, v) ∈ s.bindings id → v.Under roots

/-- A stop that is blamed on code under the roots, if it is blamed on code at all. -/
def Stop.Under (roots : Stmt → Prop) : Stop → Prop
  | .fault f => ∃ e : Expr, e.Under roots ∧ e.blamed? = some f.token
  | _ => True

section Under

variable {roots : Stmt → Prop}

/-- A part of a statement under a root is under that root. The two lemmas that follow say the same
for expressions. -/
theorem Stmt.Under.part {s t : Stmt} (under : s.Under roots) (part : t ∈ s.parts) : t.Under roots := by
  obtain ⟨root, listed, within⟩ := under
  exact ⟨root, listed, within.part part⟩

theorem Stmt.Under.expression {s : Stmt} {e : Expr} (under : s.Under roots) (listed : e ∈ s.expressions) :
    e.Under roots := by
  obtain ⟨root, member, within⟩ := under
  exact ⟨root, member, within.mentions listed⟩

theorem Expr.Under.child {e c : Expr} (under : e.Under roots) (child : c ∈ e.children) : c.Under roots := by
  obtain ⟨root, listed, mentions⟩ := under
  exact ⟨root, listed, mentions.child child⟩

/-- Faults of an expression under a root are blamed on tokens under that root, since each is blamed on a token
of the expression itself. -/
theorem Expr.Under.raises {e : Expr} {st : Stop} (under : e.Under roots) (raised : e.Raises st) :
    st.Under roots := by
  cases st with
  | fault f => exact ⟨e, under, raised.blamed⟩
  | unknownExpression | unknownStatement | unknownOperator | zeroDivision | tooDeep | endless => trivial

/-- Functions that come from some roots come from any others that hold the same functions. -/
theorem Store.Under.imp {roots' : Stmt → Prop} {s : Store} (stored : s.Under roots)
    (more : ∀ name parameters body, (Stmt.function name parameters body).Under roots →
      (Stmt.function name parameters body).Under roots') : s.Under roots' := by
  intro id name v listed
  have held := stored id name v listed
  cases v with
  | const => trivial
  | function f =>
      cases f with
      | native => trivial
      | closure c => exact more c.name c.parameters c.body held

theorem Store.Under.mono {roots' : Stmt → Prop} {s : Store} (stored : s.Under roots)
    (more : ∀ root, roots root → roots' root) : s.Under roots' := by
  apply stored.imp
  rintro name parameters body ⟨root, member, within⟩
  exact ⟨root, more root member, within⟩

/-- A definition of a value that comes from the roots keeps the store to functions that do, in whatever scope it
is made. -/
theorem Store.Under.define {s : Store} (stored : s.Under roots) (id : ScopeId) (name : String) {v : Value}
    (held : v.Under roots) : (s.define id name v).Under roots := by
  intro k other found listed
  rcases Store.mem_bindings_define listed with ⟨-, rfl⟩ | before
  · exact held
  · exact stored k other found before

/-- A world begins with no function of any program, so its functions come from any roots at all. -/
theorem World.initial_under (roots : Stmt → Prop) (clock : Clock) :
    (World.initial clock).store.Under roots := by
  have bare : (Store.empty.add none).Under roots := by
    intro id name v listed
    rw [Store.bindings_add] at listed
    simp [Store.bindings, Store.empty] at listed
  exact bare.define globals Native.clock.name trivial

end Under

/-- Runs of code under the roots only. -/
def Discipline.under (roots : Stmt → Prop) : Discipline where
  store := Store.Under roots
  scope _ _ := True
  value _ := Value.Under roots
  binds _ _ := True
  expr := Expr.Under roots
  stmt _ := Stmt.Under roots
  stop := Stop.Under roots
  scope_mono _ inside := inside
  value_mono _ held := held
  value_const _ := trivial
  store_add := fun stored _ =>
    ⟨fun id name v listed => stored id name v (by simpa using listed), trivial, fun _ => trivial⟩
  store_define := fun stored _ _ held => stored.define _ _ held
  store_assign := fun stored _ _ held => stored.define _ _ held
  value_get := fun stored _ found => by
    obtain ⟨k, -, bound⟩ := Store.get?_some found
    exact stored k _ _ bound
  expr_child := Expr.Under.child
  stmt_expression := Stmt.Under.expression
  stmt_branch := Stmt.Under.part
  stmt_loop under := under.part (by simp [Stmt.parts])
  stmt_block under _ listed := under.part listed
  stmt_var _ := trivial
  stmt_function _ := trivial
  value_closure _ under _ := under
  scope_closure _ := trivial
  stmt_closure under _ listed := Stmt.Under.part under listed
  stop_raised := Expr.Under.raises
  stop_misplaced _ := trivial
  stop_tooDeep := trivial
  stop_endless := trivial

/-! ### Interpreting code under roots -/

/-- What interpreting statements may come to: a fault is recorded exactly when not every statement ran, it
is blamed on code under the roots, and the store stays under them. -/
structure Interpretation.Blames (roots : Stmt → Prop) (before : List Diagnostic) (i : Interpretation) :
    Prop where
  store : i.world.store.Under roots
  recorded : (i.ran ≠ .ok false ∧ i.diagnostics = before) ∨
    i.ran = .ok false ∧ ∃ f : RuntimeFault, i.diagnostics = before ++ [.atRuntime f.token f.message] ∧
      ∃ e : Expr, e.Under roots ∧ e.blamed? = some f.token

/-- Interpreting statements records faults that are blamed on tokens of these statements or of functions already
in the store. This is the discipline of blame, applied to a whole program. -/
theorem Run.interpret_blames {roots : Stmt → Prop} (limits : Limits) {statements : List Stmt}
    (before : List Diagnostic) {w : World} (stored : w.store.Under roots)
    (listed : ∀ s ∈ statements, roots s) :
    (Run.interpret limits statements before w).Blames roots before := by
  have allowed : ∀ s ∈ statements, s.Under roots := fun s member => ⟨s, listed s member, .here⟩
  have keeps := (Discipline.under roots).executeProgram_keeps limits allowed trivial w (Nat.zero_le _) stored
  unfold Run.interpret
  cases result : Run.executeProgram limits statements w with
  | ok _ w' =>
      rw [result] at keeps
      exact ⟨keeps.2.1, .inl ⟨by simp, rfl⟩⟩
  | error st w' =>
      rw [result] at keeps
      cases st with
      | fault f => exact ⟨keeps.2.1, .inr ⟨rfl, f, rfl, keeps.2.2⟩⟩
      | unknownExpression | unknownStatement | unknownOperator | zeroDivision | tooDeep | endless =>
          exact ⟨keeps.2.1, .inl ⟨by simp, rfl⟩⟩

/-! ### Diagnostics and tokens -/

/-- A diagnostic gives the line, the lexeme and the column of a token. -/
structure Diagnostic.Names (d : Diagnostic) (t : Token) : Prop where
  line : d.line = t.line
  lexeme : d.lexeme = t.lexeme
  column : d.column = t.column

namespace Diagnostic

theorem names_atRuntime (t : Token) (message : String) : (atRuntime t message).Names t := ⟨rfl, rfl, rfl⟩

/-- A diagnostic at a token other than the end token names that token: its line, its column and its lexeme. -/
theorem names_atToken {t : Token} (inner : t.kind ≠ .endOfInput) (message : String) :
    (atToken t message).Names t := by
  unfold atToken
  rw [if_neg inner]
  exact ⟨rfl, rfl, rfl⟩

/-- A diagnostic at the end token is about the end of the input, and gives its line only. -/
theorem atToken_end {t : Token} (ends : t.kind = .endOfInput) (message : String) :
    atToken t message = atEnd t.line message := by
  unfold atToken
  rw [if_pos ends]

end Diagnostic

/-- A token that faults of a program may be blamed on. -/
def Program.Blames (p : Program) (t : Token) : Prop :=
  ∃ s ∈ p.statements, ∃ e, s.Mentions e ∧ e.blamed? = some t

namespace Program

variable {depth : Nat} {source : String} {p : Program}

/-- The line that reading takes for the end of the input is that of the end token, which is the only such token
of a scan. -/
theorem endLine_cursor (source : List Char) :
    (cursor (Scan.ofChars source).tokens).endLine = (Scan.endToken source).line := by
  rw [Scan.tokens_eq_words_append, cursor_snoc Scan.kind_of_mem_words rfl]

/-- The lexical faults of a source come first, and then those found in reading. Each of these names a token
or is about the end of the input. -/
theorem faults_name_tokens (read : ofSource depth source = some p) : ∃ found,
    p.faults = (Scan.ofSource source).faults ++ found ∧ ∀ d ∈ found, d.isRuntime = false ∧
      ((∃ t ∈ (Scan.ofSource source).tokens, t.kind ≠ .endOfInput ∧ d.Names t) ∨
        ∃ last ∈ (Scan.ofSource source).tokens, last.kind = .endOfInput ∧
          d = .atEnd last.line d.message) := by
  obtain ⟨q, readTokens, rfl⟩ := Option.map_eq_some_iff.mp read
  refine ⟨q.faults, rfl, ?_⟩
  intro d listed
  have known := (ofTokens_wellFormed readTokens
    fun t (scanned : t ∈ (Scan.ofSource source).tokens) => scanned).2 d listed
  rcases known with ⟨t, message, scanned, rfl⟩ | ⟨message, rfl⟩
  · by_cases ends : t.kind = .endOfInput
    · rw [Diagnostic.atToken_end ends]
      exact ⟨rfl, .inr ⟨t, scanned, ends, rfl⟩⟩
    · have names := Diagnostic.names_atToken ends message
      refine ⟨?_, .inl ⟨t, scanned, ends, names⟩⟩
      unfold Diagnostic.atToken
      rw [if_neg ends]
      rfl
  · have last : Scan.endToken source.toList ∈ (Scan.ofSource source).tokens := by
      rw [Scan.ofSource, Scan.tokens_eq_words_append]
      simp
    rw [Scan.ofSource, endLine_cursor]
    exact ⟨rfl, .inr ⟨_, last, rfl, rfl⟩⟩

/-- Nothing is found at run time before the run, so a recorded runtime fault is told from the faults
of reading. -/
theorem isRuntime_of_mem_faults (read : ofSource depth source = some p) {d : Diagnostic}
    (listed : d ∈ p.faults) : d.isRuntime = false := by
  obtain ⟨found, same, each⟩ := faults_name_tokens read
  rw [same] at listed
  rcases List.mem_append.mp listed with lexical | syntactic
  · unfold Diagnostic.isRuntime
    rw [Scan.site_of_mem_faults lexical]
  · exact (each d syntactic).1

/-- Faults of a program are blamed on tokens of its source. The tree holds no others, by
`ofTokens_wellFormed`. -/
theorem Blames.scanned {t : Token} (blames : p.Blames t) (read : ofSource depth source = some p) :
    t ∈ (Scan.ofSource source).tokens ∧ t.kind ∈ blamedKinds := by
  obtain ⟨q, readTokens, rfl⟩ := Option.map_eq_some_iff.mp read
  obtain ⟨s, listed, e, mentions, blamed⟩ := blames
  have formed := (ofTokens_wellFormed readTokens
    fun t (scanned : t ∈ (Scan.ofSource source).tokens) => scanned).1 s listed
  exact (formed.expressions e mentions).blamed blamed

end Program

namespace Run

/-- **Diagnostics name scanned tokens.** Interpreted in a fresh world, whether or not there were faults before,
a program records at most one runtime fault, exactly when not every statement ran. Every diagnostic found in
reading names a token of the source or is about its end, and the runtime fault names a token that such faults
may be blamed on. -/
theorem diagnostics_name_scanned_tokens (limits : Limits) (source : String) (clock : Clock) {p : Program}
    (read : Program.ofSource limits.depth source = some p) :
    (∃ found, p.faults = (Scan.ofSource source).faults ++ found ∧ ∀ d ∈ found,
      (∃ t ∈ (Scan.ofSource source).tokens, t.kind ≠ .endOfInput ∧ d.Names t) ∨
        d.place = " at end" ∧ ∃ last ∈ (Scan.ofSource source).tokens,
          last.kind = .endOfInput ∧ d.line = last.line) ∧
    let i := Run.interpret limits p.statements p.faults (.initial clock)
    (i.diagnostics.filter Diagnostic.isRuntime).length ≤ 1 ∧
    (∀ d ∈ i.diagnostics, d.isRuntime = true →
      ∃ t ∈ (Scan.ofSource source).tokens, d.Names t ∧ p.Blames t) ∧
    (i.ran = .ok false ↔ ∃ d ∈ i.diagnostics, d.isRuntime = true) := by
  have static : p.faults.filter Diagnostic.isRuntime = [] := by
    apply List.filter_eq_nil_iff.mpr
    intro d listed
    simp [Program.isRuntime_of_mem_faults read listed]
  have silent : ¬ ∃ d ∈ p.faults, d.isRuntime = true := by
    simpa using List.filter_eq_nil_iff.mp static
  constructor
  · obtain ⟨found, same, each⟩ := Program.faults_name_tokens read
    refine ⟨found, same, ?_⟩
    intro d listed
    rcases (each d listed).2 with named | ⟨last, scanned, ends, atEnd⟩
    · exact .inl named
    · rw [atEnd]
      exact .inr ⟨rfl, last, scanned, ends, rfl⟩
  · intro i
    have blames : i.Blames (· ∈ p.statements) p.faults :=
      interpret_blames limits p.faults (World.initial_under _ clock) fun _ listed => listed
    rcases blames.recorded with ⟨ran, same⟩ | ⟨ran, f, same, e, under, blamed⟩
    · rw [same]
      refine ⟨by simp [static], ?_, ?_⟩
      · intro d listed runtime
        exact absurd ⟨d, listed, runtime⟩ silent
      · exact iff_of_false ran silent
    · obtain ⟨s, listed, mentions⟩ := under
      have role : p.Blames f.token := ⟨s, listed, e, mentions, blamed⟩
      rw [same]
      refine ⟨?_, ?_, ?_⟩
      · rw [List.filter_append, static, List.nil_append]
        exact List.length_filter_le ..
      · intro d member runtime
        rcases List.mem_append.mp member with before | new
        · exact absurd ⟨d, before, runtime⟩ silent
        · obtain rfl := List.mem_singleton.mp new
          exact ⟨f.token, (role.scanned read).1, Diagnostic.names_atRuntime _ _, role⟩
      · exact iff_of_true ran ⟨_, List.mem_append_right _ (List.mem_singleton_self _), rfl⟩

/-- A source with a fault in reading, and a runtime fault inside a function that another one calls. -/
theorem nestedCall_names_tokens : ∃ p,
    Program.ofSource 40 "fun f(g) \x7b return g(nil); \x7d\nf(f); )" = some p ∧ p.faults ≠ [] ∧
    let i := Run.interpret ⟨40, 9⟩ p.statements p.faults (.initial .stopped)
    i.ran = .ok false ∧ ∃ d ∈ i.diagnostics, d.isRuntime = true ∧
      ∃ t ∈ (Scan.ofSource "fun f(g) \x7b return g(nil); \x7d\nf(f); )").tokens, d.Names t ∧ p.Blames t := by
  have found : ((Program.ofSource 40 "fun f(g) \x7b return g(nil); \x7d\nf(f); )").any fun p =>
      !p.faults.isEmpty && hasRuntime
        (Run.interpret ⟨40, 9⟩ p.statements p.faults (.initial .stopped)).diagnostics) = true := by
    decide +kernel
  obtain ⟨p, read, found⟩ := (Option.any_eq_true _ _).mp found
  obtain ⟨faulty, stopped⟩ := Bool.and_eq_true_iff.mp found
  obtain ⟨d, listed, runtime⟩ := List.any_eq_true.mp stopped
  obtain ⟨-, -, names, ran⟩ := diagnostics_name_scanned_tokens ⟨40, 9⟩ _ .stopped read
  refine ⟨p, read, by simpa using faulty, ran.mpr ⟨d, listed, runtime⟩, d, listed, runtime, ?_⟩
  exact names d listed runtime

end Run

end Treewalk

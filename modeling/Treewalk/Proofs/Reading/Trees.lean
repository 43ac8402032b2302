import Treewalk.Program
import Treewalk.Proofs.Reading
import Treewalk.Proofs.Tree.WellFormed

/-!
What reading builds, faults or none. Whatever the tokens are, every tree that is read is well formed: a
fault leaves a declaration out, or keeps a tree that is well formed without it. All tokens in the trees
and in the reports come from the list that is read.
-/

namespace Treewalk

/-- The tokens left are among `K`, and what was reported is about one of these or about the end of the
input, which is on the given line. -/
structure Cursor.Known (K : Token → Prop) (line : Int) (c : Cursor) : Prop where
  rest : ∀ t ∈ c.rest, K t
  endLine : c.endLine = line
  reported : ∀ d ∈ c.reported,
    (∃ t message, K t ∧ d = .atToken t message) ∨ ∃ message, d = .atEnd line message

namespace Cursor.Known

variable {K : Token → Prop} {line : Int} {c : Cursor}

/-- Dropping tokens leaves all that is left, and all that was reported, among what is known. So readers may
forget tokens, but never make one up. -/
theorem suffix (known : c.Known K line) {rest : List Token} (later : rest <:+ c.rest) :
    ({ c with rest := rest } : Cursor).Known K line :=
  ⟨fun t left => known.rest t (later.mem left), known.endLine, known.reported⟩

/-- A report at a known token is one of those that are allowed. -/
theorem report (known : c.Known K line) {t : Token} (token : K t) (message : String) :
    (c.report (.atToken t message)).Known K line := by
  refine ⟨known.rest, known.endLine, fun d listed => ?_⟩
  rcases Array.mem_push.mp listed with before | rfl
  · exact known.reported d before
  · exact .inl ⟨t, message, token, rfl⟩

/-- A report at the next token is about a known token, and at the end of the input it is about that end. -/
theorem reportHere (known : c.Known K line) (fault : SyntaxFault) :
    (c.report (c.faultHere fault)).Known K line := by
  cases found : c.rest with
  | nil =>
      refine ⟨known.rest, known.endLine, fun d listed => ?_⟩
      rcases Array.mem_push.mp listed with before | rfl
      · exact known.reported d before
      · exact .inr ⟨fault.message, by simp [faultHere, found, known.endLine]⟩
  | cons t rest =>
      have here : c.faultHere fault = .atToken t fault.message := by simp [faultHere, found]
      rw [here]
      exact known.report (known.rest t (by simp [found])) _

/-- Skipping only drops tokens, so a recovered reading stays among the known tokens. -/
theorem synchronize (known : c.Known K line) : c.synchronize.Known K line := by
  unfold Cursor.synchronize
  split
  · exact known
  next t rest found =>
    refine known.suffix ?_
    rw [found]
    exact (skipAfter_suffix t.kind rest).trans (List.suffix_cons t rest)

end Cursor.Known

namespace Parse

variable {K : Token → Prop} {α β : Type}

/-! ### Readers and what they give -/

/-- A result satisfies `P`, and the cursor stays within the known tokens in any case. -/
def Delivers (K : Token → Prop) (line : Int) (P : α → Prop) : Outcome α → Prop
  | .ok a d => P a ∧ d.Known K line
  | .error _ d => d.Known K line

/-- On known tokens a reader gives only what satisfies `P`. -/
def Yields (K : Token → Prop) (P : α → Prop) (p : Parse α) : Prop :=
  ∀ line c, c.Known K line → Delivers K line P (p c)

/-- A reader that yields trees of one sort yields trees of every wider sort. -/
theorem Yields.mono {P Q : α → Prop} {p : Parse α} (yields : Yields K P p) (weaker : ∀ a, P a → Q a) :
    Yields K Q p := by
  intro line c known
  have read := yields line c known
  cases result : p c with
  | error e d =>
      rw [result] at read
      exact read
  | ok a d =>
      rw [result] at read
      exact ⟨weaker a read.1, read.2⟩

/-- Sequencing. The second reader may rely on what is known of the first one's result. -/
theorem Yields.bind {P : α → Prop} {Q : β → Prop} {p : Parse α} {q : α → Parse β}
    (first : Yields K P p) (next : ∀ a, P a → Yields K Q (q a)) : Yields K Q (p >>= q) := by
  intro line c known
  rw [bind_apply]
  have started := first line c known
  cases computed : p c with
  | error e d =>
      rw [computed] at started
      exact started
  | ok a d =>
      rw [computed] at started
      exact next a started.1 line d started.2

/-- A result that has the property can be given at any time, since nothing is read for it. -/
theorem Yields.pure {P : α → Prop} {a : α} (holds : P a) : Yields K P (Pure.pure a) :=
  fun _ _ known => ⟨holds, known⟩

/-- Building a tree from what was read: the property has to carry over from the part to the whole. -/
theorem Yields.map {P : α → Prop} {Q : β → Prop} {f : α → β} {p : Parse α} (yields : Yields K P p)
    (mapped : ∀ a, P a → Q (f a)) : Yields K Q (f <$> p) := by
  intro line c known
  rw [map_apply]
  have read := yields line c known
  cases result : p c with
  | error e d =>
      rw [result] at read
      exact read
  | ok a d =>
      rw [result] at read
      exact ⟨mapped a read.1, read.2⟩

theorem tooDeep_yields {P : α → Prop} : Yields K P tooDeep := fun _ _ known => known

/-- Unwinding gives no tree, and its report is about the next token or the end of the input. -/
theorem fail_yields {P : α → Prop} (fault : SyntaxFault) : Yields K P (fail fault) :=
  fun _ _ known => known.reportHere fault

theorem report_yields {t : Token} (token : K t) (fault : SyntaxFault) :
    Yields K (fun _ => True) (report t fault) :=
  fun _ _ known => ⟨trivial, known.report token _⟩

theorem reportHere_yields (fault : SyntaxFault) : Yields K (fun _ => True) (reportHere fault) :=
  fun _ _ known => ⟨trivial, known.reportHere fault⟩

theorem reportIf_yields {wrong : Bool} {reporting : Parse Unit}
    (yields : Yields K (fun _ => True) reporting) : Yields K (fun _ => True) (reportIf wrong reporting) := by
  cases wrong with
  | false => exact .pure trivial
  | true => exact yields

/-- An accepted token is one of the known ones and of a listed kind. This is where all tokens in the trees come
from. -/
theorem accept?_yields (kinds : List TokenKind) :
    Yields K (fun o => ∀ t ∈ o, K t ∧ t.kind ∈ kinds) (accept? kinds) := by
  intro line c known
  cases found : c.rest with
  | nil =>
      rw [accept?_nil found]
      exact ⟨by simp, known⟩
  | cons t rest =>
      rw [accept?_cons found]
      by_cases listed : t.kind ∈ kinds
      · rw [if_pos listed]
        refine ⟨?_, known.suffix (found ▸ List.suffix_cons t rest)⟩
        intro u same
        cases same
        exact ⟨known.rest t (by simp [found]), listed⟩
      · rw [if_neg listed]
        exact ⟨by simp, known⟩

/-- A token that was expected is a known one of the expected kind. Names in declarations come from here. -/
theorem expect_yields (kind : TokenKind) (fault : SyntaxFault) :
    Yields K (fun t => K t ∧ t.kind = kind) (expect kind fault) := by
  refine .bind (accept?_yields [kind]) fun o accepted => ?_
  cases o with
  | none => exact fail_yields fault
  | some t => exact .pure (by simpa using accepted t rfl)

theorem remaining_yields : Yields K (fun _ => True) remaining := fun _ _ known => ⟨trivial, known⟩

theorem nextIs_yields (kind : TokenKind) : Yields K (fun _ => True) (nextIs kind) := by
  intro line c known
  unfold nextIs
  split <;> exact ⟨trivial, known⟩

section Combinators

variable {P : α → Prop} {p : Parse α}

/-- An optional part, where there is one, is what its reader yields. -/
theorem unlessNext_yields (stop : TokenKind) (yields : Yields K P p) :
    Yields K (fun o => ∀ a ∈ o, P a) (unlessNext stop p) := by
  refine .bind (nextIs_yields stop) fun found _ => ?_
  cases found with
  | true => exact .pure (by simp)
  | false => exact yields.map (by simp)

/-- A part behind a sign, where there is one, is what its reader yields; the sign itself is not kept. -/
theorem afterSign_yields (kind : TokenKind) (yields : Yields K P p) :
    Yields K (fun o => ∀ a ∈ o, P a) (afterSign kind p) := by
  refine .bind (accept?_yields [kind]) fun o _ => ?_
  cases o with
  | none => exact .pure (by simp)
  | some t => exact yields.map (by simp)

/-- A declaration that is given is well formed. A malformed one is left out, so nothing has to be shown
of it. -/
theorem recovering_yields (yields : Yields K P p) : Yields K (fun o => ∀ a ∈ o, P a) (recovering p) := by
  intro line c known
  have read := yields line c known
  unfold recovering
  cases result : p c with
  | ok a d =>
      rw [result] at read
      exact ⟨by simpa using read.1, read.2⟩
  | error e d =>
      rw [result] at read
      cases e with
      | malformed => exact ⟨by simp, Cursor.Known.synchronize read⟩
      | tooDeep => exact read

/-- All items of a list are what their reader yields, those past the most that there may be included. By
induction over the turns. -/
theorem itemsFrom_yields (excess : SyntaxFault) (yields : Yields K P p) (fuel count : Nat) :
    Yields K (fun as => ∀ a ∈ as, P a) (itemsFrom excess p fuel count) := by
  induction fuel generalizing count with
  | zero => exact .pure (by simp)
  | succ fuel ih =>
      refine .bind (reportIf_yields (reportHere_yields excess)) fun _ _ => ?_
      refine .bind yields fun first holds => .bind (accept?_yields [.comma]) fun o _ => ?_
      cases o with
      | none => exact .pure (by simpa using holds)
      | some comma =>
          refine .bind (ih (count + 1)) fun more each => .pure ?_
          simpa using ⟨holds, each⟩

theorem items_yields (excess unclosed : SyntaxFault) (yields : Yields K P p) :
    Yields K (fun as => ∀ a ∈ as, P a) (items excess unclosed p) := by
  refine .bind remaining_yields fun fuel _ => ?_
  refine .bind (unlessNext_yields _ (itemsFrom_yields excess yields (fuel + 1) 0)) fun found each => ?_
  refine .bind (expect_yields _ _) fun _ _ => .pure ?_
  cases found with
  | none => simp
  | some as => exact each as rfl

end Combinators

/-! ### Expressions -/

/-- Operands joined by operators of one level. The tree built so far is well formed at every turn, which carries
the induction. -/
theorem chain_yields {operand : Parse Expr} {ops : List TokenKind} {join : Expr → Token → Expr → Expr}
    (joined : ∀ left op right, K op → op.kind ∈ ops → left.WellFormed K → right.WellFormed K →
      (join left op right).WellFormed K)
    (yields : Yields K (Expr.WellFormed K) operand) (fuel : Nat) {left : Expr}
    (formed : left.WellFormed K) : Yields K (Expr.WellFormed K) (chain ops join operand fuel left) := by
  induction fuel generalizing left with
  | zero => exact .pure formed
  | succ fuel ih =>
      refine .bind (accept?_yields ops) fun o accepted => ?_
      cases o with
      | none => exact .pure formed
      | some op =>
          obtain ⟨known, listed⟩ := accepted op rfl
          exact .bind yields fun right read => ih (joined left op right known listed formed read)

/-- A level of operators that group to the left, given that joining two well-formed operands gives a well-formed
tree. -/
theorem leftAssoc_yields {operand : Parse Expr} {ops : List TokenKind}
    {join : Expr → Token → Expr → Expr}
    (joined : ∀ left op right, K op → op.kind ∈ ops → left.WellFormed K → right.WellFormed K →
      (join left op right).WellFormed K)
    (yields : Yields K (Expr.WellFormed K) operand) :
    Yields K (Expr.WellFormed K) (leftAssoc ops join operand) :=
  .bind yields fun _ formed => .bind remaining_yields fun fuel _ => chain_yields joined yields fuel formed

/-- A level of binary operators joins its operands with an operator of that level, which the tree has to know as
a binary one. -/
theorem binary_yields {operand : Parse Expr} {ops : List TokenKind} (listed : ops ⊆ binaryOperators)
    (yields : Yields K (Expr.WellFormed K) operand) :
    Yields K (Expr.WellFormed K) (leftAssoc ops .binary operand) := by
  refine leftAssoc_yields (fun left op right known kind formed formed' => ?_) yields
  simpa using ⟨⟨known, listed kind⟩, formed, formed'⟩

/-- A level of `and` or of `or`, whose operator is kept in the tree, since it decides which operand
is evaluated. -/
theorem logical_yields {operand : Parse Expr} {word : TokenKind}
    (boolean : word = .andWord ∨ word = .orWord) (yields : Yields K (Expr.WellFormed K) operand) :
    Yields K (Expr.WellFormed K) (leftAssoc [word] .logical operand) := by
  refine leftAssoc_yields (fun left op right known kind formed formed' => ?_) yields
  have same : op.kind = word := by simpa using kind
  simpa [same] using ⟨⟨known, boolean⟩, formed, formed'⟩

/-- Calls in a row: each one has the calls before it as its callee. By induction over the turns. -/
theorem calls_yields {argument : Parse Expr} (yields : Yields K (Expr.WellFormed K) argument)
    (fuel : Nat) {callee : Expr} (formed : callee.WellFormed K) :
    Yields K (Expr.WellFormed K) (calls argument fuel callee) := by
  induction fuel generalizing callee with
  | zero => exact .pure formed
  | succ fuel ih =>
      refine .bind (accept?_yields [.leftParen]) fun o accepted => ?_
      cases o with
      | none => exact .pure formed
      | some paren =>
          have opened := accepted paren rfl
          refine .bind (items_yields _ _ yields) fun args each => ih ?_
          simpa using ⟨by simpa using opened, formed, each⟩

/-- Literals, names and grouped expressions. The one part that is read below is the inside of a grouping. -/
theorem primary_yields {inner : Parse Expr} (yields : Yields K (Expr.WellFormed K) inner) :
    Yields K (Expr.WellFormed K) (primary inner) := by
  refine .bind (accept?_yields _) fun o accepted => ?_
  cases o with
  | none => exact fail_yields _
  | some t =>
      obtain ⟨known, listed⟩ := accepted t rfl
      dsimp only
      split
      · exact .pure (by simp)
      · exact .pure (by simp)
      · exact .pure (by simp)
      next kind => exact .pure (by simpa using ⟨known, kind⟩)
      · refine .bind yields fun e formed => .bind (expect_yields _ _) fun _ _ => .pure ?_
        simpa using formed
      · refine .pure (Expr.wellFormed_constant known ?_)
        simp only [List.mem_cons, List.not_mem_nil, or_false] at listed
        grind

/-- An assignment keeps the name of its target. Any other target is reported at the sign, and the value then
stands alone, so the tree is well formed all the same. -/
theorem assignTo_yields {target value : Expr} {sign : Token} (known : K sign)
    (formed : target.WellFormed K) (formed' : value.WellFormed K) :
    Yields K (Expr.WellFormed K) (assignTo target sign value) := by
  unfold assignTo
  split
  next name => exact .pure (by simpa using ⟨by simpa using formed, formed'⟩)
  · exact .bind (report_yields known _) fun _ _ => .pure formed'

/-- Every expression that is read is well formed, at each level and any depth, whether or not something was
reported inside it. -/
theorem expression_yields (depth : Nat) (l : Level) :
    Yields K (Expr.WellFormed K) (expression depth l) := by
  induction depth generalizing l with
  | zero => exact tooDeep_yields
  | succ depth ih =>
      cases l with
      | assignment =>
          refine .bind (ih .disjunction) fun target formed => ?_
          refine .bind (accept?_yields [.equal]) fun o accepted => ?_
          cases o with
          | none => exact .pure formed
          | some sign =>
              exact .bind (ih .assignment) fun value formed' =>
                assignTo_yields (accepted sign rfl).1 formed formed'
      | disjunction => exact logical_yields (.inr rfl) (ih .conjunction)
      | conjunction => exact logical_yields (.inl rfl) (ih .ternary)
      | ternary =>
          refine .bind (ih .equality) fun condition formed => ?_
          refine .bind (accept?_yields [.question]) fun o _ => ?_
          cases o with
          | none => exact .pure formed
          | some question =>
              refine .bind (ih .assignment) fun yes formedYes => .bind (expect_yields _ _) fun _ _ => ?_
              refine .bind (ih .ternary) fun no formedNo => .pure ?_
              simpa using ⟨formed, formedYes, formedNo⟩
      | equality => exact binary_yields (by decide) (ih .comparison)
      | comparison => exact binary_yields (by decide) (ih .sum)
      | sum => exact binary_yields (by decide) (ih .product)
      | product => exact binary_yields (by decide) (ih .unary)
      | unary =>
          refine .bind (accept?_yields [.bang, .minus]) fun o accepted => ?_
          cases o with
          | none => exact ih .call
          | some op =>
              refine .bind (ih .unary) fun operand formed => .pure ?_
              simpa using ⟨by simpa using accepted op rfl, formed⟩
      | call =>
          refine .bind (ih .primary) fun callee formed => ?_
          exact .bind remaining_yields fun fuel _ => calls_yields (ih .assignment) fuel formed
      | primary => exact primary_yields (ih .assignment)

/-! ### Statements -/

/-- A well-formed statement that may stand alone in a branch. -/
def Standing (K : Token → Prop) (s : Stmt) : Prop := s.WellFormed K ∧ s.isDeclaration = false

section Statements

variable {expr : Parse Expr} {body : Parse Stmt}

/-- An expression statement is no declaration, so it may be the arm of a branch or the body of a loop. -/
theorem expressionStatement_yields (yields : Yields K (Expr.WellFormed K) expr) :
    Yields K (Standing K) (expressionStatement expr) := by
  refine .bind yields fun e formed => .bind (expect_yields _ _) fun _ _ => .pure ⟨?_, rfl⟩
  simpa using formed

theorem varRest_yields (yields : Yields K (Expr.WellFormed K) expr) :
    Yields K (Stmt.WellFormed K) (varRest expr) := by
  refine .bind (expect_yields _ _) fun name named => ?_
  refine .bind (afterSign_yields _ yields) fun initial each => .bind (expect_yields _ _) fun _ _ => ?_
  exact .pure (Stmt.wellFormed_var.mpr ⟨named, each⟩)

/-- The first clause of a `for` loop, where there is one, may be a declaration; it stands in a block of
its own. -/
theorem forInitial_yields (yields : Yields K (Expr.WellFormed K) expr) :
    Yields K (fun o => ∀ s ∈ o, Stmt.WellFormed K s) (forInitial expr) := by
  refine .bind (accept?_yields _) fun o _ => ?_
  cases o with
  | none => exact (expressionStatement_yields yields).map fun s standing => by simpa using standing.1
  | some t =>
      dsimp only
      split
      · exact .pure (by simp)
      · exact (varRest_yields yields).map fun s formed => by simpa using formed

/-- The loop that stands for a `for` statement is well formed when its clauses and its body are. It is a loop or
a block, so it may be the body of another loop. -/
theorem forRest_yields (yields : Yields K (Expr.WellFormed K) expr) (repeated : Yields K (Standing K) body) :
    Yields K (Standing K) (forRest expr body) := by
  refine .bind (expect_yields _ _) fun _ _ => .bind (forInitial_yields yields) fun initial first => ?_
  refine .bind (unlessNext_yields _ yields) fun condition tested => .bind (expect_yields _ _) fun _ _ => ?_
  refine .bind (unlessNext_yields _ yields) fun increment stepped => .bind (expect_yields _ _) fun _ _ => ?_
  refine .bind repeated fun s standing => .pure ⟨?_, Stmt.forLoop_isDeclaration _ _ _ _⟩
  exact Stmt.wellFormed_forLoop first tested stepped standing.1 standing.2

/-- Both arms are statements that are no declarations, as the grammar demands of them. -/
theorem ifRest_yields (yields : Yields K (Expr.WellFormed K) expr) (branch : Yields K (Standing K) body) :
    Yields K (Standing K) (ifRest expr body) := by
  refine .bind (expect_yields _ _) fun _ _ => .bind yields fun condition formed => ?_
  refine .bind (expect_yields _ _) fun _ _ => .bind branch fun yes first => ?_
  refine .bind (afterSign_yields _ branch) fun no second => .pure ⟨?_, rfl⟩
  rw [Stmt.wellFormed_branch]
  exact ⟨⟨first.2, fun s present => (second s present).2⟩, formed, first.1,
    fun s present => (second s present).1⟩

theorem printRest_yields (yields : Yields K (Expr.WellFormed K) expr) :
    Yields K (Standing K) (printRest expr) := by
  refine .bind yields fun e formed => .bind (expect_yields _ _) fun _ _ => .pure ⟨?_, rfl⟩
  simpa using formed

/-- A `return` keeps its keyword, which is what a report about it would name. -/
theorem returnRest_yields (f : Bool) {keyword : Token} (known : K keyword)
    (kind : keyword.kind = .returnWord) (yields : Yields K (Expr.WellFormed K) expr) :
    Yields K (Standing K) (returnRest f keyword expr) := by
  refine .bind (reportIf_yields (report_yields known _)) fun _ _ => ?_
  refine .bind (unlessNext_yields _ yields) fun value each => .bind (expect_yields _ _) fun _ _ => ?_
  exact .pure ⟨Stmt.wellFormed_return.mpr ⟨⟨known, kind⟩, each⟩, rfl⟩

theorem whileRest_yields (yields : Yields K (Expr.WellFormed K) expr)
    (repeated : Yields K (Standing K) body) : Yields K (Standing K) (whileRest expr body) := by
  refine .bind (expect_yields _ _) fun _ _ => .bind yields fun condition formed => ?_
  refine .bind (expect_yields _ _) fun _ _ => .bind repeated fun s standing => .pure ⟨?_, rfl⟩
  exact Stmt.wellFormed_loop.mpr ⟨standing.2, formed, standing.1⟩

end Statements

section Declarations

variable {declaration : Parse (Option Stmt)}

/-- A row of declarations holds the well-formed ones only, malformed ones being left out. By induction over
the turns. -/
theorem declarationsUpTo_yields (stop : Option TokenKind)
    (yields : Yields K (fun o => ∀ s ∈ o, Stmt.WellFormed K s) declaration) (fuel : Nat) :
    Yields K (fun ss => ∀ s ∈ ss, Stmt.WellFormed K s) (declarationsUpTo stop declaration fuel) := by
  induction fuel with
  | zero => exact .pure (by simp)
  | succ fuel ih =>
      have turn : Yields K (fun ss => ∀ s ∈ ss, Stmt.WellFormed K s) (do
          let first ← declaration
          let more ← declarationsUpTo stop declaration fuel
          return first.toList ++ more) := by
        refine .bind yields fun first formed => .bind ih fun more each => .pure fun s listed => ?_
        rcases List.mem_append.mp listed with here | later
        · exact formed s (by simpa using here)
        · exact each s later
      intro line c known
      unfold declarationsUpTo
      split
      · exact ⟨by simp, known⟩
      · split
        · exact ⟨by simp, known⟩
        · exact turn line c known

theorem blockBody_yields (yields : Yields K (fun o => ∀ s ∈ o, Stmt.WellFormed K s) declaration) :
    Yields K (fun ss => ∀ s ∈ ss, Stmt.WellFormed K s) (blockBody declaration) := by
  refine .bind remaining_yields fun fuel _ => ?_
  refine .bind (declarationsUpTo_yields _ yields fuel) fun body each => ?_
  exact .bind (expect_yields _ _) fun _ _ => .pure each

/-- A function keeps its name, its parameters and the well-formed declarations of its body. -/
theorem functionRest_yields (yields : Yields K (fun o => ∀ s ∈ o, Stmt.WellFormed K s) declaration) :
    Yields K (Stmt.WellFormed K) (functionRest declaration) := by
  refine .bind (expect_yields _ _) fun name named => .bind (expect_yields _ _) fun _ _ => ?_
  refine .bind (items_yields _ _ (expect_yields _ _)) fun parameters each => ?_
  refine .bind (expect_yields _ _) fun _ _ => .bind (blockBody_yields yields) fun body formed => .pure ?_
  exact Stmt.wellFormed_function.mpr ⟨⟨named, each⟩, formed⟩

end Declarations

/-- Every declaration and every statement that is read is well formed, at any depth, inside functions and
outside. By induction over the depth, with a case for each keyword. -/
theorem declaration_statement_yields (depth : Nat) :
    (∀ f, Yields K (fun o => ∀ s ∈ o, Stmt.WellFormed K s) (declaration depth f)) ∧
      ∀ f, Yields K (Standing K) (statement depth f) := by
  induction depth with
  | zero => exact ⟨fun _ => tooDeep_yields, fun _ => tooDeep_yields⟩
  | succ depth ih =>
      obtain ⟨declared, stated⟩ := ih
      have expr := expression_yields (K := K) depth .assignment
      constructor
      · intro f
        refine recovering_yields (.bind (accept?_yields _) fun o _ => ?_)
        cases o with
        | none => exact (stated f).mono fun s standing => standing.1
        | some t =>
            dsimp only
            split
            · exact functionRest_yields (declared true)
            · exact varRest_yields expr
      · intro f
        refine .bind (accept?_yields _) fun o accepted => ?_
        cases o with
        | none => exact expressionStatement_yields expr
        | some t =>
            dsimp only
            split
            · exact forRest_yields expr (stated f)
            · exact ifRest_yields expr (stated f)
            · exact printRest_yields expr
            next kind => exact returnRest_yields f (accepted t rfl).1 kind expr
            · exact whileRest_yields expr (stated f)
            · exact (blockBody_yields (declared f)).map fun body each =>
                ⟨Stmt.wellFormed_block.mpr each, rfl⟩

end Parse

/-- **What is read is well formed.** Every statement that is read from tokens among `K` is well formed, and
every report is about one of the tokens or about the end of the input. -/
theorem Program.ofTokens_wellFormed {K : Token → Prop} {tokens : List Token} {depth : Nat} {p : Program}
    (read : ofTokens depth tokens = some p) (known : ∀ t ∈ tokens, K t) :
    (∀ s ∈ p.statements, s.WellFormed K) ∧
      ∀ d ∈ p.faults, (∃ t message, K t ∧ d = .atToken t message) ∨
        ∃ message, d = .atEnd (cursor tokens).endLine message := by
  have start : (cursor tokens).Known K (cursor tokens).endLine := by
    refine ⟨fun t listed => known t ((List.takeWhile_prefix _).mem listed), rfl, ?_⟩
    simp [cursor]
  have yields := Parse.declarationsUpTo_yields none ((Parse.declaration_statement_yields depth).1 false)
    (cursor tokens).rest.length _ (cursor tokens) start
  unfold ofTokens at read
  cases result : Parse.declarationsUpTo none (Parse.declaration depth false) (cursor tokens).rest.length
      (cursor tokens) with
  | error e c => simp [result] at read
  | ok statements c =>
      rw [result] at yields
      simp only [result, Option.some.injEq] at read
      subst read
      exact ⟨yields.1, fun d listed => yields.2.reported d (by simpa using listed)⟩

end Treewalk

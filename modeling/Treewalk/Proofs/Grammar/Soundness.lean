import Treewalk.Proofs.Grammar
import Treewalk.Proofs.Reading

/-!
Soundness of reading: what is read without a report is derived by the grammar, each `else` going to the
nearest `if`. One statement for each reader, and for `expression`, `statement` and `declaration` an
induction on the depth.
-/

namespace Treewalk

theorem Level.join_ne_variable (l : Level) (left right : Expr) (op name : Token) :
    l.join left op right ≠ .variable name := by
  cases l <;> simp [Level.join]

namespace Grammar

/-- An expression that denotes a bare name is that name's token alone, and operands or calls that end in
a bare name took no token. -/
def Phrase.Bare : (s : Phrase) → List Token → s.Tree → Prop
  | .level _, ts, e => ∀ name, e = .variable name → ts = [name] ∧ name.kind = .identifier
  | .operators _ left, ts, e => ∀ name, e = .variable name → ts = [] ∧ left = .variable name
  | .calls callee, ts, e => ∀ name, e = .variable name → ts = [] ∧ callee = .variable name
  | .arguments, _, _ => True

/-- A derivation of a bare name has that name as its only token. So an assignment is told from its tree. -/
theorem Derives.bare {s : Phrase} {ts : List Token} {tree : s.Tree} (derived : Derives s ts tree) :
    s.Bare ts tree := by
  induction derived with
  | assign | ternary | unary | falseWord | trueWord | nilWord | constant | grouping =>
      intro name same
      cases same
  | disjunction _ ih | equality _ ih | call _ ih => exact ih
  | chain _ _ _ ihFirst ihRest | callee _ _ ihFirst ihRest =>
      intro name same
      obtain ⟨rfl, bare⟩ := ihRest name same
      rw [List.append_nil]
      exact ihFirst name bare
  | operand | uncalled => exact fun name same => ⟨rfl, same⟩
  | @operator l op ts us left right e _ _ _ _ ih =>
      intro name same
      exact absurd (ih name same).2 (l.join_ne_variable left right op name)
  | emptyCall _ _ _ ih | fullCall _ _ _ _ _ _ ih =>
      intro name same
      cases (ih name same).2
  | argument | moreArguments => trivial
  | name kind =>
      intro name same
      cases same
      exact ⟨rfl, kind⟩

/-- Expressions with commas between them are arguments. One loop reads arguments and parameters, and this gives
its items the form of the grammar's rule for arguments. -/
theorem Separated.arguments {ts : List Token} {es : List Expr} (separated : Separated Expression ts es) :
    Derives .arguments ts es := by
  induction separated with
  | one derived => exact .argument derived
  | more derived comma _ ih => exact .moreArguments derived comma ih

end Grammar

namespace Parse

open Grammar

variable {α : Type}

/-! ### Lists in parentheses -/

/-- A silent reading of items found them separated by commas, and not too many of them. By induction over the
turns, with the count of those read before. -/
theorem itemsFrom_sound {Item : List Token → α → Prop} {item : Parse α} (excess : SyntaxFault)
    (sound : Sound (fun ts a _ => Item ts a) item) (fuel count : Nat) :
    Sound (fun ts as rest => ts.length + rest.length < fuel →
      Separated Item ts as ∧ count + as.length ≤ mostArguments) (itemsFrom excess item fuel count) := by
  induction fuel generalizing count with
  | zero => exact .pure fun rest short => absurd short (Nat.not_lt_zero _)
  | succ fuel ih =>
      refine .bind (reportIf_sound (reportHere_sound excess)) fun us _ => ?_
      refine .bind sound fun ts a => ?_
      refine .bind (accept?_sound [.comma]) fun vs o => ?_
      cases o with
      | none =>
          refine .pure ?_
          rintro rest ⟨rfl, -⟩ item ⟨rfl, few⟩ -
          have few : count < mostArguments := by simpa using few
          exact ⟨by simpa using Separated.one item, few⟩
      | some comma =>
          refine .bind (ih (count + 1)) fun ws as => .pure ?_
          rintro rest more ⟨rfl, listed⟩ item ⟨rfl, -⟩ short
          obtain ⟨separated, few⟩ := more (by simp at short ⊢; omega)
          refine ⟨?_, by simp; omega⟩
          simpa using Separated.more item (List.mem_singleton.mp listed) separated

/-- The readings of a list in parentheses whose opening one was read. -/
def Enclosed (Item : List Token → α → Prop) : Readings (List α) := fun ts as _ =>
  ∃ us close, ts = us ++ [close] ∧ close.kind = .rightParen ∧ as.length ≤ mostArguments ∧
    (us = [] ∧ as = [] ∨ Separated Item us as)

/-- A silent reading of a list found separated items, or none, and the closing parenthesis. -/
theorem items_sound {Item : List Token → α → Prop} {item : Parse α} (excess unclosed : SyntaxFault)
    (sound : Sound (fun ts a _ => Item ts a) item) :
    Sound (Enclosed Item) (items excess unclosed item) := by
  refine .bind remaining_sound fun us fuel => ?_
  refine .bind (unlessNext_sound _ (itemsFrom_sound excess sound (fuel + 1) 0)) fun ts found => ?_
  refine .bind (expect_sound _ _) fun vs close => .pure ?_
  cases found with
  | none =>
      rintro rest ⟨rfl, kind⟩ none ⟨rfl, -⟩
      cases none
      exact ⟨[], close, rfl, kind, Nat.zero_le _, .inl ⟨rfl, rfl⟩⟩
  | some as =>
      rintro rest ⟨rfl, kind⟩ some ⟨rfl, rfl⟩
      obtain ⟨separated, few⟩ := some (by simp)
      exact ⟨ts, close, by simp, kind, by simpa using few, .inr separated⟩

/-! ### Expressions -/

/-- What is read behind a first operand is a row of operators and tighter operands, grouped to the left. By
induction over the turns. -/
theorem chain_sound {l : Level} {operand : Parse Expr}
    (sound : Sound (fun ts e _ => Derives (.level l.tighter) ts e) operand) (fuel : Nat)
    (left : Expr) :
    Sound (fun ts e _ => Derives (.operators l left) ts e)
      (chain l.operators l.join operand fuel left) := by
  induction fuel generalizing left with
  | zero => exact .pure fun _ => .operand
  | succ fuel ih =>
      refine .bind (accept?_sound l.operators) fun us o => ?_
      cases o with
      | none =>
          refine .pure ?_
          rintro rest ⟨rfl, -⟩
          exact .operand
      | some op =>
          refine .bind sound fun ts right => (ih (l.join left op right)).mono ?_
          rintro vs e rest more derived ⟨rfl, listed⟩
          simpa using Derives.operator listed derived more

/-- A level of operators reads what the grammar derives on that level: a first operand, and the row of operators
and operands behind it. -/
theorem leftAssoc_sound {l : Level} {operand : Parse Expr} (operators : l.operators ≠ [])
    (sound : Sound (fun ts e _ => Derives (.level l.tighter) ts e) operand) :
    Sound (fun ts e _ => Derives (.level l) ts e) (leftAssoc l.operators l.join operand) := by
  refine .bind sound fun ts first => ?_
  refine .bind remaining_sound fun us fuel => (chain_sound sound fuel first).mono ?_
  rintro vs e rest more ⟨rfl, -⟩ derived
  exact .chain operators derived more

/-- What is read behind a callee is a row of calls, each of which takes the ones before it as its callee. By
induction over the turns. -/
theorem calls_sound {argument : Parse Expr} (sound : Sound (fun ts e _ => Expression ts e) argument)
    (fuel : Nat) (callee : Expr) :
    Sound (fun ts e _ => Derives (.calls callee) ts e) (calls argument fuel callee) := by
  induction fuel generalizing callee with
  | zero => exact .pure fun _ => .uncalled
  | succ fuel ih =>
      refine .bind (accept?_sound [.leftParen]) fun us o => ?_
      cases o with
      | none =>
          refine .pure ?_
          rintro rest ⟨rfl, -⟩
          exact .uncalled
      | some paren =>
          refine .bind (items_sound _ _ sound) fun ts args => (ih (.call callee paren args)).mono ?_
          rintro vs e rest more ⟨us', close, rfl, closed, few, listed⟩ ⟨rfl, opened⟩
          have kind := List.mem_singleton.mp opened
          rcases listed with ⟨rfl, rfl⟩ | separated
          · exact .emptyCall kind closed more
          · simpa using Derives.fullCall kind separated.arguments few closed more

/-- A token that is a primary expression by itself was accepted, and nothing was read behind it. -/
theorem token_sound {kinds : List TokenKind} {us : List Token} {t : Token} {e : Expr}
    (derived : Derives (.level .primary) [t] e) :
    Sound (fun ts d rest => Accepted kinds us (some t) (ts ++ rest) →
      Derives (.level .primary) (us ++ ts) d) (pure e) := by
  refine .pure ?_
  rintro rest ⟨rfl, -⟩
  exact derived

/-- What is read after a keyword that was accepted is read soundly with the keyword in front. The rules for
statements are stated for any token of the right kind, and this is where the accepted one is given to them. -/
theorem Sound.keyword {S : Readings α} {p : Parse α} {kinds : List TokenKind} {us : List Token}
    {t : Token} {kind : TokenKind}
    (sound : Sound (fun ts a rest => ∀ keyword : Token, keyword.kind = kind → S (keyword :: ts) a rest) p)
    (same : t.kind = kind) :
    Sound (fun ts a rest => Accepted kinds us (some t) (ts ++ rest) → S (us ++ ts) a rest) p := by
  refine sound.mono ?_
  rintro ts a rest read ⟨rfl, -⟩
  exact read t same

/-- Literals, names and groupings are primary expressions of the grammar. Any other token is reported, so it is
never read in silence. -/
theorem primary_sound {inner : Parse Expr} (sound : Sound (fun ts e _ => Expression ts e) inner) :
    Sound (fun ts e _ => Derives (.level .primary) ts e) (primary inner) := by
  refine .bind (accept?_sound _) fun us o => ?_
  cases o with
  | none => exact fail_sound _
  | some t =>
      dsimp only
      split
      next kind => exact token_sound (.falseWord kind)
      next kind => exact token_sound (.trueWord kind)
      next kind => exact token_sound (.nilWord kind)
      next kind => exact token_sound (.name kind)
      next kind =>
        refine .bind sound fun ts e => .bind (expect_sound _ _) fun vs close => .pure ?_
        rintro rest ⟨rfl, closed⟩ derived ⟨rfl, -⟩
        exact .grouping kind derived closed
      next notFalse notTrue notNil notName notParen =>
        refine .pure ?_
        rintro rest ⟨rfl, listed⟩
        refine .constant ?_
        simp only [List.mem_cons, List.not_mem_nil, or_false] at listed
        grind

/-- Only a bare name gives an assignment without a report. So a silent reading of an assignment knows its
target, and `Derives.bare` gives the tokens of it. -/
theorem assignTo_sound (target value : Expr) (sign : Token) :
    Sound (fun ts e _ => ts = [] ∧ ∃ name, target = .variable name ∧ e = .assign name value)
      (assignTo target sign value) := by
  unfold assignTo
  split
  next name => exact .pure fun _ => ⟨rfl, name, rfl, rfl⟩
  · exact .bind (report_sound _ _) fun us _ => .pure fun _ impossible => impossible.elim

/-- **What is read in silence is derived.** An expression that is read without a report is one that the grammar
derives from its tokens, on every level and at any depth. -/
theorem expression_sound (depth : Nat) (l : Level) :
    Sound (fun ts e _ => Derives (.level l) ts e) (expression depth l) := by
  induction depth generalizing l with
  | zero => exact tooDeep_sound
  | succ depth ih =>
      cases l with
      | assignment =>
          refine .bind (ih .disjunction) fun ts target => ?_
          refine .bind (accept?_sound [.equal]) fun us o => ?_
          cases o with
          | none =>
              refine .pure ?_
              rintro rest ⟨rfl, -⟩ derived
              simpa using Derives.disjunction derived
          | some sign =>
              refine .bind (ih .assignment) fun vs value => (assignTo_sound target value sign).mono ?_
              rintro ws e rest ⟨rfl, name, rfl, rfl⟩ assigned ⟨rfl, signed⟩ derived
              obtain ⟨rfl, named⟩ := derived.bare name rfl
              simpa using Derives.assign named (List.mem_singleton.mp signed) assigned
      | disjunction => exact leftAssoc_sound (l := .disjunction) (by decide) (ih .conjunction)
      | conjunction => exact leftAssoc_sound (l := .conjunction) (by decide) (ih .ternary)
      | ternary =>
          refine .bind (ih .equality) fun cs condition => ?_
          refine .bind (accept?_sound [.question]) fun us o => ?_
          cases o with
          | none =>
              refine .pure ?_
              rintro rest ⟨rfl, -⟩ derived
              simpa using Derives.equality derived
          | some question =>
              refine .bind (ih .assignment) fun ys yes => ?_
              refine .bind (expect_sound _ _) fun vs colon => ?_
              refine .bind (ih .ternary) fun ns no => .pure ?_
              rintro rest no' ⟨rfl, divided⟩ yes' ⟨rfl, asked⟩ condition'
              simpa using Derives.ternary condition' (List.mem_singleton.mp asked) yes' divided no'
      | equality => exact leftAssoc_sound (l := .equality) (by decide) (ih .comparison)
      | comparison => exact leftAssoc_sound (l := .comparison) (by decide) (ih .sum)
      | sum => exact leftAssoc_sound (l := .sum) (by decide) (ih .product)
      | product => exact leftAssoc_sound (l := .product) (by decide) (ih .unary)
      | unary =>
          refine .bind (accept?_sound [.bang, .minus]) fun us o => ?_
          cases o with
          | none =>
              refine (ih .call).mono ?_
              rintro ts e rest derived ⟨rfl, -⟩
              exact .call derived
          | some op =>
              refine .bind (ih .unary) fun ts e => .pure ?_
              rintro rest derived ⟨rfl, listed⟩
              simpa using Derives.unary (by simpa using listed) derived
      | call =>
          refine .bind (ih .primary) fun ts callee => ?_
          refine .bind remaining_sound fun us fuel => (calls_sound (ih .assignment) fuel callee).mono ?_
          rintro vs e rest more ⟨rfl, -⟩ derived
          exact .callee derived more
      | primary => exact primary_sound (ih .assignment)

/-! ### Statements -/

/-- The readings of a statement. After a dangling one no `else` is left to be read. -/
def StatementRead (inFunction : Bool) : Readings Stmt := fun ts s rest =>
  ∃ dangling, Builds .nearest (.statement inFunction dangling) ts s ∧
    (dangling = true → ∀ t ∈ rest.head?, t.kind ≠ .elseWord)

/-- A statement that does not end in an `if` without `else` may stand in front of anything, an
`else` included. -/
theorem StatementRead.closed {f : Bool} {ts rest : List Token} {s : Stmt}
    (built : Builds .nearest (.statement f false) ts s) : StatementRead f ts s rest :=
  ⟨false, built, fun dangling => nomatch dangling⟩

section Statements

variable {f : Bool} {expr : Parse Expr} {body : Parse Stmt}

/-- An optional expression that is read in silence is absent or derived. -/
theorem optional_sound (stop : TokenKind) (sound : Sound (fun ts e _ => Expression ts e) expr) :
    Sound (fun ts o _ => OptionalExpression ts o) (unlessNext stop expr) := by
  refine (unlessNext_sound stop sound).mono ?_
  intro ts o rest read
  cases o with
  | none =>
      cases read
      exact .absent
  | some e => exact .present read

theorem expressionStatement_sound (sound : Sound (fun ts e _ => Expression ts e) expr) :
    Sound (fun ts s _ => ExpressionStatement ts s) (expressionStatement expr) := by
  refine .bind sound fun ts e => .bind (expect_sound _ _) fun us semicolon => .pure ?_
  rintro rest ⟨rfl, kind⟩ derived
  simpa using ExpressionStatement.mk derived kind

theorem varRest_sound (sound : Sound (fun ts e _ => Expression ts e) expr) :
    Sound (fun ts s _ => ∀ keyword : Token, keyword.kind = .varWord →
      VarDeclaration (keyword :: ts) s) (varRest expr) := by
  refine .bind (expect_sound _ _) fun us name => ?_
  refine .bind (afterSign_sound .equal sound) fun ts initial => ?_
  refine .bind (expect_sound _ _) fun vs semicolon => .pure ?_
  cases initial with
  | none =>
      rintro rest ⟨rfl, ended⟩ ⟨rfl, -⟩ ⟨rfl, named⟩ keyword kind
      exact .bare kind named ended
  | some e =>
      rintro rest ⟨rfl, ended⟩ ⟨sign, ws, rfl, signed, derived⟩ ⟨rfl, named⟩ keyword kind
      simpa using VarDeclaration.initialised kind named signed derived ended

/-- The first clause of a `for` loop is read as one of its three forms. The semicolon belongs to the clause in
each of them. -/
theorem forInitial_sound (sound : Sound (fun ts e _ => Expression ts e) expr) :
    Sound (fun ts o _ => ForInitial ts o) (forInitial expr) := by
  refine .bind (accept?_sound _) fun us o => ?_
  cases o with
  | none =>
      refine (expressionStatement_sound sound).map ?_
      rintro ts s rest built ⟨rfl, -⟩
      exact .expression built
  | some t =>
      dsimp only
      split
      next kind =>
        refine .pure ?_
        rintro rest ⟨rfl, -⟩
        exact .absent kind
      next other =>
        refine (varRest_sound sound).map ?_
        rintro ts s rest built ⟨rfl, listed⟩
        refine .declaration (built t ?_)
        simpa [other] using listed

/-- A `for` loop is read as its clauses and a body. Whether an `else` may follow depends on the body alone. -/
theorem forRest_sound (sound : Sound (fun ts e _ => Expression ts e) expr)
    (soundBody : Sound (StatementRead f) body) :
    Sound (fun ts s rest => ∀ keyword : Token, keyword.kind = .forWord →
      StatementRead f (keyword :: ts) s rest) (forRest expr body) := by
  refine .bind (expect_sound _ _) fun us paren => ?_
  refine .bind (forInitial_sound sound) fun is initial => ?_
  refine .bind (optional_sound _ sound) fun cs condition => ?_
  refine .bind (expect_sound _ _) fun vs semicolon => ?_
  refine .bind (optional_sound _ sound) fun ns increment => ?_
  refine .bind (expect_sound _ _) fun ws close => ?_
  refine .bind soundBody fun ts inner => .pure ?_
  rintro rest ⟨d, built, unread⟩ ⟨rfl, closed⟩ stepped ⟨rfl, ended⟩ tested begun ⟨rfl, opened⟩ keyword
    kind
  refine ⟨d, ?_, by simpa using unread⟩
  simpa using Builds.for kind opened begun tested ended stepped closed built (whileForm_iff.mpr rfl)

/-- An `if` takes an `else` that follows it, so one without `else` stands in front of none. This makes the
nearest `if` the owner. -/
theorem ifRest_sound (sound : Sound (fun ts e _ => Expression ts e) expr)
    (soundBody : Sound (StatementRead f) body) :
    Sound (fun ts s rest => ∀ keyword : Token, keyword.kind = .ifWord →
      StatementRead f (keyword :: ts) s rest) (ifRest expr body) := by
  refine .bind (expect_sound _ _) fun us paren => ?_
  refine .bind sound fun cs condition => ?_
  refine .bind (expect_sound _ _) fun vs close => ?_
  refine .bind soundBody fun ts yes => ?_
  refine .bind (afterSign_sound .elseWord soundBody) fun ws no => .pure ?_
  cases no with
  | none =>
      rintro rest ⟨rfl, unread⟩ ⟨d, built, -⟩ ⟨rfl, closed⟩ derived ⟨rfl, opened⟩ keyword kind
      refine ⟨true, ?_, fun _ => unread⟩
      simpa using Builds.if kind opened derived closed built
  | some other =>
      rintro rest ⟨sign, ns, rfl, signed, d', builtNo, unread⟩ ⟨d, builtYes, taken⟩ ⟨rfl, closed⟩
        derived ⟨rfl, opened⟩ keyword kind
      -- a dangling first branch would have taken the `else` itself
      have settled : d = false := by
        cases d with
        | false => rfl
        | true => exact absurd signed (taken rfl sign (by simp))
      refine ⟨d', ?_, by simpa using unread⟩
      simpa using
        Builds.ifElse kind opened derived closed builtYes (fun _ => settled) signed builtNo

theorem printRest_sound (sound : Sound (fun ts e _ => Expression ts e) expr) :
    Sound (fun ts s rest => ∀ keyword : Token, keyword.kind = .printWord →
      StatementRead f (keyword :: ts) s rest) (printRest expr) := by
  refine .bind sound fun ts e => .bind (expect_sound _ _) fun us semicolon => .pure ?_
  rintro rest ⟨rfl, ended⟩ derived keyword kind
  refine .closed ?_
  simpa using Builds.print kind derived ended

/-- A `return` is read in silence only inside a function body. Outside of one its keyword is reported, so there
the premise of a silent reading fails. -/
theorem returnRest_sound (sound : Sound (fun ts e _ => Expression ts e) expr) (keyword : Token) :
    Sound (fun ts s rest => keyword.kind = .returnWord → StatementRead f (keyword :: ts) s rest)
      (returnRest f keyword expr) := by
  refine .bind (reportIf_sound (report_sound _ _)) fun us _ => ?_
  refine .bind (optional_sound _ sound) fun ts value => ?_
  refine .bind (expect_sound _ _) fun vs semicolon => .pure ?_
  rintro rest ⟨rfl, ended⟩ derived ⟨rfl, inside⟩ kind
  obtain rfl : f = true := by simpa using inside
  refine .closed ?_
  simpa using Builds.return kind derived ended

/-- A `while` loop is read as its condition and a body, which decides whether an `else` may follow. -/
theorem whileRest_sound (sound : Sound (fun ts e _ => Expression ts e) expr)
    (soundBody : Sound (StatementRead f) body) :
    Sound (fun ts s rest => ∀ keyword : Token, keyword.kind = .whileWord →
      StatementRead f (keyword :: ts) s rest) (whileRest expr body) := by
  refine .bind (expect_sound _ _) fun us paren => ?_
  refine .bind sound fun cs condition => ?_
  refine .bind (expect_sound _ _) fun vs close => ?_
  refine .bind soundBody fun ts inner => .pure ?_
  rintro rest ⟨d, built, unread⟩ ⟨rfl, closed⟩ derived ⟨rfl, opened⟩ keyword kind
  refine ⟨d, ?_, by simpa using unread⟩
  simpa using Builds.while kind opened derived closed built

end Statements

/-- The readings of a declaration that was not skipped. -/
def DeclarationRead (inFunction : Bool) : Readings (Option Stmt) := fun ts o _ =>
  ∃ s, o = some s ∧ Builds .nearest (.declaration inFunction) ts s

/-- With a turn for every token, the loop goes on up to its stop or the end of the tokens, and what it reads
is a row of declarations. The turns are bounded by the tokens, since a declaration that is read in silence
takes one. -/
theorem declarationsUpTo_sound {f : Bool} {declaration : Parse (Option Stmt)}
    (stop : Option TokenKind) (sound : Sound (DeclarationRead f) declaration) (fuel : Nat) :
    Sound (fun ts ss rest => Builds .nearest (.declarations f) ts ss ∧
      (ts.length + rest.length ≤ fuel → ∀ t ∈ rest.head?, stop = some t.kind))
      (declarationsUpTo stop declaration fuel) := by
  induction fuel with
  | zero =>
      refine .pure fun rest => ⟨.none, fun short t next => ?_⟩
      cases rest with
      | nil => cases next
      | cons t rest => simp at short
  | succ fuel ih =>
      have turn : Sound (fun ts ss rest => Builds .nearest (.declarations f) ts ss ∧
          (ts.length + rest.length ≤ fuel + 1 → ∀ t ∈ rest.head?, stop = some t.kind))
          (do
            let first ← declaration
            let more ← declarationsUpTo stop declaration fuel
            return first.toList ++ more) := by
        refine .bind sound fun ts o => .bind ih fun us ss => .pure ?_
        rintro rest ⟨builtMore, ended⟩ ⟨s, rfl, built⟩
        -- a declaration takes a token, so one turn less suffices for the others
        obtain ⟨t, vs, rfl, -⟩ := built.declaration_opens
        refine ⟨by simpa using Builds.more built builtMore, fun short => ended ?_⟩
        simp at short ⊢
        omega
      intro c
      unfold declarationsUpTo
      cases found : c.rest with
      | nil => exact ⟨.refl c, fun _ => ⟨[], by simp, .none, by simp [found]⟩⟩
      | cons t rest =>
          dsimp only
          by_cases stopped : stop = some t.kind
          · rw [if_pos stopped]
            exact ⟨.refl c, fun _ => ⟨[], by simp, .none, by simpa [found] using fun _ => stopped⟩⟩
          · rw [if_neg stopped]
            exact turn c

/-- A silent reading of a block found declarations and the closing brace. -/
theorem blockBody_sound {f : Bool} {declaration : Parse (Option Stmt)}
    (sound : Sound (DeclarationRead f) declaration) :
    Sound (fun ts ss _ => ∃ us close, ts = us ++ [close] ∧ close.kind = .rightBrace ∧
      Builds .nearest (.declarations f) us ss) (blockBody declaration) := by
  refine .bind remaining_sound fun us fuel => ?_
  refine .bind (declarationsUpTo_sound _ sound fuel) fun ts ss => ?_
  refine .bind (expect_sound _ _) fun vs close => .pure ?_
  rintro rest ⟨rfl, closed⟩ ⟨built, -⟩ ⟨rfl, -⟩
  exact ⟨ts, close, by simp, closed, built⟩

/-- A silent reading of a function found its name, parameters that are not too many, and a body
of declarations. -/
theorem functionRest_sound (f : Bool) {declaration : Parse (Option Stmt)}
    (sound : Sound (DeclarationRead true) declaration) :
    Sound (fun ts s _ => ∀ keyword : Token, keyword.kind = .funWord →
      Builds .nearest (.declaration f) (keyword :: ts) s) (functionRest declaration) := by
  refine .bind (expect_sound _ _) fun us name => ?_
  refine .bind (expect_sound _ _) fun vs paren => ?_
  refine .bind (items_sound _ _ (expect_sound _ _)) fun ps parameters => ?_
  refine .bind (expect_sound _ _) fun ws brace => ?_
  refine .bind (blockBody_sound sound) fun ts body => .pure ?_
  rintro rest ⟨bs, closing, rfl, ended, built⟩ ⟨rfl, braced⟩ ⟨qs, close, rfl, closed, few, listed⟩
    ⟨rfl, opened⟩ ⟨rfl, named⟩ keyword kind
  have declared : Parameters qs parameters := by
    rcases listed with ⟨rfl, rfl⟩ | separated
    · exact .absent
    · exact .present separated
  simpa using Builds.function kind named opened declared few closed braced built ended

/-- **What is read in silence is built by the grammar.** Declarations and statements that are read without a
report are among those that the grammar builds from their tokens. By induction over the depth. -/
theorem declaration_statement_sound (depth : Nat) :
    (∀ f, Sound (DeclarationRead f) (declaration depth f)) ∧
      ∀ f, Sound (StatementRead f) (statement depth f) := by
  induction depth with
  | zero => exact ⟨fun f => tooDeep_sound, fun f => tooDeep_sound⟩
  | succ depth ih =>
      obtain ⟨soundDeclaration, soundStatement⟩ := ih
      have sound := expression_sound depth .assignment
      constructor
      · intro f
        refine recovering_sound (.bind (accept?_sound _) fun us o => ?_)
        cases o with
        | none =>
            refine (soundStatement f).mono ?_
            rintro ts s rest ⟨d, built, -⟩ ⟨rfl, -⟩
            exact .statement built
        | some t =>
            dsimp only
            split
            next kind =>
              exact Sound.keyword (S := fun ts s _ => Builds .nearest (.declaration f) ts s)
                (functionRest_sound f (soundDeclaration true)) kind
            next other =>
              refine (varRest_sound sound).mono ?_
              rintro ts s rest built ⟨rfl, listed⟩
              exact .var (built t (by simpa [other] using listed))
      · intro f
        refine .bind (accept?_sound _) fun us o => ?_
        cases o with
        | none =>
            refine (expressionStatement_sound sound).mono ?_
            rintro ts s rest built ⟨rfl, -⟩
            exact .closed (.expression built)
        | some t =>
            dsimp only
            split
            next kind => exact (forRest_sound sound (soundStatement f)).keyword kind
            next kind => exact (ifRest_sound sound (soundStatement f)).keyword kind
            next kind => exact (printRest_sound (f := f) sound).keyword kind
            next kind =>
              refine (returnRest_sound sound t).mono ?_
              rintro ts s rest read ⟨rfl, -⟩
              exact read kind
            next kind => exact (whileRest_sound sound (soundStatement f)).keyword kind
            next notFor notIf notPrint notReturn notWhile =>
              refine (blockBody_sound (soundDeclaration f)).map ?_
              rintro ts ss rest ⟨vs, close, rfl, closed, built⟩ ⟨rfl, listed⟩
              have kind : t.kind = .leftBrace := by
                simp only [List.mem_cons, List.not_mem_nil, or_false] at listed
                grind
              refine .closed ?_
              simpa using Builds.block kind built closed

end Parse

end Treewalk

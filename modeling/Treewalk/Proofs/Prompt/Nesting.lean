import Treewalk.Proofs.Grammar.Acceptance
import Treewalk.Proofs.Prompt
import Treewalk.Proofs.Prompt.Continuation

/-!
Parentheses and braces. In the tokens that the grammar derives, every one that is opened is closed again,
by one of its own kind and in the reverse order. The prompt only counts them; so what was read without a
fault never makes it wait for another line.
-/

namespace Treewalk

namespace TokenKind

/-- What closes a parenthesis or a brace. -/
def closing? : TokenKind → Option TokenKind
  | .leftParen => some .rightParen
  | .leftBrace => some .rightBrace
  | _ => none

/-- A parenthesis or a brace. -/
def isBracket : TokenKind → Bool
  | .leftParen | .rightParen | .leftBrace | .rightBrace => true
  | _ => false

theorem isBracket_of_closing? {opener closer : TokenKind} (closes : opener.closing? = some closer) :
    opener.isBracket = true ∧ closer.isBracket = true := by
  cases opener <;> cases closes <;> exact ⟨rfl, rfl⟩

end TokenKind

namespace Grammar

/-- A properly nested word: each opener is matched by a closer of its own kind after it, and what stands
between the two is nested by itself. -/
inductive Nested : List TokenKind → Prop where
  | nil : Nested []
  | pair {opener closer inner after} : opener.closing? = some closer → Nested inner → Nested after →
      Nested (opener :: (inner ++ closer :: after))

/-- Two nested words in a row are a nested word. -/
theorem Nested.append {word more : List TokenKind} (first : Nested word) (second : Nested more) :
    Nested (word ++ more) := by
  induction first with
  | nil => exact second
  | pair closes inner _ _ ih => simpa using Nested.pair closes inner ih

/-- In a nested word there are as many closers of a kind as openers. The converse fails, and the prompt only
counts: what it waits for is less than proper nesting. -/
theorem Nested.count_eq {word : List TokenKind} (nested : Nested word) {opener closer : TokenKind}
    (closes : opener.closing? = some closer) : word.count opener = word.count closer := by
  induction nested with
  | nil => rfl
  | @pair opener' closer' inner after closes' _ _ ihInner ihAfter =>
      have pairs : [opener'].count opener + [closer'].count opener =
          [opener'].count closer + [closer'].count closer := by
        cases opener <;> cases closes <;> cases opener' <;> cases closes' <;> rfl
      simp only [List.count_cons, List.count_append, List.count_nil] at pairs ⊢
      omega

/-- The parentheses and braces among tokens. -/
def brackets (ts : List Token) : List TokenKind := (ts.map Token.kind).filter TokenKind.isBracket

theorem brackets_append (ts us : List Token) : brackets (ts ++ us) = brackets ts ++ brackets us := by
  simp [brackets]

/-- Leaving out other tokens keeps the number of brackets of each kind, so counting can be done on
either list. -/
theorem count_brackets {kind : TokenKind} (bracket : kind.isBracket = true) (ts : List Token) :
    (brackets ts).count kind = (ts.map Token.kind).count kind :=
  List.count_filter bracket

/-- Tokens whose parentheses and braces are properly nested. -/
def Balanced (ts : List Token) : Prop := Nested (brackets ts)

section

variable {ts us : List Token} {t : Token} {kind : TokenKind}

theorem balanced_nil : Balanced [] := .nil

theorem Balanced.append (first : Balanced ts) (second : Balanced us) : Balanced (ts ++ us) := by
  rw [Balanced, brackets_append]
  exact Nested.append first second

theorem Balanced.cons (balanced : Balanced ts) (is : t.kind = kind) (plain : kind.isBracket = false) :
    Balanced (t :: ts) := by
  simpa [Balanced, brackets, is, plain] using balanced

theorem Balanced.concat (balanced : Balanced ts) (is : t.kind = kind) (plain : kind.isBracket = false) :
    Balanced (ts ++ [t]) :=
  balanced.append (balanced_nil.cons is plain)

/-- Balanced tokens between a bracket and the one that closes it, and balanced tokens behind. All rules of the
grammar with brackets in them are of this form. -/
theorem Balanced.enclose {opener closer : Token} (closes : opener.kind.closing? = some closer.kind)
    (inner : Balanced ts) (after : Balanced us) : Balanced (opener :: (ts ++ closer :: us)) := by
  obtain ⟨opens, shuts⟩ := TokenKind.isBracket_of_closing? closes
  have word : brackets (opener :: (ts ++ closer :: us)) =
      opener.kind :: (brackets ts ++ closer.kind :: brackets us) := by
    simp [brackets, opens, shuts]
  rw [Balanced, word]
  exact .pair closes inner after

theorem Balanced.parens {paren close : Token} (opens : paren.kind = .leftParen)
    (closes : close.kind = .rightParen) (inner : Balanced ts) (after : Balanced us) :
    Balanced (paren :: (ts ++ close :: us)) :=
  Balanced.enclose (by rw [opens, closes]; rfl) inner after

theorem Balanced.braces {brace close : Token} (opens : brace.kind = .leftBrace)
    (closes : close.kind = .rightBrace) (inner : Balanced ts) : Balanced (brace :: (ts ++ [close])) :=
  Balanced.enclose (by rw [opens, closes]; rfl) inner balanced_nil

end

theorem isBracket_of_mem_operators {l : Level} {kind : TokenKind} (listed : kind ∈ l.operators) :
    kind.isBracket = false := by
  revert listed
  cases l <;> cases kind <;> decide

/-- The tokens of a phrase are balanced: only groupings and calls have parentheses, and they have both. By
induction over the derivation. -/
theorem Derives.balanced {s : Phrase} {ts : List Token} {tree : s.Tree} (derived : Derives s ts tree) :
    Balanced ts := by
  induction derived with
  | assign name sign _ ih => exact (ih.cons sign rfl).cons name rfl
  | disjunction _ ih | equality _ ih | call _ ih | argument _ ih => exact ih
  | chain _ _ _ first rest | callee _ _ first rest => exact first.append rest
  | operand | uncalled => exact balanced_nil
  | operator listed _ _ right rest => exact (right.append rest).cons rfl (isBracket_of_mem_operators listed)
  | ternary _ question _ colon _ condition yes no =>
      exact condition.append ((yes.append (no.cons colon rfl)).cons question rfl)
  | unary kind _ ih => rcases kind with kind | kind <;> exact ih.cons kind rfl
  | emptyCall paren close _ rest => exact Balanced.parens paren close balanced_nil rest
  | fullCall paren _ _ close _ arguments rest => exact Balanced.parens paren close arguments rest
  | moreArguments _ comma _ first rest => exact first.append (rest.cons comma rfl)
  | falseWord kind | trueWord kind | nilWord kind | name kind => exact balanced_nil.cons kind rfl
  | constant kind => rcases kind with kind | kind <;> exact balanced_nil.cons kind rfl
  | grouping paren _ close inner => exact Balanced.parens paren close inner balanced_nil

/-- An optional expression is balanced, being absent or an expression. -/
theorem OptionalExpression.balanced {ts : List Token} {e : Option Expr} (derived : OptionalExpression ts e) :
    Balanced ts := by
  cases derived with
  | absent => exact balanced_nil
  | present derived => exact derived.balanced

theorem VarDeclaration.balanced {ts : List Token} {s : Stmt} (built : VarDeclaration ts s) : Balanced ts := by
  cases built with
  | bare keyword name semicolon =>
      exact ((balanced_nil.cons semicolon rfl).cons name rfl).cons keyword rfl
  | initialised keyword name sign value semicolon =>
      exact (((value.balanced.concat semicolon rfl).cons sign rfl).cons name rfl).cons keyword rfl

theorem ExpressionStatement.balanced {ts : List Token} {s : Stmt} (built : ExpressionStatement ts s) :
    Balanced ts := by
  cases built with
  | mk derived semicolon => exact derived.balanced.concat semicolon rfl

/-- The first clause of a `for` loop is balanced in each of its forms. -/
theorem ForInitial.balanced {ts : List Token} {s : Option Stmt} (built : ForInitial ts s) :
    Balanced ts := by
  cases built with
  | absent semicolon => exact balanced_nil.cons semicolon rfl
  | declaration built => exact built.balanced
  | expression built => exact built.balanced

/-- Parameters are names and commas, which are no brackets. -/
theorem Parameters.balanced {ts names : List Token} (listed : Parameters ts names) : Balanced ts := by
  cases listed with
  | absent => exact balanced_nil
  | present separated =>
      induction separated with
      | one item =>
          obtain ⟨rfl, name⟩ := item
          exact balanced_nil.cons name rfl
      | more item comma _ ih =>
          obtain ⟨rfl, name⟩ := item
          exact (ih.cons comma rfl).cons name rfl

/-- The tokens of a part are balanced. The head of an `if` or of a loop, the parameters of a function and each
block close what they open. By induction over the way it is built. -/
theorem Builds.balanced {rule : ElseRule} {s : Part} {ts : List Token} {tree : s.Tree}
    (built : Builds rule s ts tree) : Balanced ts := by
  induction built with
  | expression built => exact built.balanced
  | print keyword value semicolon => exact (value.balanced.concat semicolon rfl).cons keyword rfl
  | «return» keyword value semicolon => exact (value.balanced.concat semicolon rfl).cons keyword rfl
  | block brace _ close body => exact Balanced.braces brace close body
  | «if» keyword paren condition close _ yes | «while» keyword paren condition close _ yes =>
      exact (Balanced.parens paren close condition.balanced yes).cons keyword rfl
  | ifElse keyword paren condition close _ _ sign _ yes no =>
      have branches := yes.append (no.cons sign rfl)
      exact (Balanced.parens paren close condition.balanced branches).cons keyword rfl
  | «for» keyword paren initial condition semicolon increment close _ _ body =>
      have clauses := initial.balanced.append
        (condition.balanced.append (increment.balanced.cons semicolon rfl))
      have head := Balanced.parens paren close clauses body
      simpa using head.cons keyword rfl
  | function keyword name paren parameters _ close brace _ closing body =>
      have block := Balanced.braces brace closing body
      have head := Balanced.parens paren close parameters.balanced block
      exact (head.cons name rfl).cons keyword rfl
  | var built => exact built.balanced
  | statement _ ih => exact ih
  | none => exact balanced_nil
  | more _ _ first rest => exact first.append rest

end Grammar

/-- Balanced tokens need no further line. The prompt counts parentheses and braces, and there are as many of one
kind as of the other. -/
theorem needsContinuation_eq_false {source : List Char}
    (balanced : Grammar.Balanced (Scan.ofChars source).tokens) : needsContinuation source = false := by
  have counts {opener closer : TokenKind} (closes : opener.closing? = some closer) :
      ((Scan.ofChars source).tokens.map Token.kind).count opener =
        ((Scan.ofChars source).tokens.map Token.kind).count closer := by
    obtain ⟨opens, shuts⟩ := TokenKind.isBracket_of_closing? closes
    rw [← Grammar.count_brackets opens, ← Grammar.count_brackets shuts]
    exact balanced.count_eq closes
  have braces := @counts .leftBrace .rightBrace rfl
  have parens := @counts .leftParen .rightParen rfl
  simp [needsContinuation, braces, parens]

namespace Program

/-- What stands after the first end token is not read. -/
theorem ofTokens_append_end {ts more : List Token} {last : Token} (inner : ∀ t ∈ ts, t.kind ≠ .endOfInput)
    (ends : last.kind = .endOfInput) (depth : Nat) :
    ofTokens depth (ts ++ last :: more) = ofTokens depth (ts ++ [last]) := by
  simp only [ofTokens, cursor_append inner ends]

/-- A source without a fault has tokens without a fault. They are the words of the source and its end token, in
the form that the grammar's theorems ask for. -/
theorem exists_ofTokens_words {source : String} {depth : Nat} {p : Program}
    (read : ofSource depth source = some p) (silent : p.faults = []) :
    ∃ q, ofTokens depth ((Scan.ofSource source).words ++ [Scan.endToken source.toList]) = some q ∧
      q.faults = [] := by
  obtain ⟨q, readTokens, rfl⟩ := Option.map_eq_some_iff.mp read
  rw [Scan.ofSource, Scan.tokens_eq_words_append] at readTokens
  exact ⟨q, readTokens, (List.append_eq_nil_iff.mp silent).2⟩

/-- **A complete source runs at once.** Tokens that are read without a fault are properly nested, and a source
that is read without a fault is run as soon as it is given to a prompt with nothing pending. It is run whole
and in the prompt's session: what is printed are the lines of that run, with the guard's message behind them if
the run failed. Afterwards the session is the one that the run left, nothing is pending, and the next line
begins a source. -/
theorem complete_source_runs_at_once :
    (∀ (ts more : List Token) (last : Token) (depth : Nat) (p : Program),
      (∀ t ∈ ts, t.kind ≠ .endOfInput) → last.kind = .endOfInput →
      ofTokens depth (ts ++ last :: more) = some p → p.faults = [] →
      Grammar.Nested (Grammar.brackets ts)) ∧
    ∀ (source : String) (depth : Nat) (p : Program), ofSource depth source = some p → p.faults = [] →
      needsContinuation source.toList = false ∧
      ∀ (limits : Limits) (prompt : Prompt), prompt.pending = [] →
        let step := prompt.addCode limits source.toList
        let r := prompt.session.run limits source
        step = prompt.runSource limits source.toList ∧ step.ran = some source.toList ∧
        step.printed = r.printed ++ prompt.session.guard.remark r.ending ∧ step.done = false ∧
        step.prompt.session = r.session ∧ step.prompt.pending = [] ∧
        step.prompt.mark = Prompt.firstMark := by
  have nested (ts more : List Token) (last : Token) (depth : Nat) (p : Program)
      (inner : ∀ t ∈ ts, t.kind ≠ .endOfInput) (ends : last.kind = .endOfInput)
      (read : ofTokens depth (ts ++ last :: more) = some p) (silent : p.faults = []) :
      Grammar.Balanced ts := by
    rw [ofTokens_append_end inner ends] at read
    exact (derives_of_ofTokens inner ends read silent).balanced
  refine ⟨nested, fun source depth p read silent => ?_⟩
  obtain ⟨q, readTokens, silent'⟩ := exists_ofTokens_words read silent
  have words := nested _ [] _ depth q Scan.kind_of_mem_words rfl readTokens silent'
  have complete : needsContinuation source.toList = false := by
    apply needsContinuation_eq_false
    rw [Scan.tokens_eq_words_append]
    exact words.concat rfl rfl
  refine ⟨complete, fun limits prompt idle => ?_⟩
  have atOnce : prompt.addCode limits source.toList = prompt.runSource limits source.toList := by
    rw [Prompt.addCode, idle]
    simp [complete]
  obtain ⟨ran, after, printed, goesOn⟩ := prompt.runSource_ran limits source.toList
  rw [String.ofList_toList] at after printed
  dsimp only
  rw [atOnce, after]
  exact ⟨rfl, ran, printed, goesOn, rfl, rfl, rfl⟩

/-- A parenthesis in a string does not count. -/
def nestedSource : String := "fun f(a) \x7b if (a) \x7b print (a); \x7d \x7d f(f(\"(\"));"

/-- A source with brackets inside of brackets, and with a parenthesis inside of a string, which opens nothing.
It is balanced, so it runs as soon as it is given. -/
theorem complete_source_runs_at_once_nested :
    let prompt := Prompt.ofSession ⟨⟨false, .plain⟩, Session.promptPath, false, .initial .stopped⟩
    (∃ p, ofSource 40 nestedSource = some p ∧ p.faults = []) ∧
    Grammar.Nested (Grammar.brackets (Scan.ofSource nestedSource).words) ∧
    needsContinuation nestedSource.toList = false ∧
    let step := prompt.addCode ⟨40, 9⟩ nestedSource.toList
    step = prompt.runSource ⟨40, 9⟩ nestedSource.toList ∧ step.ran = some nestedSource.toList ∧
    step.prompt.session = (prompt.session.run ⟨40, 9⟩ nestedSource).session ∧ step.prompt.pending = [] := by
  intro prompt
  have silent : (ofSource 40 nestedSource).map Program.faults = some [] := by decide +kernel
  obtain ⟨p, read, none⟩ := Option.map_eq_some_iff.mp silent
  obtain ⟨q, tokens, none'⟩ := exists_ofTokens_words read none
  obtain ⟨nested, runs⟩ := complete_source_runs_at_once
  obtain ⟨complete, atOnce⟩ := runs nestedSource 40 p read none
  obtain ⟨same, ran, -, -, session, pending, -⟩ := atOnce ⟨40, 9⟩ prompt rfl
  refine ⟨⟨p, read, none⟩, ?_, complete, same, ran, session, pending⟩
  exact nested _ [] _ 40 q Scan.kind_of_mem_words rfl tokens none'

end Program

end Treewalk

import Treewalk.Program.Statement

/-!
The grammar, as relations between tokens and the trees they denote. A phrase of the expression grammar
or a part of the statement grammar derives a list of tokens with one tree; what the reader does plays no
role here.

* Operators of one level are joined from left to right: `Phrase.operators l left` stands for the operands
  still to come after `left`. Assignments and ternaries nest to the right.
* A call has at most `mostArguments` arguments and a function as many parameters, and a `return` lies in
  a function body: `inFunction` says whether the part stands in one.
* An `else` may belong to several `if`s. A statement is `dangling` when it ends in an `if` that could
  still take one. `ElseRule.any` is the grammar as it is written; `ElseRule.nearest` keeps of its
  derivations those that give an `else` to the nearest `if`.
-/

namespace Treewalk

namespace Level

/-- The operators of a level of left-associative operators. -/
def operators : Level → List TokenKind
  | .disjunction => [.orWord]
  | .conjunction => [.andWord]
  | .equality => [.bangEqual, .equalEqual]
  | .comparison => [.greater, .greaterEqual, .less, .lessEqual]
  | .sum => [.minus, .plus]
  | .product => [.slash, .star]
  | _ => []

/-- The tree of an operator of a level. -/
def join : Level → Expr → Token → Expr → Expr
  | .disjunction | .conjunction => .logical
  | _ => .binary

/-- The next tighter level. -/
def tighter : Level → Level
  | .assignment => .disjunction
  | .disjunction => .conjunction
  | .conjunction => .ternary
  | .ternary => .equality
  | .equality => .comparison
  | .comparison => .sum
  | .sum => .product
  | .product => .unary
  | .unary => .call
  | .call | .primary => .primary

end Level

namespace Grammar

/-- Tokens that are read as items with commas between them, at least one item. -/
inductive Separated {α : Type} (Item : List Token → α → Prop) : List Token → List α → Prop where
  | one {ts a} : Item ts a → Separated Item ts [a]
  | more {ts us a as} {comma : Token} : Item ts a → comma.kind = .comma → Separated Item us as →
      Separated Item (ts ++ comma :: us) (a :: as)

/-! ### Expressions -/

/-- The nonterminals of the expression grammar. -/
inductive Phrase where
  | level (l : Level)
  /-- Operators of a level and their right operands, after `left`. -/
  | operators (l : Level) (left : Expr)
  /-- Lists of arguments, after `callee`. -/
  | calls (callee : Expr)
  | arguments

/-- What a phrase denotes. -/
abbrev Phrase.Tree : Phrase → Type
  | .level _ | .operators _ _ | .calls _ => Expr
  | .arguments => List Expr

inductive Derives : (s : Phrase) → List Token → s.Tree → Prop where
  | assign {name sign : Token} {ts} {value : Expr} : name.kind = .identifier → sign.kind = .equal →
      Derives (.level .assignment) ts value →
      Derives (.level .assignment) (name :: sign :: ts) (.assign name value)
  | disjunction {ts} {e : Expr} : Derives (.level .disjunction) ts e →
      Derives (.level .assignment) ts e
  | chain {l : Level} {ts us} {first e : Expr} : l.operators ≠ [] →
      Derives (.level l.tighter) ts first → Derives (.operators l first) us e →
      Derives (.level l) (ts ++ us) e
  | operand {l : Level} {left : Expr} : Derives (.operators l left) [] left
  | operator {l : Level} {op : Token} {ts us} {left right e : Expr} : op.kind ∈ l.operators →
      Derives (.level l.tighter) ts right → Derives (.operators l (l.join left op right)) us e →
      Derives (.operators l left) (op :: (ts ++ us)) e
  | ternary {question colon : Token} {cs ys ns} {condition yes no : Expr} :
      Derives (.level .equality) cs condition → question.kind = .question →
      Derives (.level .assignment) ys yes → colon.kind = .colon →
      Derives (.level .ternary) ns no →
      Derives (.level .ternary) (cs ++ question :: (ys ++ colon :: ns)) (.ternary condition yes no)
  | equality {ts} {e : Expr} : Derives (.level .equality) ts e → Derives (.level .ternary) ts e
  | unary {op : Token} {ts} {e : Expr} : op.kind = .bang ∨ op.kind = .minus →
      Derives (.level .unary) ts e → Derives (.level .unary) (op :: ts) (.unary op e)
  | call {ts} {e : Expr} : Derives (.level .call) ts e → Derives (.level .unary) ts e
  | callee {ts us} {callee e : Expr} : Derives (.level .primary) ts callee →
      Derives (.calls callee) us e → Derives (.level .call) (ts ++ us) e
  | uncalled {callee : Expr} : Derives (.calls callee) [] callee
  | emptyCall {paren close : Token} {us} {callee e : Expr} : paren.kind = .leftParen →
      close.kind = .rightParen → Derives (.calls (.call callee paren [])) us e →
      Derives (.calls callee) (paren :: close :: us) e
  | fullCall {paren close : Token} {ts us} {callee e : Expr} {arguments : List Expr} :
      paren.kind = .leftParen → Derives .arguments ts arguments → arguments.length ≤ mostArguments →
      close.kind = .rightParen → Derives (.calls (.call callee paren arguments)) us e →
      Derives (.calls callee) (paren :: (ts ++ close :: us)) e
  | argument {ts} {e : Expr} : Derives (.level .assignment) ts e → Derives .arguments ts [e]
  | moreArguments {comma : Token} {ts us} {e : Expr} {es : List Expr} :
      Derives (.level .assignment) ts e → comma.kind = .comma → Derives .arguments us es →
      Derives .arguments (ts ++ comma :: us) (e :: es)
  | falseWord {t : Token} : t.kind = .falseWord → Derives (.level .primary) [t] (.literal (.bool false))
  | trueWord {t : Token} : t.kind = .trueWord → Derives (.level .primary) [t] (.literal (.bool true))
  | nilWord {t : Token} : t.kind = .nilWord → Derives (.level .primary) [t] (.literal .nil)
  | constant {t : Token} : t.kind = .number ∨ t.kind = .string →
      Derives (.level .primary) [t] (.literal t.literal)
  | name {t : Token} : t.kind = .identifier → Derives (.level .primary) [t] (.variable t)
  | grouping {paren close : Token} {ts} {e : Expr} : paren.kind = .leftParen →
      Derives (.level .assignment) ts e → close.kind = .rightParen →
      Derives (.level .primary) (paren :: (ts ++ [close])) (.grouping e)

/-- The tokens of an expression. -/
abbrev Expression (ts : List Token) (e : Expr) : Prop := Derives (.level .assignment) ts e

/-- The tokens of an expression that may be left out. -/
inductive OptionalExpression : List Token → Option Expr → Prop where
  | absent : OptionalExpression [] none
  | present {ts e} : Expression ts e → OptionalExpression ts (some e)

/-! ### Statements -/

inductive VarDeclaration : List Token → Stmt → Prop where
  | bare {keyword name semicolon : Token} : keyword.kind = .varWord → name.kind = .identifier →
      semicolon.kind = .semicolon → VarDeclaration [keyword, name, semicolon] (.var name none)
  | initialised {keyword name sign semicolon : Token} {ts e} : keyword.kind = .varWord →
      name.kind = .identifier → sign.kind = .equal → Expression ts e → semicolon.kind = .semicolon →
      VarDeclaration (keyword :: name :: sign :: (ts ++ [semicolon])) (.var name (some e))

inductive ExpressionStatement : List Token → Stmt → Prop where
  | mk {semicolon : Token} {ts e} : Expression ts e → semicolon.kind = .semicolon →
      ExpressionStatement (ts ++ [semicolon]) (.expression e)

/-- The first clause of a `for` loop, its semicolon included. -/
inductive ForInitial : List Token → Option Stmt → Prop where
  | absent {semicolon : Token} : semicolon.kind = .semicolon → ForInitial [semicolon] none
  | declaration {ts s} : VarDeclaration ts s → ForInitial ts (some s)
  | expression {ts s} : ExpressionStatement ts s → ForInitial ts (some s)

/-- The parameters of a function. -/
inductive Parameters : List Token → List Token → Prop where
  | absent : Parameters [] []
  | present {ts names} : Separated (fun us name => us = [name] ∧ name.kind = .identifier) ts names →
      Parameters ts names

/-- The loop that a `for` stands for: the increment runs after each turn of the body, a missing
condition is true, and the initial clause runs before the loop in a block of its own. -/
inductive WhileForm : Option Stmt → Option Expr → Option Expr → Stmt → Stmt → Prop where
  | plain {condition body} :
      WhileForm none condition none body (.loop (condition.getD (.literal (.bool true))) body)
  | stepped {condition increment body} :
      WhileForm none condition (some increment) body
        (.loop (condition.getD (.literal (.bool true))) (.block [body, .expression increment]))
  | opened {initial condition increment body s} : WhileForm none condition increment body s →
      WhileForm (some initial) condition increment body (.block [initial, s])

/-- Every `for` has exactly one such loop, the one that the reader makes of it. So the grammar needs no tree of
its own for `for` loops. -/
theorem whileForm_iff {initial : Option Stmt} {condition increment : Option Expr} {body s : Stmt} :
    WhileForm initial condition increment body s ↔
      s = Stmt.forLoop initial condition increment body := by
  constructor
  · intro form
    induction form with
    | plain => rfl
    | stepped => rfl
    | opened _ ih => rw [ih]; rfl
  · rintro rfl
    have loop : WhileForm none condition increment body
        (Stmt.forLoop none condition increment body) := by
      cases increment with
      | none => exact .plain
      | some e => exact .stepped
    cases initial with
    | none => exact loop
    | some first => exact .opened loop

/-- Which `if` an `else` may belong to. -/
inductive ElseRule where
  | any
  | nearest
deriving DecidableEq

/-- The nonterminals of the statement grammar. -/
inductive Part where
  | statement (inFunction dangling : Bool)
  | declaration (inFunction : Bool)
  | declarations (inFunction : Bool)

/-- What a part denotes. -/
abbrev Part.Tree : Part → Type
  | .statement _ _ | .declaration _ => Stmt
  | .declarations _ => List Stmt

inductive Builds (rule : ElseRule) : (s : Part) → List Token → s.Tree → Prop where
  | expression {f ts} {s : Stmt} : ExpressionStatement ts s → Builds rule (.statement f false) ts s
  | print {f ts} {keyword semicolon : Token} {e : Expr} : keyword.kind = .printWord →
      Expression ts e → semicolon.kind = .semicolon →
      Builds rule (.statement f false) (keyword :: (ts ++ [semicolon])) (.print e)
  | return {ts} {keyword semicolon : Token} {value : Option Expr} : keyword.kind = .returnWord →
      OptionalExpression ts value → semicolon.kind = .semicolon →
      Builds rule (.statement true false) (keyword :: (ts ++ [semicolon])) (.return keyword value)
  | block {f ts} {brace close : Token} {body : List Stmt} : brace.kind = .leftBrace →
      Builds rule (.declarations f) ts body → close.kind = .rightBrace →
      Builds rule (.statement f false) (brace :: (ts ++ [close])) (.block body)
  | «if» {f d cs ts} {keyword paren close : Token} {condition : Expr} {yes : Stmt} :
      keyword.kind = .ifWord → paren.kind = .leftParen → Expression cs condition →
      close.kind = .rightParen → Builds rule (.statement f d) ts yes →
      Builds rule (.statement f true) (keyword :: paren :: (cs ++ close :: ts))
        (.branch condition yes none)
  | ifElse {f d d' cs ts us} {keyword paren close sign : Token} {condition : Expr} {yes no : Stmt} :
      keyword.kind = .ifWord → paren.kind = .leftParen → Expression cs condition →
      close.kind = .rightParen → Builds rule (.statement f d) ts yes →
      (rule = .nearest → d = false) → sign.kind = .elseWord → Builds rule (.statement f d') us no →
      Builds rule (.statement f d') (keyword :: paren :: (cs ++ close :: (ts ++ sign :: us)))
        (.branch condition yes (some no))
  | «while» {f d cs ts} {keyword paren close : Token} {condition : Expr} {body : Stmt} :
      keyword.kind = .whileWord → paren.kind = .leftParen → Expression cs condition →
      close.kind = .rightParen → Builds rule (.statement f d) ts body →
      Builds rule (.statement f d) (keyword :: paren :: (cs ++ close :: ts)) (.loop condition body)
  | «for» {f d is cs ns ts} {keyword paren semicolon close : Token} {initial : Option Stmt}
      {condition increment : Option Expr} {body s : Stmt} :
      keyword.kind = .forWord → paren.kind = .leftParen → ForInitial is initial →
      OptionalExpression cs condition → semicolon.kind = .semicolon →
      OptionalExpression ns increment → close.kind = .rightParen →
      Builds rule (.statement f d) ts body → WhileForm initial condition increment body s →
      Builds rule (.statement f d)
        (keyword :: paren :: (is ++ (cs ++ semicolon :: (ns ++ close :: ts)))) s
  | function {f ps ts} {keyword name paren close brace closing : Token} {parameters : List Token}
      {body : List Stmt} :
      keyword.kind = .funWord → name.kind = .identifier → paren.kind = .leftParen →
      Parameters ps parameters → parameters.length ≤ mostArguments → close.kind = .rightParen →
      brace.kind = .leftBrace → Builds rule (.declarations true) ts body →
      closing.kind = .rightBrace →
      Builds rule (.declaration f)
        (keyword :: name :: paren :: (ps ++ close :: brace :: (ts ++ [closing])))
        (.function name parameters body)
  | var {f ts} {s : Stmt} : VarDeclaration ts s → Builds rule (.declaration f) ts s
  | statement {f d ts} {s : Stmt} : Builds rule (.statement f d) ts s →
      Builds rule (.declaration f) ts s
  | none {f} : Builds rule (.declarations f) [] []
  | more {f ts us} {s : Stmt} {ss : List Stmt} : Builds rule (.declaration f) ts s →
      Builds rule (.declarations f) us ss → Builds rule (.declarations f) (ts ++ us) (s :: ss)

/-- The tokens of a program, up to the end of the input. -/
abbrev Program (rule : ElseRule) (ts : List Token) (statements : List Stmt) : Prop :=
  Builds rule (.declarations false) ts statements

/-! ### How phrases and parts begin -/

/-- Tokens that an expression can begin with. -/
def startsExpression : TokenKind → Bool
  | .bang | .minus | .falseWord | .trueWord | .nilWord | .number | .string | .identifier
  | .leftParen => true
  | _ => false

/-- The tokens of a phrase begin like an expression. Operators and calls may take no token at all. -/
def Phrase.Opens : Phrase → List Token → Prop
  | .level _, ts | .arguments, ts => ∃ t us, ts = t :: us ∧ startsExpression t.kind = true
  | .operators _ _, _ | .calls _, _ => True

/-- Every phrase begins with a token that can begin it. Readers decide by this token. -/
theorem Derives.opens {s : Phrase} {ts : List Token} {tree : s.Tree} (derived : Derives s ts tree) :
    s.Opens ts := by
  induction derived with
  | assign kind => exact ⟨_, _, rfl, by rw [kind]; rfl⟩
  | disjunction _ ih | equality _ ih | call _ ih | argument _ ih => exact ih
  | chain _ _ _ ih | ternary _ _ _ _ _ ih | callee _ _ ih | moreArguments _ _ _ ih =>
      obtain ⟨t, us, rfl, starts⟩ := ih
      exact ⟨t, _, rfl, starts⟩
  | operand | operator | uncalled | emptyCall | fullCall => trivial
  | unary kind | constant kind =>
      rcases kind with kind | kind <;> exact ⟨_, _, rfl, by rw [kind]; rfl⟩
  | falseWord kind | trueWord kind | nilWord kind | name kind | grouping kind =>
      exact ⟨_, _, rfl, by rw [kind]; rfl⟩

/-- What follows an operand on a level begins with one of the level's operators, if anything follows it
at all. -/
theorem Derives.operators_head {l : Level} {left e : Expr} {ts : List Token}
    (derived : Derives (.operators l left) ts e) : ∀ t ∈ ts.head?, t.kind ∈ l.operators := by
  cases derived with
  | operand => simp
  | operator listed => simpa using listed

/-- Tokens that a statement can begin with. -/
def startsStatement : TokenKind → Bool
  | .forWord | .ifWord | .printWord | .returnWord | .whileWord | .leftBrace => true
  | k => startsExpression k

/-- Tokens that a declaration can begin with. -/
def startsDeclaration : TokenKind → Bool
  | .funWord | .varWord => true
  | k => startsStatement k

theorem ExpressionStatement.opens {ts : List Token} {s : Stmt} (built : ExpressionStatement ts s) :
    ∃ t us, ts = t :: us ∧ startsExpression t.kind = true := by
  cases built with
  | mk derived _ =>
      obtain ⟨t, us, rfl, starts⟩ := derived.opens
      exact ⟨t, _, rfl, starts⟩

theorem VarDeclaration.opens {ts : List Token} {s : Stmt} (built : VarDeclaration ts s) :
    ∃ t us, ts = t :: us ∧ t.kind = .varWord := by
  cases built with
  | bare kind | initialised kind => exact ⟨_, _, rfl, kind⟩

theorem startsStatement_of_startsExpression {k : TokenKind} (starts : startsExpression k = true) :
    startsStatement k = true := by
  revert starts
  cases k <;> decide

theorem startsDeclaration_of_startsStatement {k : TokenKind} (starts : startsStatement k = true) :
    startsDeclaration k = true := by
  revert starts
  cases k <;> decide

/-- Every statement begins with a token that can begin a statement. With `startsStatement` this is decidable on
the token, as a reader needs it. -/
theorem Builds.statement_opens {rule : ElseRule} {f d : Bool} {ts : List Token} {s : Stmt}
    (built : Builds rule (.statement f d) ts s) :
    ∃ t us, ts = t :: us ∧ startsStatement t.kind = true := by
  cases built with
  | expression derived =>
      obtain ⟨t, us, rfl, starts⟩ := derived.opens
      exact ⟨t, us, rfl, startsStatement_of_startsExpression starts⟩
  | print kind | «return» kind | block kind | «if» kind | ifElse kind | «while» kind | «for» kind =>
      exact ⟨_, _, rfl, by rw [kind]; rfl⟩

/-- Every declaration begins with a token that can begin a declaration. In particular none is empty, so a row of
declarations can be told from its end. -/
theorem Builds.declaration_opens {rule : ElseRule} {f : Bool} {ts : List Token} {s : Stmt}
    (built : Builds rule (.declaration f) ts s) :
    ∃ t us, ts = t :: us ∧ startsDeclaration t.kind = true := by
  cases built with
  | function kind => exact ⟨_, _, rfl, by rw [kind]; rfl⟩
  | var declared =>
      obtain ⟨t, us, rfl, kind⟩ := declared.opens
      exact ⟨t, us, rfl, by rw [kind]; rfl⟩
  | statement built =>
      obtain ⟨t, us, rfl, starts⟩ := built.statement_opens
      exact ⟨t, us, rfl, startsDeclaration_of_startsStatement starts⟩

/-- A row of declarations is empty or begins as a declaration does. -/
theorem Builds.declarations_head {rule : ElseRule} {f : Bool} {ts : List Token} {ss : List Stmt}
    (built : Builds rule (.declarations f) ts ss) :
    ∀ t ∈ ts.head?, startsDeclaration t.kind = true := by
  cases built with
  | none => simp
  | more first _ =>
      obtain ⟨t, us, rfl, starts⟩ := first.declaration_opens
      simpa using starts

/-! ### Every derivation has one that gives each `else` to the nearest `if` -/

/-- A derivation by the nearest `if` is a derivation. The rule only restricts what may stand in front of
an `else`. -/
theorem Builds.relax {rule : ElseRule} {s : Part} {ts : List Token} {tree : s.Tree}
    (built : Builds rule s ts tree) : Builds .any s ts tree := by
  induction built with
  | expression derived => exact .expression derived
  | print k e semi => exact .print k e semi
  | «return» k e semi => exact .return k e semi
  | block k _ close ih => exact .block k ih close
  | «if» k p c r _ ih => exact .if k p c r ih
  | ifElse k p c r _ _ sign _ yes no => exact .ifElse k p c r yes (by simp) sign no
  | «while» k p c r _ ih => exact .while k p c r ih
  | «for» k p i c semi n r _ form ih => exact .for k p i c semi n r ih form
  | function k name p ps most r brace _ close ih => exact .function k name p ps most r brace ih close
  | var declared => exact .var declared
  | statement _ ih => exact .statement ih
  | none => exact .none
  | more _ _ first rest => exact .more first rest

/-- A dangling statement can take an `else` and a statement after it. -/
def Part.Extends (sign : Token) (us : List Token) : Part → List Token → Prop
  | .statement f true, ts =>
      (∃ d no, Builds .nearest (.statement f d) us no) →
        ∃ d s, Builds .nearest (.statement f d) (ts ++ sign :: us) s
  | _, _ => True

/-- A dangling statement that is built by the nearest `if` takes an `else` and a statement behind it, the `else`
going to its last open `if`. By induction over the way it is built. -/
theorem Builds.extends {s : Part} {ts : List Token} {tree : s.Tree} (built : Builds .nearest s ts tree)
    {sign : Token} (us : List Token) (kind : sign.kind = .elseWord) : s.Extends sign us ts := by
  induction built with
  | expression | print | «return» | block | function | var | statement | none | more => trivial
  | @«if» f d cs ts keyword paren close condition yes k p c r built ih =>
      rintro ⟨d', no, following⟩
      cases d with
      | false => exact ⟨d', _, by simpa using Builds.ifElse k p c r built (fun _ => rfl) kind following⟩
      | true =>
          -- the `else` goes to an `if` further inside
          obtain ⟨e, yes', inner⟩ := ih ⟨d', no, following⟩
          exact ⟨true, _, by simpa using Builds.if k p c r inner⟩
  | @ifElse f d d' cs ts us keyword paren close sign condition yes no k p c r built near s _ _ ih =>
      cases d' with
      | false => trivial
      | true =>
          intro following
          obtain ⟨e, no', inner⟩ := ih following
          exact ⟨e, _, by simpa using Builds.ifElse k p c r built near s inner⟩
  | @«while» f d cs ts keyword paren close condition body k p c r _ ih =>
      cases d with
      | false => trivial
      | true =>
          intro following
          obtain ⟨e, body', inner⟩ := ih following
          exact ⟨e, _, by simpa using Builds.while k p c r inner⟩
  | @«for» f d is cs ns ts keyword paren semi close initial condition increment body s k p i c m n r _
      _ ih =>
      cases d with
      | false => trivial
      | true =>
          intro following
          obtain ⟨e, body', inner⟩ := ih following
          exact ⟨e, _, by simpa using Builds.for k p i c m n r inner (whileForm_iff.mpr rfl)⟩

/-- The tokens of a part also have a derivation by the nearest `if`. -/
def Part.Nearest : Part → List Token → Prop
  | .statement f _, ts => ∃ d s, Builds .nearest (.statement f d) ts s
  | .declaration f, ts => ∃ s, Builds .nearest (.declaration f) ts s
  | .declarations f, ts => ∃ ss, Builds .nearest (.declarations f) ts ss

/-- Whatever tokens have a derivation have one that gives each `else` to the nearest `if`, with another tree
perhaps. So the rule for `else` rejects no program. By induction over the derivation, where `Builds.extends`
moves an `else` inwards. -/
theorem Builds.nearest {s : Part} {ts : List Token} {tree : s.Tree} (built : Builds .any s ts tree) :
    s.Nearest ts := by
  induction built with
  | expression derived => exact ⟨false, _, .expression derived⟩
  | print k e semi => exact ⟨false, _, .print k e semi⟩
  | «return» k e semi => exact ⟨false, _, .return k e semi⟩
  | block k _ close ih =>
      obtain ⟨ss, inner⟩ := ih
      exact ⟨false, _, .block k inner close⟩
  | «if» k p c r _ ih =>
      obtain ⟨d, yes, inner⟩ := ih
      exact ⟨true, _, .if k p c r inner⟩
  | ifElse k p c r _ _ kind _ ihYes ihNo =>
      obtain ⟨d, yes, inner⟩ := ihYes
      obtain ⟨d', no, following⟩ := ihNo
      cases d with
      | false => exact ⟨d', _, .ifElse k p c r inner (fun _ => rfl) kind following⟩
      | true =>
          obtain ⟨e, s, whole⟩ := inner.extends _ kind ⟨d', no, following⟩
          exact ⟨true, _, .if k p c r whole⟩
  | «while» k p c r _ ih =>
      obtain ⟨d, body, inner⟩ := ih
      exact ⟨d, _, .while k p c r inner⟩
  | «for» k p i c semi n r _ _ ih =>
      obtain ⟨d, body, inner⟩ := ih
      exact ⟨d, _, .for k p i c semi n r inner (whileForm_iff.mpr rfl)⟩
  | function k name p ps most r brace _ close ih =>
      obtain ⟨ss, inner⟩ := ih
      exact ⟨_, .function k name p ps most r brace inner close⟩
  | var declared => exact ⟨_, .var declared⟩
  | statement _ ih =>
      obtain ⟨d, s, inner⟩ := ih
      exact ⟨s, .statement inner⟩
  | none => exact ⟨[], .none⟩
  | more _ _ ihFirst ihRest =>
      obtain ⟨s, first⟩ := ihFirst
      obtain ⟨ss, rest⟩ := ihRest
      exact ⟨s :: ss, .more first rest⟩

end Grammar

end Treewalk

import Treewalk.Proofs.Grammar
import Treewalk.Proofs.Tree

/-!
Assignments in derived trees: wherever a tree assigns to a name, that name is an identifier that stands
directly before an equals sign in the tokens. So what is left of the sign is never a larger expression.
-/

namespace Treewalk

namespace Grammar

/-- A name stands directly before an equals sign. -/
def AssignedIn (name : Token) (ts : List Token) : Prop :=
  name.kind = .identifier ∧ ∃ sign : Token, sign.kind = .equal ∧ [name, sign] <:+: ts

namespace AssignedIn

variable {name : Token} {ts us : List Token}

/-- An assignment that stands in a part of the tokens stands in the whole. The three lemmas below are the ways
in which rules put tokens around others. -/
theorem mono (assigned : AssignedIn name ts) (inside : ts <:+: us) : AssignedIn name us := by
  obtain ⟨named, sign, signed, adjacent⟩ := assigned
  exact ⟨named, sign, signed, adjacent.trans inside⟩

theorem cons (t : Token) (assigned : AssignedIn name ts) : AssignedIn name (t :: ts) :=
  assigned.mono (List.suffix_cons t ts).isInfix

theorem left (us : List Token) (assigned : AssignedIn name ts) : AssignedIn name (ts ++ us) :=
  assigned.mono (List.prefix_append ts us).isInfix

theorem right (ts : List Token) (assigned : AssignedIn name us) : AssignedIn name (ts ++ us) :=
  assigned.mono (List.suffix_append ts us).isInfix

end AssignedIn

/-- Somewhere in an expression a name is assigned to. -/
def Assigns (name : Token) (e : Expr) : Prop := ∃ value, (Expr.assign name value).Within e

/-- A name is assigned to at the root of an expression or in one of its children. The cases below read this for
each form of expression. -/
theorem assigns_iff {name : Token} {e : Expr} :
    Assigns name e ↔ (∃ value, Expr.assign name value = e) ∨ ∃ c ∈ e.children, Assigns name c := by
  constructor
  · rintro ⟨value, within⟩
    rcases Expr.within_iff.mp within with same | ⟨c, child, inner⟩
    · exact .inl ⟨value, same⟩
    · exact .inr ⟨c, child, value, inner⟩
  · rintro (⟨value, rfl⟩ | ⟨c, child, value, inner⟩)
    · exact ⟨value, .here⟩
    · exact ⟨value, .deeper child inner⟩

section Assigns

variable {name : Token} {e left right : Expr}

@[simp]
theorem not_assigns_literal {value : Constant} : ¬ Assigns name (.literal value) := by
  rw [assigns_iff]; simp [Expr.children]

@[simp]
theorem not_assigns_variable {t : Token} : ¬ Assigns name (.variable t) := by
  rw [assigns_iff]; simp [Expr.children]

@[simp]
theorem assigns_grouping : Assigns name (.grouping e) ↔ Assigns name e := by
  rw [assigns_iff]; simp [Expr.children]

@[simp]
theorem assigns_unary {op : Token} : Assigns name (.unary op e) ↔ Assigns name e := by
  rw [assigns_iff]; simp [Expr.children]

/-- Both operands of an operator may assign, on every level of operators, since each level joins its operands to
a tree with exactly these two children. -/
@[simp]
theorem assigns_join {l : Level} {op : Token} :
    Assigns name (l.join left op right) ↔ Assigns name left ∨ Assigns name right := by
  rw [assigns_iff]; cases l <;> simp [Level.join, Expr.children]

@[simp]
theorem assigns_ternary {condition yes no : Expr} :
    Assigns name (.ternary condition yes no) ↔
      Assigns name condition ∨ Assigns name yes ∨ Assigns name no := by
  rw [assigns_iff]; simp [Expr.children]

/-- An assignment assigns to its target, and its value may assign further. This is the only form with a case of
its own for the name. -/
@[simp]
theorem assigns_assign {target : Token} :
    Assigns name (.assign target e) ↔ name = target ∨ Assigns name e := by
  rw [assigns_iff]; simp [Expr.children]

/-- The callee and each argument of a call may assign. -/
@[simp]
theorem assigns_call {callee : Expr} {paren : Token} {arguments : List Expr} :
    Assigns name (.call callee paren arguments) ↔
      Assigns name callee ∨ ∃ e ∈ arguments, Assigns name e := by
  rw [assigns_iff]; simp [Expr.children]

end Assigns

/-- Where the names that a phrase assigns to come from: its tokens, or what stood before it. -/
def Phrase.Named (name : Token) : (s : Phrase) → List Token → s.Tree → Prop
  | .level _, ts, e => Assigns name e → AssignedIn name ts
  | .operators _ left, ts, e | .calls left, ts, e =>
      Assigns name e → Assigns name left ∨ AssignedIn name ts
  | .arguments, ts, es => (∃ e ∈ es, Assigns name e) → AssignedIn name ts

/-- Every name that a derived expression assigns to stands in its tokens, with an equals sign behind it. By
induction over the derivation. -/
theorem Derives.named {s : Phrase} {ts : List Token} {tree : s.Tree} (derived : Derives s ts tree)
    (name : Token) : s.Named name ts tree := by
  induction derived with
  | @assign target sign ts value named signed _ ih =>
      intro assigns
      rcases assigns_assign.mp assigns with rfl | inner
      · exact ⟨named, sign, signed, (List.prefix_append [name, sign] ts).isInfix⟩
      · exact ((ih inner).cons sign).cons target
  | disjunction _ ih | equality _ ih | call _ ih => exact ih
  | chain _ _ _ ihFirst ihRest | callee _ _ ihFirst ihRest =>
      intro assigns
      rcases ihRest assigns with first | later
      · exact (ihFirst first).left _
      · exact later.right _
  | operand | uncalled => exact .inl
  | @operator l op ts us left right e _ _ _ ihRight ihRest =>
      intro assigns
      rcases ihRest assigns with joined | later
      · exact (assigns_join.mp joined).imp_right fun inner => ((ihRight inner).left us).cons op
      · exact .inr ((later.right ts).cons op)
  | @ternary question colon cs ys ns condition yes no _ _ _ _ _ ihCondition ihYes ihNo =>
      intro assigns
      rcases assigns_ternary.mp assigns with inner | inner | inner
      · exact (ihCondition inner).left _
      · exact (((ihYes inner).left _).cons question).right cs
      · exact ((((ihNo inner).cons colon).right ys).cons question).right cs
  | unary _ _ ih => exact fun assigns => (ih (assigns_unary.mp assigns)).cons _
  | @emptyCall paren close us callee e _ _ _ ih =>
      intro assigns
      rcases ih assigns with called | later
      · exact .inl (by simpa using called)
      · exact .inr ((later.cons close).cons paren)
  | @fullCall paren close ts us callee e arguments _ _ _ _ _ ihArguments ih =>
      intro assigns
      rcases ih assigns with called | later
      · exact (assigns_call.mp called).imp_right fun inner =>
          ((ihArguments inner).left _).cons paren
      · exact .inr (((later.cons close).right ts).cons paren)
  | argument _ ih => exact fun assigns => ih (by simpa using assigns)
  | @moreArguments comma ts us e es _ _ _ ihFirst ihRest =>
      rintro ⟨d, listed, inner⟩
      rcases List.mem_cons.mp listed with rfl | later
      · exact (ihFirst inner).left _
      · exact ((ihRest ⟨d, later, inner⟩).cons comma).right ts
  | falseWord | trueWord | nilWord | constant =>
      exact fun assigns => absurd assigns not_assigns_literal
  | name => exact fun assigns => absurd assigns not_assigns_variable
  | grouping _ _ _ ih => exact fun assigns => ((ih (assigns_grouping.mp assigns)).left _).cons _

/-- Somewhere in a statement a name is assigned to. -/
def AssignsIn (name : Token) (s : Stmt) : Prop := ∃ value, s.Mentions (.assign name value)

/-- A statement assigns to a name in one of its expressions or in one of its parts. As for expressions, the
cases below read this for each form. -/
theorem assignsIn_iff {name : Token} {s : Stmt} :
    AssignsIn name s ↔ (∃ e ∈ s.expressions, Assigns name e) ∨ ∃ u ∈ s.parts, AssignsIn name u := by
  simp only [AssignsIn, Assigns, Stmt.mentions_iff (s := s), exists_or]
  grind

section AssignsIn

variable {name : Token} {e : Expr} {s : Stmt}

@[simp]
theorem assignsIn_expression : AssignsIn name (.expression e) ↔ Assigns name e := by
  rw [assignsIn_iff]; simp [Stmt.expressions, Stmt.parts]

@[simp]
theorem assignsIn_print : AssignsIn name (.print e) ↔ Assigns name e := by
  rw [assignsIn_iff]; simp [Stmt.expressions, Stmt.parts]

@[simp]
theorem assignsIn_var {t : Token} {value : Option Expr} :
    AssignsIn name (.var t value) ↔ ∃ e ∈ value, Assigns name e := by
  rw [assignsIn_iff]; simp [Stmt.expressions, Stmt.parts]

@[simp]
theorem assignsIn_return {t : Token} {value : Option Expr} :
    AssignsIn name (.return t value) ↔ ∃ e ∈ value, Assigns name e := by
  rw [assignsIn_iff]; simp [Stmt.expressions, Stmt.parts]

@[simp]
theorem assignsIn_block {body : List Stmt} :
    AssignsIn name (.block body) ↔ ∃ s ∈ body, AssignsIn name s := by
  rw [assignsIn_iff]; simp [Stmt.expressions, Stmt.parts]

/-- Declaring a function counts as assigning to what its body assigns to, whether or not it is ever called. -/
@[simp]
theorem assignsIn_function {t : Token} {parameters : List Token} {body : List Stmt} :
    AssignsIn name (.function t parameters body) ↔ ∃ s ∈ body, AssignsIn name s := by
  rw [assignsIn_iff]; simp [Stmt.expressions, Stmt.parts]

/-- The condition and both arms of a branch may assign. -/
@[simp]
theorem assignsIn_branch {yes : Stmt} {no : Option Stmt} :
    AssignsIn name (.branch e yes no) ↔
      Assigns name e ∨ AssignsIn name yes ∨ ∃ s ∈ no, AssignsIn name s := by
  rw [assignsIn_iff]; simp [Stmt.expressions, Stmt.parts]

@[simp]
theorem assignsIn_loop : AssignsIn name (.loop e s) ↔ Assigns name e ∨ AssignsIn name s := by
  rw [assignsIn_iff]; simp [Stmt.expressions, Stmt.parts]

end AssignsIn

/-! ### Statements -/

section Named

variable {name : Token} {ts : List Token}

/-- An optional expression assigns to names among its tokens only, and to none when it is absent. -/
theorem OptionalExpression.named {value : Option Expr} (read : OptionalExpression ts value)
    (assigns : ∃ e ∈ value, Assigns name e) : AssignedIn name ts := by
  cases read with
  | absent => simp at assigns
  | present derived => exact derived.named name (by simpa using assigns)

theorem ExpressionStatement.named {s : Stmt} (read : ExpressionStatement ts s)
    (assigns : AssignsIn name s) : AssignedIn name ts := by
  cases read with
  | mk derived => exact (derived.named name (assignsIn_expression.mp assigns)).left _

theorem VarDeclaration.named {s : Stmt} (read : VarDeclaration ts s) (assigns : AssignsIn name s) :
    AssignedIn name ts := by
  cases read with
  | bare => simp at assigns
  | initialised _ _ _ derived =>
      exact ((((derived.named name (by simpa using assigns)).left _).cons _).cons _).cons _

/-- The first clause of a `for` loop assigns to names among its tokens only. -/
theorem ForInitial.named {initial : Option Stmt} (read : ForInitial ts initial)
    (assigns : ∃ s ∈ initial, AssignsIn name s) : AssignedIn name ts := by
  cases read with
  | absent => simp at assigns
  | declaration read => exact read.named (by simpa using assigns)
  | expression read => exact read.named (by simpa using assigns)

/-- The `while` form of a loop assigns to the names that its clauses and its body assign to. The condition that
stands for a missing one is a constant and assigns to none. -/
theorem WhileForm.named {initial : Option Stmt} {condition increment : Option Expr} {body s : Stmt}
    (form : WhileForm initial condition increment body s) (assigns : AssignsIn name s) :
    (∃ first ∈ initial, AssignsIn name first) ∨ (∃ e ∈ condition, Assigns name e) ∨
      (∃ e ∈ increment, Assigns name e) ∨ AssignsIn name body := by
  induction form with
  | @plain condition body =>
      cases condition with
      | none => simpa using assigns
      | some c => simpa using assigns
  | @stepped condition increment body =>
      cases condition with
      | none => simpa [or_comm] using assigns
      | some c => simpa [or_comm] using assigns
  | @opened initial condition increment body s _ ih =>
      rcases (by simpa using assigns : AssignsIn name initial ∨ AssignsIn name s) with first | loop
      · exact .inl ⟨initial, rfl, first⟩
      · exact .inr (by simpa using ih loop)

end Named

/-- The names that a part assigns to come from its tokens. -/
def Part.Named (name : Token) : (s : Part) → List Token → s.Tree → Prop
  | .statement _ _, ts, s | .declaration _, ts, s => AssignsIn name s → AssignedIn name ts
  | .declarations _, ts, ss => (∃ s ∈ ss, AssignsIn name s) → AssignedIn name ts

/-- Every name that a program assigns to stands among its tokens, with an equals sign behind it. By induction
over the way the program is built. -/
theorem Builds.named {rule : ElseRule} {s : Part} {ts : List Token} {tree : s.Tree}
    (built : Builds rule s ts tree) (name : Token) : s.Named name ts tree := by
  induction built with
  | expression read => exact read.named
  | print _ derived _ =>
      exact fun assigns => ((derived.named name (assignsIn_print.mp assigns)).left _).cons _
  | «return» _ read _ => exact fun assigns => ((read.named (assignsIn_return.mp assigns)).left _).cons _
  | block _ _ _ ih => exact fun assigns => ((ih (assignsIn_block.mp assigns)).left _).cons _
  | @«if» f d cs ts keyword paren close condition yes _ _ derived _ _ ih =>
      intro assigns
      refine (AssignedIn.cons paren ?_).cons keyword
      rcases (by simpa using assigns : Assigns name condition ∨ AssignsIn name yes) with inner | inner
      · exact (derived.named name inner).left _
      · exact ((ih inner).cons close).right cs
  | @ifElse f d d' cs ts us keyword paren close sign condition yes no _ _ derived _ _ _ _ _ ihYes ihNo =>
      intro assigns
      refine (AssignedIn.cons paren ?_).cons keyword
      rcases assignsIn_branch.mp assigns with inner | inner | inner
      · exact (derived.named name inner).left _
      · exact (((ihYes inner).left _).cons close).right cs
      · exact ((((ihNo (by simpa using inner)).cons sign).right ts).cons close).right cs
  | @«while» f d cs ts keyword paren close condition body _ _ derived _ _ ih =>
      intro assigns
      refine (AssignedIn.cons paren ?_).cons keyword
      rcases assignsIn_loop.mp assigns with inner | inner
      · exact (derived.named name inner).left _
      · exact ((ih inner).cons close).right cs
  | @«for» f d is cs ns ts keyword paren semicolon close initial condition increment body s _ _ first
      tested _ stepped _ _ form ih =>
      intro assigns
      refine (AssignedIn.cons paren ?_).cons keyword
      rcases form.named assigns with inner | inner | inner | inner
      · exact (first.named inner).left _
      · exact ((tested.named inner).left _).right is
      · exact ((((stepped.named inner).left _).cons semicolon).right cs).right is
      · exact (((((ih inner).cons close).right ns).cons semicolon).right cs).right is
  | function _ _ _ _ _ _ _ _ _ ih =>
      intro assigns
      have inner := (ih (assignsIn_function.mp assigns)).left
      exact (((((inner _).cons _).cons _).right _).cons _ |>.cons _).cons _
  | var read => exact read.named
  | statement _ ih => exact ih
  | none => exact fun assigns => by simp at assigns
  | @more f ts us s ss _ _ ihFirst ihRest =>
      rintro ⟨t, listed, inner⟩
      rcases List.mem_cons.mp listed with rfl | later
      · exact (ihFirst inner).left _
      · exact (ihRest ⟨t, later, inner⟩).right ts

end Grammar

end Treewalk

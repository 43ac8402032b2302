import Treewalk.Proofs.Tree.Readback
import Treewalk.Tree.ReversePolish

/-!
What reverse Polish notation shows of an expression. An expression has such a form exactly when no assignment
and no call lies in it; otherwise the first one in pre-order is named (`ReversePolish.ofExpr_answers`). The form
is a sequence of symbols, which a stack machine turns back into the expression without its groupings and places
(`ReversePolish.foldl_symbols`).
-/

namespace Treewalk

/-! ### Expressions without groupings -/

/-- Assignments and calls. -/
def Expr.formless : Expr → Bool
  | .assign _ _ | .call _ _ _ => true
  | _ => false

mutual

/-- The expression with every grouping replaced by its content. -/
def Expr.ungrouped : Expr → Expr
  | .literal c => .literal c
  | .grouping e => e.ungrouped
  | .unary op e => .unary op e.ungrouped
  | .binary left op right => .binary left.ungrouped op right.ungrouped
  | .logical left op right => .logical left.ungrouped op right.ungrouped
  | .ternary condition yes no => .ternary condition.ungrouped yes.ungrouped no.ungrouped
  | .variable name => .variable name
  | .assign name value => .assign name value.ungrouped
  | .call callee paren arguments => .call callee.ungrouped paren (Expr.ungroupedAll arguments)
  | .misplaced found => .misplaced found

/-- Expressions without groupings. -/
def Expr.ungroupedAll : List Expr → List Expr
  | [] => []
  | e :: rest => e.ungrouped :: Expr.ungroupedAll rest

end

namespace ReversePolish

open SExpr

/-! ### One level of an expression -/

/-- What an expression adds behind its operands. -/
def mark : Expr → List SExpr
  | .literal c => [c.sexpr]
  | .variable name => [.word name.lexeme]
  | .unary op _ => [.word (unarySign op)]
  | .binary _ op _ | .logical _ op _ => [.word op.lexeme]
  | .ternary _ _ _ => [.word "?:"]
  | .grouping _ | .assign _ _ | .call _ _ _ | .misplaced _ => []

/-- The texts of the operands of an expression, and its own behind them. -/
def join (e : Expr) (parts : List String) : String :=
  " ".intercalate (parts ++ (mark e).map fun s => String.ofList s.text)

variable {e : Expr} {K : Token → Prop} {depth : Nat}

/-- An assignment or a call has no reverse Polish form, and is named as the reason. -/
theorem ofExpr_formless (formless : e.formless = true) : ofExpr (depth + 1) e = .error (.noForm e.form) := by
  cases e <;> simp_all [Expr.formless, ofExpr]

/-- Any other expression puts the forms of its operands in a row and its own mark behind them. -/
theorem ofExpr_formed (fitting : e.Fitting K) (formed : e.formless = false) :
    ofExpr (depth + 1) e = e.children.mapM (ofExpr depth) >>= fun parts => .ok (join e parts) := by
  cases e with
  | assign | call => cases formed
  | misplaced => exact fitting.elim
  | literal c => simp [ofExpr, join, mark, Expr.children, Constant.text_sexpr]
  | «variable» => simp [ofExpr, join, mark, Expr.children, SExpr.text]
  | grouping inner | unary op inner =>
      simp only [ofExpr, Expr.children, List.mapM_cons, List.mapM_nil]
      cases ofExpr depth inner <;> simp [bind, Except.bind, join, mark, pure, Except.pure, SExpr.text]
  | binary left op right | logical left op right =>
      simp only [ofExpr, Expr.children, List.mapM_cons, List.mapM_nil]
      cases ofExpr depth left <;> cases ofExpr depth right <;>
        simp [bind, Except.bind, join, mark, pure, Except.pure, SExpr.text]
  | ternary condition yes no =>
      simp only [ofExpr, Expr.children, List.mapM_cons, List.mapM_nil]
      cases ofExpr depth condition <;> cases ofExpr depth yes <;> cases ofExpr depth no <;>
        simp [bind, Except.bind, join, mark, pure, Except.pure, SExpr.text]

/-- An expression has no form, or its own is joined from those of its operands. -/
theorem ofExpr_succ (depth : Nat) (fitting : e.Fitting K) :
    (e.formless = true ∧ ofExpr (depth + 1) e = .error (.noForm e.form)) ∨
    (e.formless = false ∧
      ofExpr (depth + 1) e = e.children.mapM (ofExpr depth) >>= fun parts => .ok (join e parts)) := by
  cases formless : e.formless with
  | true => exact .inl ⟨rfl, ofExpr_formless formless⟩
  | false => exact .inr ⟨rfl, ofExpr_formed fitting formless⟩

/-! ### The first fault -/

/-- A result agrees with the first part that has no form: it names that part, or it is a value because there is
none, unless the depth ran out. -/
def Answers {α : Type} (first : Option Expr) : Except PolishFault α → Prop
  | .ok _ => first = none
  | .error .tooDeep => True
  | .error (.noForm form) => first.map Expr.form = some form

namespace Answers

variable {α β : Type} {first second : Option Expr} {x : Except PolishFault α}

/-- A result in two steps agrees with what the first step finds without a form, or else with what the second
one finds. -/
theorem bind {k : α → Except PolishFault β} (here : Answers first x) (later : ∀ a, Answers second (k a)) :
    Answers (first.or second) (x >>= k) := by
  cases x with
  | ok a =>
      rw [show first = none from here, Option.none_or]
      exact later a
  | error fault =>
      cases fault with
      | tooDeep => trivial
      | noForm form =>
          obtain ⟨d, rfl, named⟩ := Option.map_eq_some_iff.mp here
          exact congrArg some named

theorem finish (here : Answers first x) (g : α → β) : Answers first (x >>= fun a => .ok (g a)) := by
  have whole : Answers (first.or none) (x >>= fun a => .ok (g a)) := here.bind fun a => rfl
  rwa [Option.or_none] at whole

/-- A row of results agrees with the first part without a form among its members. By induction over the row. -/
theorem mapM {f : α → Except PolishFault β} {first : α → Option Expr} {cs : List α}
    (each : ∀ c ∈ cs, Answers (first c) (f c)) : Answers (cs.findSome? first) (cs.mapM f) := by
  induction cs with
  | nil => simp [Answers, pure, Except.pure]
  | cons c cs ih =>
      have split : (c :: cs).findSome? first = (first c).or (cs.findSome? first) := by
        cases found : first c <;> simp [found]
      have later := ih fun d listed => each d (by simp [listed])
      rw [List.mapM_cons, split]
      exact (each c (by simp)).bind fun value => later.finish (value :: ·)

end Answers

/-- Every result agrees with the first assignment or call in pre-order. By induction over the depth, where the
operands of each level are tried from left to right. -/
theorem ofExpr_answers (formed : e.WellFormed K) : Answers (e.preorder.find? Expr.formless) (ofExpr depth e) := by
  induction depth generalizing e with
  | zero => trivial
  | succ depth ih =>
      obtain ⟨fitting, operands⟩ := Expr.wellFormed_iff.mp formed
      -- Operands are written from left to right, as the pre-order lists them, and the first fault ends it.
      rw [Expr.preorder_eq, List.find?_cons, List.find?_flatMap]
      rcases ofExpr_succ depth fitting with ⟨formless, level⟩ | ⟨polished, level⟩
      · rw [formless, level]
        rfl
      · rw [polished, level]
        exact (Answers.mapM fun c child => ih (operands c child)).finish (join e)

/-- The depth does not run out if it exceeds the size, so for every expression some depth is enough. -/
theorem ofExpr_ne_tooDeep (formed : e.WellFormed K) (enough : sizeOf e < depth) :
    ofExpr depth e ≠ .error .tooDeep := by
  induction depth generalizing e with
  | zero => omega
  | succ depth ih =>
      obtain ⟨fitting, operands⟩ := Expr.wellFormed_iff.mp formed
      rcases ofExpr_succ depth fitting with ⟨-, level⟩ | ⟨-, level⟩
      · simp [level]
      · intro failed
        rw [level] at failed
        rcases of_bind_eq_error failed with inner | ⟨parts, -, joined⟩
        · obtain ⟨c, child, same⟩ := exists_of_mapM_eq_error inner
          have smaller := Expr.sizeOf_lt_of_mem_children child
          exact ih (operands c child) (by omega) same
        · cases joined

/-! ### Symbols -/

/-- The symbols of an expression: those of its operands, then its own. -/
def symbols : Expr → List SExpr
  | .literal c => [c.sexpr]
  | .variable name => [.word name.lexeme]
  | .grouping e => symbols e
  | .unary op e => symbols e ++ [.word (unarySign op)]
  | .binary left op right | .logical left op right => symbols left ++ symbols right ++ [.word op.lexeme]
  | .ternary condition yes no => symbols condition ++ symbols yes ++ symbols no ++ [.word "?:"]
  | .assign _ _ | .call _ _ _ | .misplaced _ => []

/-- The symbols of an expression with a form are those of its operands, and its mark. -/
theorem symbols_eq (formed : e.formless = false) : symbols e = e.children.flatMap symbols ++ mark e := by
  cases e <;> simp_all [Expr.formless, symbols, mark, Expr.children]

/-- Joining texts by blanks is writing the symbols in a row. -/
theorem toList_join (fitting : e.Fitting K) (formed : e.formless = false) {parts : List String}
    (each : parts.map (fun part => ' ' :: part.toList) = e.children.map (fun c => trailing (symbols c))) :
    ' ' :: (join e parts).toList = trailing (symbols e) := by
  have operands : (parts.map String.toList).flatMap (' ' :: ·) = trailing (e.children.flatMap symbols) := by
    rw [trailing_flatMap, List.flatMap_map, List.flatMap_def, each]
  have nonempty : parts ++ (mark e).map (fun s => String.ofList s.text) ≠ [] := by
    cases e with
    | assign | call => cases formed
    | misplaced => exact fitting.elim
    | grouping =>
        intro empty
        simp_all [Expr.children]
    | _ => simp [mark]
  obtain ⟨head, rest, joined⟩ := List.exists_cons_of_ne_nil nonempty
  rw [join, joined, toList_intercalate_cons, ← joined, List.map_append, List.flatMap_append, operands,
    symbols_eq formed, trailing_append, trailing_eq (mark e), List.map_map]
  simp [Function.comp_def]

/-- The text is that of the symbols, each behind a blank. So the form as a text and the form as a row of symbols
say the same. -/
theorem ofExpr_text (formed : e.WellFormed K) {text : String} (ok : ofExpr depth e = .ok text) :
    ' ' :: text.toList = trailing (symbols e) := by
  induction depth generalizing e text with
  | zero => cases ok
  | succ depth ih =>
      obtain ⟨fitting, operands⟩ := Expr.wellFormed_iff.mp formed
      rcases ofExpr_succ depth fitting with ⟨-, level⟩ | ⟨polished, level⟩
      · simp [level] at ok
      · rw [level] at ok
        obtain ⟨parts, shown, ok⟩ := exists_of_bind_eq_ok ok
        cases ok
        exact toList_join fitting polished
          (map_eq_of_mapM_eq_ok (fun c child _ ok => ih (operands c child) ok) shown)

/-- Groupings leave no trace in reverse Polish order, since the order of the symbols tells which operands belong
to which operator. -/
theorem symbols_ungrouped (e : Expr) : symbols e.ungrouped = symbols e := by
  induction e using Expr.children_induction with
  | step e ih => cases e <;> simp_all [Expr.ungrouped, symbols, Expr.children]

@[simp]
theorem unarySign_unplaced (op : Token) : unarySign op.unplaced = unarySign op := rfl

theorem symbols_unplaced (e : Expr) : symbols e.unplaced = symbols e := by
  induction e using Expr.children_induction with
  | step e ih =>
      cases e with
      | misplaced found => cases found <;> simp [Expr.unplaced, symbols]
      | _ => simp_all [Expr.unplaced, symbols, Expr.children]

theorem sound_mark (legible : e.Legible) : ∀ s ∈ mark e, s.Sound := by
  have fitting := legible.fitting
  cases e with
  | assign | call | misplaced | grouping => simp [mark]
  | literal c => simpa [mark] using legible.sound_constant
  | «variable» name =>
      obtain ⟨scanned, kind⟩ := fitting
      simpa [mark] using scanned.sound_word (by rw [kind]; decide)
  | unary op operand =>
      obtain ⟨scanned, kind⟩ := fitting
      have tilde : (SExpr.word "~").Sound := .word (by decide)
      have operator := scanned.sound_operator (unary_mem_operatorKinds kind)
      rw [mark, unarySign]
      split <;> simpa
  | binary left op right =>
      obtain ⟨scanned, kind⟩ := fitting
      simpa [mark] using scanned.sound_operator (binary_mem_operatorKinds kind)
  | logical left op right =>
      obtain ⟨scanned, kind⟩ := fitting
      simpa [mark] using scanned.sound_operator (logical_mem_operatorKinds kind)
  | ternary =>
      have sign : (SExpr.word "?:").Sound := .word (by decide)
      simpa [mark] using sign

/-- The symbols of a legible expression can be told apart in its text. None of them holds a blank outside
of quotes. -/
theorem sound_symbols (legible : e.Legible) : ∀ s ∈ symbols e, s.Sound := by
  induction e using Expr.children_induction with
  | step e ih =>
      by_cases formless : e.formless = true
      · cases e <;> simp_all [Expr.formless, symbols]
      · intro s listed
        rw [symbols_eq (by simpa using formless), List.mem_append, List.mem_flatMap] at listed
        rcases listed with ⟨c, child, inside⟩ | own
        · exact ih c child (legible.child child) s inside
        · exact sound_mark legible s own

/-! ### The stack machine -/

/-- One symbol on a stack of expressions: an operator takes its operands from the stack. -/
noncomputable def step (stack : List Expr) : SExpr → List Expr
  | .word w =>
    let op := Token.ofLexeme w
    if w = "?:" then .ternary (stack.getD 2 default) (stack.getD 1 default) (stack.getD 0 default) :: stack.drop 3
    else if w = "~" then .unary (Token.ofLexeme "-") (stack.getD 0 default) :: stack.drop 1
    -- The outline of a negative number begins with a minus sign, so that numerals come before operators.
    else if (Numeral.denoted? w.toList).isSome ∨ op.kind ∉ operatorKinds then Expr.ofAtom (.word w) :: stack
    else if op.kind = .bang then .unary op (stack.getD 0 default) :: stack.drop 1
    else if op.kind = .andWord ∨ op.kind = .orWord then
      .logical (stack.getD 1 default) op (stack.getD 0 default) :: stack.drop 2
    else .binary (stack.getD 1 default) op (stack.getD 0 default) :: stack.drop 2
  | s => Expr.ofAtom s :: stack

variable {stack : List Expr}

/-- A word that is a numeral or no operator is put on the stack as a literal or a name. -/
theorem step_atom {w : String} (atom : (Numeral.denoted? w.toList).isSome ∨
    (Token.ofLexeme w).kind ∉ .endOfInput :: .question :: operatorKinds) :
    step stack (.word w) = Expr.ofAtom (.word w) :: stack := by
  have unlike {other : String} (numberless : Numeral.denoted? other.toList = none)
      (kind : (Token.ofLexeme other).kind ∈ [.endOfInput, .question]) : w ≠ other := by
    rintro rfl
    rcases atom with numeral | other
    · simp [numberless] at numeral
    · exact other (List.mem_append_left operatorKinds kind)
  rw [step, if_neg (unlike (by decide +kernel) (by decide)), if_neg (unlike (by decide +kernel) (by decide)), if_pos]
  exact atom.imp_right fun other listed => other (by simp [listed])

/-- An operator takes its operands from the stack, as many as it has, the last one first, and puts the tree of
the operation there. -/
theorem step_operator {op : Token} (scanned : op.Scanned) (operator : op.kind ∈ operatorKinds) :
    step stack (.word op.lexeme) =
      if op.kind = .bang then .unary op.unplaced (stack.getD 0 default) :: stack.drop 1
      else if op.kind = .andWord ∨ op.kind = .orWord then
        .logical (stack.getD 1 default) op.unplaced (stack.getD 0 default) :: stack.drop 2
      else .binary (stack.getD 1 default) op.unplaced (stack.getD 0 default) :: stack.drop 2 := by
  have unlike {other : String} (kind : (Token.ofLexeme other).kind ∉ operatorKinds) : op.lexeme ≠ other :=
    scanned.operator_ne operator kind
  have spelled := scanned.spelled_operator operator
  have numberless := spelled.lexeme.denoted?_eq_none fun same => absurd operator (by rw [same]; decide)
  simp only [step, spelled.ofLexeme_eq]
  rw [if_neg (unlike (by decide)), if_neg (unlike (by decide)),
    if_neg (by simp [numberless, Token.unplaced, operator])]
  rfl

/-- The sign of an operator with one operand is written apart from that with two, so the machine knows how many
operands to take. -/
theorem step_unarySign {op : Token} (scanned : op.Scanned) (kind : op.kind = .bang ∨ op.kind = .minus) :
    step stack (.word (unarySign op)) = .unary op.unplaced (stack.getD 0 default) :: stack.drop 1 := by
  rcases kind with kind | kind
  · have spelled := scanned.spelled (by rw [kind]; decide)
    have unlike : op.lexeme ≠ "-" := spelled.lexeme_ne (by rw [kind]; decide)
    rw [unarySign, if_neg unlike, step_operator scanned (unary_mem_operatorKinds (.inl kind)), if_pos kind]
  · have spelled := scanned.spelled (by rw [kind]; decide)
    have minus : op.lexeme = "-" := spelled.lexeme_sign "-" (by rw [kind]; decide)
    rw [unarySign, if_pos minus, ← spelled.ofLexeme_eq, minus]
    rfl

theorem step_literal {c : Constant} (legible : (Expr.literal c).Legible) :
    step stack c.sexpr = .literal c :: stack := by
  rw [← Expr.ofAtom_literal legible]
  rcases legible.constant with rfl | ⟨b, rfl⟩ | ⟨x, rfl, finite⟩ | ⟨s, rfl, unquoted⟩
  · exact step_atom (.inr (by decide))
  · cases b <;> exact step_atom (.inr (by decide))
  · obtain ⟨m, e, parts⟩ := Binary.isFinite_iff.mp finite
    exact step_atom (.inl (by rw [Number.denoted?_outline parts]; rfl))
  · rfl

theorem step_variable {name : Token} (scanned : name.Scanned) (kind : name.kind = .identifier) :
    step stack (.word name.lexeme) = .variable name.unplaced :: stack := by
  have spelled := scanned.spelled (by rw [kind]; decide)
  rw [← Expr.ofAtom_variable spelled kind]
  refine step_atom (.inr ?_)
  rw [spelled.ofLexeme_eq, Token.unplaced, kind]
  decide

/-- The machine puts an expression with a form on the stack, without groupings and places, and leaves what lay
below it. By induction over the expression. -/
theorem foldl_symbols (legible : e.Legible) (polished : ∀ d : Expr, d.Within e → d.formless = false) :
    (symbols e).foldl step stack = e.ungrouped.unplaced :: stack := by
  -- For every stack, since the operands before an operand are still there when it is read.
  induction e using Expr.children_induction generalizing stack with
  | step e ih =>
      have operand {c : Expr} (child : c ∈ e.children) (stack : List Expr) :
          (symbols c).foldl step stack = c.ungrouped.unplaced :: stack :=
        ih c child (legible.child child) fun d within => polished d (.deeper child within)
      have fitting := legible.fitting
      have formed := polished e .here
      cases e with
      | assign | call => cases formed
      | misplaced => exact fitting.elim
      | literal c => simp [symbols, step_literal legible, Expr.ungrouped, Expr.unplaced]
      | «variable» name =>
          obtain ⟨scanned, kind⟩ := fitting
          simp [symbols, step_variable scanned kind, Expr.ungrouped, Expr.unplaced]
      | grouping inner => simpa [symbols, Expr.ungrouped] using operand (c := inner) (by simp [Expr.children]) stack
      | unary op inner =>
          obtain ⟨scanned, kind⟩ := fitting
          have first := operand (c := inner) (by simp [Expr.children])
          simp [symbols, first, step_unarySign scanned kind, Expr.ungrouped, Expr.unplaced]
      | binary left op right =>
          obtain ⟨scanned, kind⟩ := fitting
          have first := operand (c := left) (by simp [Expr.children])
          have second := operand (c := right) (by simp [Expr.children])
          have others : ∀ kind ∈ binaryOperators, kind ≠ .bang ∧ ¬ (kind = .andWord ∨ kind = .orWord) := by
            decide
          rw [symbols, List.foldl_append, List.foldl_append, first, second, List.foldl_cons,
            step_operator scanned (binary_mem_operatorKinds kind), if_neg (others _ kind).1,
            if_neg (others _ kind).2]
          simp [Expr.ungrouped, Expr.unplaced]
      | logical left op right =>
          obtain ⟨scanned, kind⟩ := fitting
          have first := operand (c := left) (by simp [Expr.children])
          have second := operand (c := right) (by simp [Expr.children])
          have other : op.kind ≠ .bang := by rcases kind with kind | kind <;> rw [kind] <;> decide
          rw [symbols, List.foldl_append, List.foldl_append, first, second, List.foldl_cons,
            step_operator scanned (logical_mem_operatorKinds kind), if_neg other, if_pos kind]
          simp [Expr.ungrouped, Expr.unplaced]
      | ternary condition yes no =>
          have tested := operand (c := condition) (by simp [Expr.children])
          have first := operand (c := yes) (by simp [Expr.children])
          have second := operand (c := no) (by simp [Expr.children])
          simp [symbols, tested, first, second, step, Expr.ungrouped, Expr.unplaced]

/-- The text decides the symbols, as each symbol can be told apart from what follows it. -/
theorem symbols_eq_of_trailing_eq {e' : Expr} (legible : e.Legible) (legible' : e'.Legible)
    (same : trailing (symbols e) = trailing (symbols e')) : symbols e = symbols e' := by
  have lists : SExpr.list (symbols e) = .list (symbols e') :=
    Sound.eq_of_text_eq (sound_list.mpr (sound_symbols legible)) (sound_list.mpr (sound_symbols legible'))
      (by rw [SExpr.text, SExpr.text, same])
  exact SExpr.list.inj lists

/-- A result other than for want of depth: a text if no assignment and no call lies in the expression, and the
name of the first one otherwise. -/
theorem ofExpr_verdict (formed : e.WellFormed K) (enough : ofExpr depth e ≠ .error .tooDeep) :
    ((∃ text, ofExpr depth e = .ok text) ↔ ∀ d : Expr, d.Within e → d.formless = false) ∧
    ∀ d, e.preorder.find? Expr.formless = some d → ofExpr depth e = .error (.noForm d.form) := by
  have answers : Answers _ (ofExpr depth e) := ofExpr_answers formed
  have polished : e.preorder.find? Expr.formless = none ↔ ∀ d : Expr, d.Within e → d.formless = false := by
    simp [List.find?_eq_none, Expr.mem_preorder_iff]
  rw [← polished]
  cases result : ofExpr depth e with
  | ok text =>
      rw [result] at answers
      simp [show e.preorder.find? Expr.formless = none from answers]
  | error fault =>
      rw [result] at answers
      cases fault with
      | tooDeep => exact absurd result enough
      | noForm form =>
          obtain ⟨d, found, rfl⟩ := Option.map_eq_some_iff.mp answers
          simp [found]

/-- Two forms are the same exactly when the expressions are, apart from groupings and places. The machine
rebuilds the expression from the form. -/
theorem ofExpr_eq_iff {e' : Expr} {limit limit' : Nat} {text text' : String} (legible : e.Legible)
    (legible' : e'.Legible) (shown : ofExpr limit e = .ok text) (shown' : ofExpr limit' e' = .ok text') :
    text = text' ↔ e.ungrouped.unplaced = e'.ungrouped.unplaced := by
  have written := ofExpr_text legible.formed shown
  have written' := ofExpr_text legible'.formed shown'
  constructor
  · intro same
    have polished := (ofExpr_verdict legible.formed (by simp [shown])).1.mp ⟨text, shown⟩
    have polished' := (ofExpr_verdict legible'.formed (by simp [shown'])).1.mp ⟨text', shown'⟩
    have sequences := symbols_eq_of_trailing_eq legible legible' (by rw [← written, ← written', same])
    have machines := @foldl_symbols e [] legible polished
    rw [sequences, foldl_symbols legible' polished'] at machines
    exact (List.cons.inj machines).1.symm
  · intro same
    have sequences : symbols e = symbols e' := by
      rw [← symbols_ungrouped, ← symbols_unplaced, same, symbols_unplaced, symbols_ungrouped]
    rw [sequences, ← written'] at written
    exact String.toList_inj.mp (List.cons.inj written).2

end ReversePolish

namespace Program

open ReversePolish

/-- **Reverse Polish forms are faithful.** Of two expressions from programs that were read: with depth enough,
the first has a reverse Polish form exactly when no assignment and no call lies in it, and otherwise the first
of these in pre-order is named; and if both have a form and finite numbers, the forms are the same exactly when
the expressions are, apart from groupings and places. -/
theorem reverse_polish_faithful {depth depth' : Nat} {source source' : String} {p p' : Program}
    (read : ofSource depth source = some p) (read' : ofSource depth' source' = some p') {t t' : Stmt}
    (listed : t ∈ p.statements) (listed' : t' ∈ p'.statements) {e e' : Expr} (mentions : t.Mentions e)
    (mentions' : t'.Mentions e') :
    (∃ enough, ∀ limit ≥ enough, ofExpr limit e ≠ .error .tooDeep) ∧
    (∀ limit, ofExpr limit e ≠ .error .tooDeep →
      ((∃ text, ofExpr limit e = .ok text) ↔ ∀ d : Expr, d.Within e → d.formless = false) ∧
      ∀ d, e.preorder.find? Expr.formless = some d → ofExpr limit e = .error (.noForm d.form)) ∧
    ((∀ x, (Expr.literal (.number x)).Within e → x.isFinite = true) →
      (∀ x, (Expr.literal (.number x)).Within e' → x.isFinite = true) →
      ∀ limit limit' text text', ofExpr limit e = .ok text → ofExpr limit' e' = .ok text' →
        (text = text' ↔ e.ungrouped.unplaced = e'.ungrouped.unplaced)) := by
  have formed := wellFormed_expression read listed mentions
  have formed' := wellFormed_expression read' listed' mentions'
  refine ⟨⟨sizeOf e + 1, fun limit enough => ?_⟩, fun limit => ofExpr_verdict formed, ?_⟩
  · exact ofExpr_ne_tooDeep formed (by omega)
  · intro finite finite' limit limit' text text' shown shown'
    exact ofExpr_eq_iff ⟨formed, finite⟩ ⟨formed', finite'⟩ shown shown'

/-- A source in which an expression of some sort is found, as a fact about its program. -/
theorem exists_expression (source : String) (check : Expr → Bool)
    (found : ((ofSource 60 source).any fun p => p.statements.any fun t => t.expressions.any check) = true) :
    ∃ p t e, ofSource 60 source = some p ∧ t ∈ p.statements ∧ t.Mentions e ∧ check e = true := by
  obtain ⟨p, read, somewhere⟩ := (Option.any_eq_true _ _).mp found
  obtain ⟨t, listed, direct⟩ := List.any_eq_true.mp somewhere
  obtain ⟨e, under, checked⟩ := List.any_eq_true.mp direct
  exact ⟨p, t, e, read, listed, .direct under .here, checked⟩

/-- Whether an expression has finite numbers and the given form. -/
def shows (text : String) (e : Expr) : Bool :=
  e.preorder.all Expr.isFinite && decide (ofExpr 40 e = .ok text)

/-- Whether an expression has no form, because of an assignment. -/
def assigns (e : Expr) : Bool :=
  decide (ofExpr 40 e ≠ .error .tooDeep) && decide ((e.preorder.find? Expr.formless).map Expr.form = some "Assign")

def plainSource : String := "print a and -(b - 1) ? \"x ~\" : 2;"

/-- The same expression in more groupings. -/
def groupedSource : String := "print a and (-(b - 1) ? (\"x ~\") : 2.0);"

/-- The form of both. -/
def polishText : String := "a b 1.0 - ~ \"x ~\" 2.0 ?: and"

def assigningSource : String := "print 1 + (b = f(c));"

/-- Two spellings of one expression, with groupings and without, have one reverse Polish form. -/
theorem reverse_polish_faithful_grouped :
    (∃ p p' t t' e e', ofSource 60 plainSource = some p ∧ ofSource 60 groupedSource = some p' ∧
      t ∈ p.statements ∧ t' ∈ p'.statements ∧ t.Mentions e ∧ t'.Mentions e' ∧ ofExpr 40 e = .ok polishText ∧
      ofExpr 40 e' = .ok polishText ∧ e.ungrouped.unplaced = e'.ungrouped.unplaced) ∧
    ∃ p t e, ofSource 60 assigningSource = some p ∧ t ∈ p.statements ∧ t.Mentions e ∧
      ofExpr 40 e = .error (.noForm "Assign") := by
  constructor
  · obtain ⟨p, t, e, read, listed, mentions, checked⟩ :=
      exists_expression plainSource (shows polishText) (by decide +kernel)
    obtain ⟨p', t', e', read', listed', mentions', checked'⟩ :=
      exists_expression groupedSource (shows polishText) (by decide +kernel)
    obtain ⟨finite, shown⟩ := Bool.and_eq_true_iff.mp checked
    obtain ⟨finite', shown'⟩ := Bool.and_eq_true_iff.mp checked'
    have form : ofExpr 40 e = .ok polishText := of_decide_eq_true shown
    have form' : ofExpr 40 e' = .ok polishText := of_decide_eq_true shown'
    have trees := (reverse_polish_faithful read read' listed listed' mentions mentions').2.2
      (Expr.finite_of_preorder finite) (Expr.finite_of_preorder finite') 40 40 _ _ form form'
    exact ⟨p, p', t, t', e, e', read, read', listed, listed', mentions, mentions', form, form', trees.mp rfl⟩
  · obtain ⟨p, t, e, read, listed, mentions, checked⟩ :=
      exists_expression assigningSource assigns (by decide +kernel)
    obtain ⟨enough, first⟩ := Bool.and_eq_true_iff.mp checked
    obtain ⟨d, found, form⟩ := Option.map_eq_some_iff.mp (of_decide_eq_true first)
    have verdict := (reverse_polish_faithful read read listed listed mentions mentions).2.1 40
      (of_decide_eq_true enough)
    exact ⟨p, t, e, read, listed, mentions, by rw [verdict.2 d found, form]⟩

end Program

end Treewalk

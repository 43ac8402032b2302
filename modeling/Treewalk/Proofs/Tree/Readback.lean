import Treewalk.Proofs.Tree.Legible

/-!
An outline determines its tree. The outline of a tree is the text of an `SExpr` (`Outline.ofStmt_text`), and the
tree can be rebuilt from that (`Stmt.ofSExpr_sexpr`): what a list stands for is told by its first word, by the
number of its items, and by whether an expression or a statement is expected in its place.
-/

namespace Treewalk

/-! ### Results in steps -/

section

variable {ε α β γ : Type}

/-- A result in two steps has a result in the first, and the second step turns it into the whole. -/
theorem exists_of_bind_eq_ok {x : Except ε α} {f : α → Except ε β} {b : β} (ok : x >>= f = .ok b) :
    ∃ a, x = .ok a ∧ f a = .ok b := by
  cases x with
  | error fault => cases ok
  | ok a => exact ⟨a, rfl, ok⟩

/-- A fault in two steps comes from the first, or from the second after a result of the first. -/
theorem of_bind_eq_error {x : Except ε α} {f : α → Except ε β} {fault : ε} (failed : x >>= f = .error fault) :
    x = .error fault ∨ ∃ a, x = .ok a ∧ f a = .error fault := by
  cases x with
  | error other =>
      cases failed
      exact .inl rfl
  | ok a => exact .inr ⟨a, rfl, failed⟩

/-- A list of results fails like one of them. -/
theorem exists_of_mapM_eq_error {f : α → Except ε β} {cs : List α} {fault : ε} (failed : cs.mapM f = .error fault) :
    ∃ c ∈ cs, f c = .error fault := by
  induction cs with
  | nil => cases failed
  | cons c cs ih =>
      rw [List.mapM_cons] at failed
      rcases of_bind_eq_error failed with here | ⟨value, -, failed⟩
      · exact ⟨c, by simp, here⟩
      rcases of_bind_eq_error failed with later | ⟨rest, -, failed⟩
      · obtain ⟨d, listed, same⟩ := ih later
        exact ⟨d, by simp [listed], same⟩
      · cases failed

/-- What holds of each result holds of the list of them. -/
theorem map_eq_of_mapM_eq_ok {f : α → Except ε β} {g : α → γ} {h : β → γ} {cs : List α} {values : List β}
    (each : ∀ c ∈ cs, ∀ value, f c = .ok value → h value = g c) (ok : cs.mapM f = .ok values) :
    values.map h = cs.map g := by
  induction cs generalizing values with
  | nil =>
      cases ok
      rfl
  | cons c cs ih =>
      rw [List.mapM_cons] at ok
      obtain ⟨value, here, ok⟩ := exists_of_bind_eq_ok ok
      obtain ⟨rest, later, ok⟩ := exists_of_bind_eq_ok ok
      cases ok
      rw [List.map_cons, List.map_cons, each c (by simp) value here,
        ih (fun d listed => each d (by simp [listed])) later]

end

/-! ### Trees as parenthesised texts -/

mutual

def Expr.sexpr : Expr → SExpr
  | .literal c => c.sexpr
  | .grouping e => .list [.word "group", e.sexpr]
  | .unary op e => .list [.word op.lexeme, e.sexpr]
  | .binary left op right => .list [.word op.lexeme, left.sexpr, right.sexpr]
  | .logical left op right => .list [.word op.lexeme, left.sexpr, right.sexpr]
  | .ternary condition yes no => .list [.word "ternary", condition.sexpr, yes.sexpr, no.sexpr]
  | .variable name => .word name.lexeme
  | .assign name value => .list [.word "=", .word name.lexeme, value.sexpr]
  | .call callee _ arguments => .list (.word "call" :: callee.sexpr :: Expr.sexprs arguments)
  | .misplaced none => .list []
  | .misplaced (some s) => s.sexpr

def Expr.sexprs : List Expr → List SExpr
  | [] => []
  | e :: rest => e.sexpr :: Expr.sexprs rest

def Stmt.sexpr : Stmt → SExpr
  | .expression e => .list [.word ";", e.sexpr]
  | .print e => .list [.word "print", e.sexpr]
  | .var name none => .list [.word "var", .word name.lexeme]
  | .var name (some e) => .list [.word "var", .word name.lexeme, e.sexpr]
  | .block body => .list (.word "block" :: Stmt.sexprs body)
  | .branch condition yes none => .list [.word "if", condition.sexpr, yes.sexpr]
  | .branch condition yes (some no) => .list [.word "if", condition.sexpr, yes.sexpr, no.sexpr]
  | .loop condition body => .list [.word "while", condition.sexpr, body.sexpr]
  | .function name parameters body =>
    .list (.word "fun" :: .word name.lexeme :: .list (parameters.map fun t => .word t.lexeme) :: Stmt.sexprs body)
  | .return _ none => .list [.word "return"]
  | .return _ (some e) => .list [.word "return", e.sexpr]
  | .misplaced none => .list []
  | .misplaced (some e) => e.sexpr

def Stmt.sexprs : List Stmt → List SExpr
  | [] => []
  | s :: rest => s.sexpr :: Stmt.sexprs rest

end

theorem Expr.sexprs_eq_map (es : List Expr) : Expr.sexprs es = es.map Expr.sexpr := by
  induction es with
  | nil => simp [Expr.sexprs]
  | cons e rest ih => simp [Expr.sexprs, ih]

theorem Stmt.sexprs_eq_map (ss : List Stmt) : Stmt.sexprs ss = ss.map Stmt.sexpr := by
  induction ss with
  | nil => simp [Stmt.sexprs]
  | cons s rest ih => simp [Stmt.sexprs, ih]

namespace Outline

open SExpr

variable {depth : Nat}

/-- A heading of some words, and parts, are written as the list of those words and parts. Statements and
expressions with headings are all written so. -/
theorem toList_parenthesized {head : String} {parts : List String} (words : List SExpr) {items : List SExpr}
    (heading : ' ' :: head.toList = trailing words) (same : parts.map String.toList = items.map text) :
    (parenthesized head parts).toList = (SExpr.list (words ++ items)).text := by
  have joined : ' ' :: (" ".intercalate (head :: parts)).toList = trailing (words ++ items) := by
    rw [toList_intercalate_cons, List.map_cons, List.flatMap_cons, heading, same, trailing_eq, trailing_eq]
    simp
  rw [parenthesized, SExpr.text, ← joined]
  simp

/-- Several expressions are written one after another, and the first fault ends it. -/
theorem ofExprs_eq_mapM (es : List Expr) : ofExprs depth es = es.mapM (ofExpr depth) := by
  induction es with
  | nil => simp [ofExprs, pure, Except.pure]
  | cons e es ih => rw [ofExprs, List.mapM_cons, ih]

theorem ofStmts_eq_mapM (ss : List Stmt) : ofStmts depth ss = ss.mapM (ofStmt depth) := by
  induction ss with
  | nil => simp [ofStmts, pure, Except.pure]
  | cons s ss ih => rw [ofStmts, List.mapM_cons, ih]

variable {K : Token → Prop}

/-- The outline of an expression is the text of its list form. By induction over the depth, which falls with
every level of the tree. -/
theorem ofExpr_text {e : Expr} (formed : e.WellFormed K) {text : String} (ok : ofExpr depth e = .ok text) :
    text.toList = e.sexpr.text := by
  induction depth generalizing e text with
  | zero => cases e <;> simp_all [ofExpr]
  | succ depth ih =>
      cases e with
      | misplaced found => simp at formed
      | literal c =>
          cases ok
          exact c.text_sexpr.symm
      | «variable» name =>
          cases ok
          rfl
      | grouping inner =>
          rw [Expr.wellFormed_grouping] at formed
          obtain ⟨t, shown, ok⟩ := exists_of_bind_eq_ok ok
          cases ok
          exact toList_parenthesized [.word "group"] rfl (by simp [ih formed shown])
      | unary op operand =>
          rw [Expr.wellFormed_unary] at formed
          obtain ⟨t, shown, ok⟩ := exists_of_bind_eq_ok ok
          cases ok
          exact toList_parenthesized [.word op.lexeme] (by simp [trailing, SExpr.text])
            (by simp [ih formed.2 shown])
      | binary left op right =>
          rw [Expr.wellFormed_binary] at formed
          obtain ⟨l, shown, ok⟩ := exists_of_bind_eq_ok ok
          obtain ⟨r, shown', ok⟩ := exists_of_bind_eq_ok ok
          cases ok
          exact toList_parenthesized [.word op.lexeme] (by simp [trailing, SExpr.text])
            (by simp [ih formed.2.1 shown, ih formed.2.2 shown'])
      | logical left op right =>
          rw [Expr.wellFormed_logical] at formed
          obtain ⟨l, shown, ok⟩ := exists_of_bind_eq_ok ok
          obtain ⟨r, shown', ok⟩ := exists_of_bind_eq_ok ok
          cases ok
          exact toList_parenthesized [.word op.lexeme] (by simp [trailing, SExpr.text])
            (by simp [ih formed.2.1 shown, ih formed.2.2 shown'])
      | ternary condition yes no =>
          rw [Expr.wellFormed_ternary] at formed
          obtain ⟨c, shown, ok⟩ := exists_of_bind_eq_ok ok
          obtain ⟨y, shown', ok⟩ := exists_of_bind_eq_ok ok
          obtain ⟨n, shown'', ok⟩ := exists_of_bind_eq_ok ok
          cases ok
          exact toList_parenthesized [.word "ternary"] rfl
            (by simp [ih formed.1 shown, ih formed.2.1 shown', ih formed.2.2 shown''])
      | assign name value =>
          rw [Expr.wellFormed_assign] at formed
          obtain ⟨v, shown, ok⟩ := exists_of_bind_eq_ok ok
          cases ok
          exact toList_parenthesized [.word "=", .word name.lexeme] (by simp [trailing, SExpr.text])
            (by simp [ih formed.2 shown])
      | call callee paren arguments =>
          rw [Expr.wellFormed_call] at formed
          obtain ⟨f, shown, ok⟩ := exists_of_bind_eq_ok ok
          obtain ⟨args, shown', ok⟩ := exists_of_bind_eq_ok ok
          cases ok
          rw [ofExprs_eq_mapM] at shown'
          have others := map_eq_of_mapM_eq_ok (fun e listed _ ok => ih (formed.2.2 e listed) ok) shown'
          exact toList_parenthesized [.word "call"] rfl
            (by simp [ih formed.2.1 shown, Expr.sexprs_eq_map, others])

/-- The outline of a statement is the text of its list form, as for expressions. -/
theorem ofStmt_text {s : Stmt} (formed : s.WellFormed K) {text : String} (ok : ofStmt depth s = .ok text) :
    text.toList = s.sexpr.text := by
  induction depth generalizing s text with
  | zero => cases s <;> simp_all [ofStmt]
  | succ depth ih =>
      cases s with
      | misplaced found => simp at formed
      | expression e =>
          rw [Stmt.wellFormed_expression] at formed
          obtain ⟨v, shown, ok⟩ := exists_of_bind_eq_ok ok
          cases ok
          exact toList_parenthesized [.word ";"] rfl (by simp [ofExpr_text formed shown])
      | print e =>
          rw [Stmt.wellFormed_print] at formed
          obtain ⟨v, shown, ok⟩ := exists_of_bind_eq_ok ok
          cases ok
          exact toList_parenthesized [.word "print"] rfl (by simp [ofExpr_text formed shown])
      | var name initial =>
          rw [Stmt.wellFormed_var] at formed
          have heading : ' ' :: ("var " ++ name.lexeme).toList =
              trailing [.word "var", .word name.lexeme] := by simp [trailing, SExpr.text]
          cases initial with
          | none =>
              cases ok
              exact toList_parenthesized _ heading rfl
          | some e =>
              obtain ⟨v, shown, ok⟩ := exists_of_bind_eq_ok ok
              cases ok
              exact toList_parenthesized _ heading (by simp [ofExpr_text (formed.2 e rfl) shown])
      | block body =>
          rw [Stmt.wellFormed_block] at formed
          obtain ⟨parts, shown, ok⟩ := exists_of_bind_eq_ok ok
          cases ok
          rw [ofStmts_eq_mapM] at shown
          have others := map_eq_of_mapM_eq_ok (fun t listed _ ok => ih (formed t listed) ok) shown
          exact toList_parenthesized [.word "block"] rfl (by simp [Stmt.sexprs_eq_map, others])
      | branch condition yes no =>
          rw [Stmt.wellFormed_branch] at formed
          obtain ⟨-, tested, first, second⟩ := formed
          cases no with
          | none =>
              obtain ⟨c, shown, ok⟩ := exists_of_bind_eq_ok ok
              obtain ⟨y, shown', ok⟩ := exists_of_bind_eq_ok ok
              cases ok
              exact toList_parenthesized [.word "if"] rfl (by simp [ofExpr_text tested shown, ih first shown'])
          | some no =>
              obtain ⟨c, shown, ok⟩ := exists_of_bind_eq_ok ok
              obtain ⟨y, shown', ok⟩ := exists_of_bind_eq_ok ok
              obtain ⟨n, shown'', ok⟩ := exists_of_bind_eq_ok ok
              cases ok
              exact toList_parenthesized [.word "if"] rfl
                (by simp [ofExpr_text tested shown, ih first shown', ih (second no rfl) shown''])
      | loop condition body =>
          rw [Stmt.wellFormed_loop] at formed
          obtain ⟨c, shown, ok⟩ := exists_of_bind_eq_ok ok
          obtain ⟨b, shown', ok⟩ := exists_of_bind_eq_ok ok
          cases ok
          exact toList_parenthesized [.word "while"] rfl
            (by simp [ofExpr_text formed.2.1 shown, ih formed.2.2 shown'])
      | function name parameters body =>
          rw [Stmt.wellFormed_function] at formed
          obtain ⟨parts, shown, ok⟩ := exists_of_bind_eq_ok ok
          cases ok
          have names : (" ".intercalate (parameters.map Token.lexeme)).toList =
              (trailing (parameters.map fun t => .word t.lexeme)).drop 1 := by
            apply toList_intercalate
            simp [Function.comp_def, SExpr.text]
          rw [ofStmts_eq_mapM] at shown
          have others := map_eq_of_mapM_eq_ok (fun t listed _ ok => ih (formed.2 t listed) ok) shown
          apply toList_parenthesized
            [.word "fun", .word name.lexeme, .list (parameters.map fun t => .word t.lexeme)]
          · simp [trailing, SExpr.text, names]
          · simp [Stmt.sexprs_eq_map, others]
      | «return» keyword value =>
          rw [Stmt.wellFormed_return] at formed
          cases value with
          | none =>
              cases ok
              rfl
          | some e =>
              obtain ⟨v, shown, ok⟩ := exists_of_bind_eq_ok ok
              cases ok
              exact toList_parenthesized [.word "return"] rfl (by simp [ofExpr_text (formed.2 e rfl) shown])

end Outline

/-! ### Words and quoted texts that can be told apart -/

/-- The kinds of all operators. -/
def operatorKinds : List TokenKind := .bang :: .andWord :: .orWord :: binaryOperators

theorem SExpr.sound_heading {word : String}
    (listed : word ∈ ["group", "ternary", "=", "call", ";", "print", "var", "block", "if", "while", "fun",
      "return"]) :
    (SExpr.word word).Sound := by
  have words : ∀ word ∈ ["group", "ternary", "=", "call", ";", "print", "var", "block", "if", "while", "fun",
      "return"], IsWord word.toList := by decide
  exact .word (words word listed)

section

variable {kind : TokenKind}

theorem unary_mem_operatorKinds (unary : kind = .bang ∨ kind = .minus) : kind ∈ operatorKinds := by
  rcases unary with rfl | rfl <;> decide

theorem binary_mem_operatorKinds (binary : kind ∈ binaryOperators) : kind ∈ operatorKinds := by
  simp [operatorKinds, binary]

theorem logical_mem_operatorKinds (logical : kind = .andWord ∨ kind = .orWord) : kind ∈ operatorKinds := by
  rcases logical with rfl | rfl <;> decide

end

namespace Token.Scanned

variable {op : Token}

/-- The lexeme of an operator may stand as a word, since no operator is a parenthesis or a string. -/
theorem sound_operator (scanned : op.Scanned) (operator : op.kind ∈ operatorKinds) :
    (SExpr.word op.lexeme).Sound := by
  have others : ∀ kind ∈ operatorKinds, kind ∉ [.endOfInput, .leftParen, .rightParen, .string] := by decide
  exact scanned.sound_word (others _ operator)

/-- An operator is spelled as its kind demands, so its kind is known from its word. -/
theorem spelled_operator (scanned : op.Scanned) (operator : op.kind ∈ operatorKinds) : op.Spelled :=
  scanned.spelled fun same => absurd operator (by rw [same]; decide)

/-- An operator is written like no word that is read as anything else, so headings that are operators are told
from all others. -/
theorem operator_ne (scanned : op.Scanned) (operator : op.kind ∈ operatorKinds) {other : String}
    (kind : (Token.ofLexeme other).kind ∉ operatorKinds) : op.lexeme ≠ other :=
  (scanned.spelled_operator operator).lexeme_ne fun same => kind (same ▸ operator)

end Token.Scanned

/-- A legible expression is written soundly: reading the text back finds the same lists and words. -/
theorem Expr.Legible.sound {e : Expr} (legible : e.Legible) : e.sexpr.Sound := by
  induction e using children_induction with
  | step e ih =>
      have part : ∀ c ∈ e.children, c.sexpr.Sound := fun c child => ih c child (legible.child child)
      have fitting := legible.fitting
      cases e with
      | misplaced found => exact fitting.elim
      | literal c => exact legible.sound_constant
      | «variable» name =>
          obtain ⟨scanned, kind⟩ := fitting
          exact scanned.sound_word (by rw [kind]; decide)
      | grouping inner =>
          simpa [sexpr, SExpr.sound_list, SExpr.sound_heading, children] using part
      | unary op operand =>
          obtain ⟨scanned, kind⟩ := fitting
          have operator := scanned.sound_operator (unary_mem_operatorKinds kind)
          simpa [sexpr, SExpr.sound_list, operator, children] using part
      | binary left op right =>
          obtain ⟨scanned, kind⟩ := fitting
          have operator := scanned.sound_operator (binary_mem_operatorKinds kind)
          simpa [sexpr, SExpr.sound_list, operator, children] using part
      | logical left op right =>
          obtain ⟨scanned, kind⟩ := fitting
          have operator := scanned.sound_operator (logical_mem_operatorKinds kind)
          simpa [sexpr, SExpr.sound_list, operator, children] using part
      | ternary condition yes no =>
          simpa [sexpr, SExpr.sound_list, SExpr.sound_heading, children] using part
      | assign name value =>
          obtain ⟨scanned, kind⟩ := fitting
          have word := scanned.sound_word (by rw [kind]; decide)
          simpa [sexpr, SExpr.sound_list, SExpr.sound_heading, word, children] using part
      | call callee paren arguments =>
          simpa [sexpr, sexprs_eq_map, SExpr.sound_list, SExpr.sound_heading, children] using part

/-- A legible statement is written soundly, by induction over its parts and with the same for
its expressions. -/
theorem Stmt.Legible.sound {s : Stmt} (legible : s.Legible) : s.sexpr.Sound := by
  induction s using parts_induction with
  | step s ih =>
      have inner : ∀ t ∈ s.parts, t.sexpr.Sound := fun t part => ih t part (legible.part part)
      have value : ∀ e ∈ s.expressions, e.sexpr.Sound := fun e listed => (legible.expression listed).sound
      have fitting := legible.fitting
      cases s with
      | misplaced found => exact fitting.elim
      | expression e | print e =>
          simpa [sexpr, SExpr.sound_list, SExpr.sound_heading, expressions] using value
      | var name initial =>
          obtain ⟨scanned, kind⟩ := fitting
          have word := scanned.sound_word (by rw [kind]; decide)
          cases initial with
          | none => simp [sexpr, SExpr.sound_list, SExpr.sound_heading, word]
          | some e => simpa [sexpr, SExpr.sound_list, SExpr.sound_heading, word, expressions] using value
      | block body =>
          simpa [sexpr, sexprs_eq_map, SExpr.sound_list, SExpr.sound_heading, parts] using inner
      | branch condition yes no =>
          cases no with
          | none =>
              simpa [sexpr, SExpr.sound_list, SExpr.sound_heading, expressions, parts] using And.intro value inner
          | some no =>
              simpa [sexpr, SExpr.sound_list, SExpr.sound_heading, expressions, parts] using And.intro value inner
      | loop condition body =>
          simpa [sexpr, SExpr.sound_list, SExpr.sound_heading, expressions, parts] using And.intro value inner
      | function name parameters body =>
          obtain ⟨⟨scanned, kind⟩, each⟩ := fitting
          have word := scanned.sound_word (by rw [kind]; decide)
          have words : ∀ t ∈ parameters, (SExpr.word t.lexeme).Sound :=
            fun t listed => (each t listed).1.sound_word (by rw [(each t listed).2]; decide)
          simpa [sexpr, sexprs_eq_map, SExpr.sound_list, SExpr.sound_heading, word, parts]
            using And.intro words inner
      | «return» keyword result =>
          cases result with
          | none => simp [sexpr, SExpr.sound_list, SExpr.sound_heading]
          | some e => simpa [sexpr, SExpr.sound_list, SExpr.sound_heading, expressions] using value

/-! ### Rebuilding -/

namespace SExpr

/-- The items of a list. -/
@[simp]
def items : SExpr → List SExpr
  | .list items => items
  | .word _ | .quoted _ => []

/-- The word, or nothing. -/
@[simp]
def spelling : SExpr → String
  | .word w => w
  | .quoted _ | .list _ => ""

end SExpr

/-- The expression with the given items, of which `values` are the expressions. -/
def Expr.build (items : List SExpr) (values : List Expr) : Expr :=
  let head := (items.headD (.list [])).spelling
  let op := Token.ofLexeme head
  let first := values.getD 1 default
  let second := values.getD 2 default
  -- A variable may be named `call` or `group`, but a variable is never the head of a list.
  if head = "call" then .call first (.ofLexeme "(") (values.drop 2)
  else if head = "group" then .grouping first
  else if head = "ternary" then .ternary first second (values.getD 3 default)
  else if head = "=" then .assign (.ofLexeme (items.getD 1 (.list [])).spelling) second
  else if op.kind = .andWord ∨ op.kind = .orWord then .logical first op second
  else if values.length = 2 then .unary op first
  else .binary first op second

/-- The statement with the given items, of which `values` are the expressions and `bodies` the statements. -/
def Stmt.build (items : List SExpr) (values : List Expr) (bodies : List Stmt) : Stmt :=
  let head := (items.headD (.list [])).spelling
  let name := Token.ofLexeme (items.getD 1 (.list [])).spelling
  let first := values.getD 1 default
  if head = "block" then .block bodies.tail
  else if head = "fun" then
    .function name ((items.getD 2 (.list [])).items.map fun s => .ofLexeme s.spelling) (bodies.drop 3)
  else if head = "var" then .var name values[2]?
  else if head = "return" then .return (.ofLexeme "return") values[1]?
  else if head = "if" then .branch first (bodies.getD 2 default) bodies[3]?
  else if head = "while" then .loop first (bodies.getD 2 default)
  else if head = "print" then .print first
  else .expression first

mutual

/-- The expression that an outline stands for. -/
noncomputable def Expr.ofSExpr : SExpr → Expr
  | .list items => Expr.build items (Expr.ofSExprs items)
  | .word w => Expr.ofAtom (.word w)
  | .quoted s => Expr.ofAtom (.quoted s)

noncomputable def Expr.ofSExprs : List SExpr → List Expr
  | [] => []
  | s :: more => Expr.ofSExpr s :: Expr.ofSExprs more

end

mutual

/-- The statement that an outline stands for. -/
noncomputable def Stmt.ofSExpr : SExpr → Stmt
  | .list items => Stmt.build items (Expr.ofSExprs items) (Stmt.ofSExprs items)
  | .word _ | .quoted _ => default

noncomputable def Stmt.ofSExprs : List SExpr → List Stmt
  | [] => []
  | s :: more => Stmt.ofSExpr s :: Stmt.ofSExprs more

end

theorem Expr.ofSExprs_eq_map (items : List SExpr) : Expr.ofSExprs items = items.map Expr.ofSExpr := by
  induction items with
  | nil => simp [Expr.ofSExprs]
  | cons s more ih => simp [Expr.ofSExprs, ih]

theorem Stmt.ofSExprs_eq_map (items : List SExpr) : Stmt.ofSExprs items = items.map Stmt.ofSExpr := by
  induction items with
  | nil => simp [Stmt.ofSExprs]
  | cons s more ih => simp [Stmt.ofSExprs, ih]

namespace Expr

/-- The heading of an operator is read as that operator, and is no other heading. -/
theorem build_operator {op : Token} {rest : List SExpr} {values : List Expr} (scanned : op.Scanned)
    (operator : op.kind ∈ operatorKinds) :
    build (.word op.lexeme :: rest) values =
      if op.kind = .andWord ∨ op.kind = .orWord then
        .logical (values.getD 1 default) op.unplaced (values.getD 2 default)
      else if values.length = 2 then .unary op.unplaced (values.getD 1 default)
      else .binary (values.getD 1 default) op.unplaced (values.getD 2 default) := by
  have unlike {other : String} (kind : (Token.ofLexeme other).kind ∉ operatorKinds) : op.lexeme ≠ other :=
    scanned.operator_ne operator kind
  rw [build]
  simp only [List.headD_cons, SExpr.spelling, (scanned.spelled_operator operator).ofLexeme_eq]
  rw [if_neg (unlike (by decide)), if_neg (unlike (by decide)), if_neg (unlike (by decide)),
    if_neg (unlike (by decide))]
  rfl

/-- A constant is written as an atom and rebuilt from it. -/
theorem ofSExpr_constant {c : Constant} : ofSExpr c.sexpr = ofAtom c.sexpr := by
  cases c <;> simp [Constant.sexpr, ofSExpr]

theorem ofSExpr_list (items : List SExpr) : ofSExpr (.list items) = build items (items.map ofSExpr) := by
  rw [ofSExpr, ofSExprs_eq_map]

/-- A legible expression is rebuilt from its outline, without places. By induction over the expression: the
heading tells the form, and the parts are rebuilt first. -/
theorem ofSExpr_sexpr {e : Expr} (legible : e.Legible) : ofSExpr e.sexpr = e.unplaced := by
  induction e using children_induction with
  | step e ih =>
      have part {c : Expr} (child : c ∈ e.children) : ofSExpr c.sexpr = c.unplaced :=
        ih c child (legible.child child)
      have fitting := legible.fitting
      cases e with
      | misplaced found => exact fitting.elim
      | literal c => rw [sexpr, ofSExpr_constant, ofAtom_literal legible, unplaced]
      | «variable» name =>
          obtain ⟨scanned, kind⟩ := fitting
          rw [sexpr, ofSExpr, ofAtom_variable (scanned.spelled (by rw [kind]; decide)) kind, unplaced]
      | grouping inner =>
          have shown := part (c := inner) (by simp [children])
          simp [sexpr, ofSExpr_list, build, unplaced, shown]
      | unary op operand =>
          obtain ⟨scanned, kind⟩ := fitting
          have shown := part (c := operand) (by simp [children])
          have other : ¬ (op.kind = .andWord ∨ op.kind = .orWord) := by
            rcases kind with kind | kind <;> rw [kind] <;> decide
          rw [sexpr, ofSExpr_list, build_operator scanned (unary_mem_operatorKinds kind), if_neg other]
          simp [unplaced, shown]
      | binary left op right =>
          obtain ⟨scanned, kind⟩ := fitting
          have shown := part (c := left) (by simp [children])
          have shown' := part (c := right) (by simp [children])
          have others : ∀ kind ∈ binaryOperators, ¬ (kind = .andWord ∨ kind = .orWord) := by decide
          rw [sexpr, ofSExpr_list, build_operator scanned (binary_mem_operatorKinds kind),
            if_neg (others _ kind)]
          simp [unplaced, shown, shown']
      | logical left op right =>
          obtain ⟨scanned, kind⟩ := fitting
          have shown := part (c := left) (by simp [children])
          have shown' := part (c := right) (by simp [children])
          rw [sexpr, ofSExpr_list, build_operator scanned (logical_mem_operatorKinds kind), if_pos kind]
          simp [unplaced, shown, shown']
      | ternary condition yes no =>
          have tested := part (c := condition) (by simp [children])
          have shown := part (c := yes) (by simp [children])
          have shown' := part (c := no) (by simp [children])
          simp [sexpr, ofSExpr_list, build, unplaced, tested, shown, shown']
      | assign name value =>
          obtain ⟨scanned, kind⟩ := fitting
          have spelled := scanned.spelled (by rw [kind]; decide)
          have shown := part (c := value) (by simp [children])
          simp [sexpr, ofSExpr_list, build, unplaced, spelled.ofLexeme_eq, shown]
      | call callee paren arguments =>
          obtain ⟨scanned, kind⟩ := fitting
          have spelled := scanned.spelled (by rw [kind]; decide)
          have opening : Token.ofLexeme "(" = paren.unplaced := by
            rw [← spelled.ofLexeme_eq, spelled.lexeme_sign "(" (by rw [kind]; decide)]
          have shown := part (c := callee) (by simp [children])
          have others : ∀ e ∈ arguments, ofSExpr e.sexpr = e.unplaced :=
            fun e listed => part (by simp [children, listed])
          simpa [sexpr, sexprs_eq_map, ofSExpr_list, build, unplaced, unplacedAll_eq_map, opening, shown]
            using others

end Expr

namespace Stmt

theorem ofSExpr_list (items : List SExpr) :
    ofSExpr (.list items) = build items (items.map Expr.ofSExpr) (items.map ofSExpr) := by
  rw [ofSExpr, ofSExprs_eq_map, Expr.ofSExprs_eq_map]

/-- A legible statement is rebuilt from its outline, without places. By induction over the statement, with its
expressions rebuilt as above. -/
theorem ofSExpr_sexpr {s : Stmt} (legible : s.Legible) : ofSExpr s.sexpr = s.unplaced := by
  induction s using parts_induction with
  | step s ih =>
      have inner {t : Stmt} (part : t ∈ s.parts) : ofSExpr t.sexpr = t.unplaced := ih t part (legible.part part)
      have value {e : Expr} (listed : e ∈ s.expressions) : Expr.ofSExpr e.sexpr = e.unplaced :=
        Expr.ofSExpr_sexpr (legible.expression listed)
      have fitting := legible.fitting
      cases s with
      | misplaced found => exact fitting.elim
      | expression e =>
          have shown := value (e := e) (by simp [expressions])
          simp [sexpr, ofSExpr_list, build, unplaced, shown]
      | print e =>
          have shown := value (e := e) (by simp [expressions])
          simp [sexpr, ofSExpr_list, build, unplaced, shown]
      | var name initial =>
          obtain ⟨scanned, kind⟩ := fitting
          have spelled := scanned.spelled (by rw [kind]; decide)
          cases initial with
          | none => simp [sexpr, ofSExpr_list, build, unplaced, spelled.ofLexeme_eq]
          | some e =>
              have shown := value (e := e) (by simp [expressions])
              simp [sexpr, ofSExpr_list, build, unplaced, spelled.ofLexeme_eq, shown]
      | block body =>
          have others : ∀ t ∈ body, ofSExpr t.sexpr = t.unplaced := fun t listed => inner listed
          simpa [sexpr, sexprs_eq_map, ofSExpr_list, build, unplaced, unplacedAll_eq_map] using others
      | branch condition yes no =>
          have tested := value (e := condition) (by simp [expressions])
          have first := inner (t := yes) (by simp [parts])
          cases no with
          | none => simp [sexpr, ofSExpr_list, build, unplaced, tested, first]
          | some no =>
              have second := inner (t := no) (by simp [parts])
              simp [sexpr, ofSExpr_list, build, unplaced, tested, first, second]
      | loop condition body =>
          have tested := value (e := condition) (by simp [expressions])
          have repeated := inner (t := body) (by simp [parts])
          simp [sexpr, ofSExpr_list, build, unplaced, tested, repeated]
      | function name parameters body =>
          obtain ⟨⟨scanned, kind⟩, each⟩ := fitting
          have spelled := scanned.spelled (by rw [kind]; decide)
          have others : ∀ t ∈ body, ofSExpr t.sexpr = t.unplaced := fun t listed => inner listed
          have names : ∀ t ∈ parameters, Token.ofLexeme t.lexeme = t.unplaced := by
            intro t listed
            obtain ⟨scanned, kind⟩ := each t listed
            exact (scanned.spelled (by rw [kind]; decide)).ofLexeme_eq
          simpa [sexpr, sexprs_eq_map, ofSExpr_list, build, unplaced, unplacedAll_eq_map, spelled.ofLexeme_eq]
            using And.intro names others
      | «return» keyword result =>
          obtain ⟨scanned, kind⟩ := fitting
          have spelled := scanned.spelled (by rw [kind]; decide)
          have word : Token.ofLexeme "return" = keyword.unplaced := by
            rw [← spelled.ofLexeme_eq, spelled.lexeme_returnWord kind]
          cases result with
          | none => simp [sexpr, ofSExpr_list, build, unplaced, word]
          | some e =>
              have shown := value (e := e) (by simp [expressions])
              simp [sexpr, ofSExpr_list, build, unplaced, word, shown]

end Stmt

/-! ### Places are not shown -/

/-- The outline does not tell where the tokens of an expression stood. -/
theorem Expr.Legible.sexpr_unplaced {e : Expr} (legible : e.Legible) : e.unplaced.sexpr = e.sexpr := by
  induction e using children_induction with
  | step e ih =>
      have part : ∀ c ∈ e.children, c.unplaced.sexpr = c.sexpr := fun c child => ih c child (legible.child child)
      cases e with
      | misplaced found => exact legible.fitting.elim
      | literal | «variable» => simp [unplaced, sexpr]
      | grouping | unary | assign => simpa [unplaced, sexpr, children] using part
      | binary | logical | ternary => simpa [unplaced, sexpr, children] using part
      | call callee paren arguments =>
          simpa [unplaced, unplacedAll_eq_map, sexpr, sexprs_eq_map, children] using part

/-- The outline does not tell where the tokens of a statement stood. -/
theorem Stmt.Legible.sexpr_unplaced {s : Stmt} (legible : s.Legible) : s.unplaced.sexpr = s.sexpr := by
  induction s using parts_induction with
  | step s ih =>
      have inner : ∀ t ∈ s.parts, t.unplaced.sexpr = t.sexpr := fun t part => ih t part (legible.part part)
      have value : ∀ e ∈ s.expressions, e.unplaced.sexpr = e.sexpr :=
        fun e listed => (legible.expression listed).sexpr_unplaced
      cases s with
      | misplaced found => exact legible.fitting.elim
      | expression | print => simpa [unplaced, sexpr, expressions] using value
      | var name initial | «return» keyword initial =>
          cases initial with
          | none => simp [unplaced, sexpr]
          | some e => simpa [unplaced, sexpr, expressions] using value
      | block | function =>
          simpa [unplaced, unplacedAll_eq_map, sexpr, sexprs_eq_map, parts] using inner
      | branch condition yes no =>
          cases no <;> simpa [unplaced, sexpr, expressions, parts] using And.intro value inner
      | loop => simpa [unplaced, sexpr, expressions, parts] using And.intro value inner

namespace Program

/-- **An outline determines its tree.** Two statements from programs that were read, with finite numbers, have
one outline exactly when they are the same apart from the places of their tokens. -/
theorem outline_determines_tree {depth depth' : Nat} {source source' : String} {p p' : Program}
    (read : ofSource depth source = some p) (read' : ofSource depth' source' = some p') {s s' t t' : Stmt}
    (listed : t ∈ p.statements) (within : s.Within t) (listed' : t' ∈ p'.statements) (within' : s'.Within t')
    (finite : ∀ x, s.Mentions (.literal (.number x)) → x.isFinite = true)
    (finite' : ∀ x, s'.Mentions (.literal (.number x)) → x.isFinite = true)
    {limit limit' : Nat} {text text' : String} (shown : Outline.ofStmt limit s = .ok text)
    (shown' : Outline.ofStmt limit' s' = .ok text') : text = text' ↔ s.unplaced = s'.unplaced := by
  have legible := legible_statement read listed within finite
  have legible' := legible_statement read' listed' within' finite'
  have written := Outline.ofStmt_text legible.formed shown
  have written' := Outline.ofStmt_text legible'.formed shown'
  constructor
  · intro same
    have texts : s.sexpr.text = s'.sexpr.text := by rw [← written, ← written', same]
    have trees := legible.sound.eq_of_text_eq legible'.sound texts
    rw [← Stmt.ofSExpr_sexpr legible, ← Stmt.ofSExpr_sexpr legible', trees]
  · intro same
    have trees : s.sexpr = s'.sexpr := by rw [← legible.sexpr_unplaced, ← legible'.sexpr_unplaced, same]
    exact String.toList_inj.mp (by rw [written, written', trees])

/-- A function with a string that holds parentheses and a blank. -/
def quotingSource : String := "fun f(a, b) \x7b if (a) return -b; else print \"x) (y\" + 1.5; \x7d"

/-- The same function on other lines, with a comment in it and one number written longer. -/
def respacedSource : String := "fun f(a,b)\x7b // inf\n if(a)\n return - b;\n else print\n\"x) (y\"+01.50;\n\x7d"

/-- Whether a statement of the program has finite numbers and the given outline. -/
def outlines (text : String) (p : Program) : Bool :=
  p.statements.any fun s => s.mentioned.all Expr.isFinite && decide (Outline.ofStmt 40 s = .ok text)

theorem of_outlines (source text : String) (found : (ofSource 40 source).any (outlines text) = true) :
    ∃ p s, ofSource 40 source = some p ∧ s ∈ p.statements ∧ s.mentioned.all Expr.isFinite = true ∧
      Outline.ofStmt 40 s = .ok text := by
  obtain ⟨p, read, some_statement⟩ := (Option.any_eq_true _ _).mp found
  obtain ⟨s, listed, check⟩ := List.any_eq_true.mp some_statement
  obtain ⟨finite, shown⟩ := Bool.and_eq_true_iff.mp check
  exact ⟨p, s, read, listed, finite, of_decide_eq_true shown⟩

/-- What the two sources come out as. -/
def quotingOutline : String := "(fun f (a b) (if a (return (- b)) (print (+ \"x) (y\" 1.5))))"

theorem outline_determines_tree_respaced :
    ∃ p p' s s', ofSource 40 quotingSource = some p ∧ ofSource 40 respacedSource = some p' ∧
      s ∈ p.statements ∧ s' ∈ p'.statements ∧ Outline.ofStmt 40 s = .ok quotingOutline ∧
      Outline.ofStmt 40 s' = .ok quotingOutline ∧ s.unplaced = s'.unplaced := by
  obtain ⟨p, s, read, listed, finite, shown⟩ := of_outlines quotingSource quotingOutline (by decide +kernel)
  obtain ⟨p', s', read', listed', finite', shown'⟩ :=
    of_outlines respacedSource quotingOutline (by decide +kernel)
  exact ⟨p, p', s, s', read, read', listed, listed', shown, shown',
    (outline_determines_tree read read' listed .here listed' .here (Stmt.finite_of_mentioned finite)
      (Stmt.finite_of_mentioned finite') shown shown').mp rfl⟩

end Program

end Treewalk

import Treewalk.Proofs.Number.Faithful
import Treewalk.Proofs.Reading.Trees
import Treewalk.Proofs.Tree.Listed
import Treewalk.Proofs.Tree.SExpr

/-!
Trees that can be read back. A tree read from a source is made of spelled tokens and of constants that stand in
the source (`Program.legible_statement`). Each of its names, operators and constants is written as one word
or one quoted text, from which it can be told apart from all others (`Expr.ofAtom_variable`,
`Expr.ofAtom_literal`), as long as its numbers are finite: a number that is too large is written like a name.
-/

namespace Treewalk

open Text

/-! ### Trees without places -/

mutual

/-- The expression with its tokens as they are apart from their places. -/
def Expr.unplaced : Expr → Expr
  | .literal c => .literal c
  | .grouping e => .grouping e.unplaced
  | .unary op e => .unary op.unplaced e.unplaced
  | .binary left op right => .binary left.unplaced op.unplaced right.unplaced
  | .logical left op right => .logical left.unplaced op.unplaced right.unplaced
  | .ternary condition yes no => .ternary condition.unplaced yes.unplaced no.unplaced
  | .variable name => .variable name.unplaced
  | .assign name value => .assign name.unplaced value.unplaced
  | .call callee paren arguments => .call callee.unplaced paren.unplaced (Expr.unplacedAll arguments)
  | .misplaced none => .misplaced none
  | .misplaced (some s) => .misplaced (some s.unplaced)

/-- Expressions without places. -/
def Expr.unplacedAll : List Expr → List Expr
  | [] => []
  | e :: rest => e.unplaced :: Expr.unplacedAll rest

/-- The statement with its tokens as they are apart from their places. -/
def Stmt.unplaced : Stmt → Stmt
  | .expression e => .expression e.unplaced
  | .print e => .print e.unplaced
  | .var name none => .var name.unplaced none
  | .var name (some e) => .var name.unplaced (some e.unplaced)
  | .block body => .block (Stmt.unplacedAll body)
  | .branch condition yes none => .branch condition.unplaced yes.unplaced none
  | .branch condition yes (some no) => .branch condition.unplaced yes.unplaced (some no.unplaced)
  | .loop condition body => .loop condition.unplaced body.unplaced
  | .function name parameters body =>
    .function name.unplaced (parameters.map Token.unplaced) (Stmt.unplacedAll body)
  | .return keyword none => .return keyword.unplaced none
  | .return keyword (some e) => .return keyword.unplaced (some e.unplaced)
  | .misplaced none => .misplaced none
  | .misplaced (some e) => .misplaced (some e.unplaced)

/-- Statements without places. -/
def Stmt.unplacedAll : List Stmt → List Stmt
  | [] => []
  | s :: rest => s.unplaced :: Stmt.unplacedAll rest

end

theorem Expr.unplacedAll_eq_map (es : List Expr) : Expr.unplacedAll es = es.map Expr.unplaced := by
  induction es with
  | nil => simp [Expr.unplacedAll]
  | cons e rest ih => simp [Expr.unplacedAll, ih]

theorem Stmt.unplacedAll_eq_map (ss : List Stmt) : Stmt.unplacedAll ss = ss.map Stmt.unplaced := by
  induction ss with
  | nil => simp [Stmt.unplacedAll]
  | cons s rest ih => simp [Stmt.unplacedAll, ih]

/-! ### Legible trees -/

/-- A token of a source. -/
def Token.Scanned (t : Token) : Prop := t.kind = .endOfInput ∨ t.Spelled

/-- Every scanned token but the end token is spelled as its kind demands. -/
theorem Token.Scanned.spelled {t : Token} (scanned : t.Scanned) (inner : t.kind ≠ .endOfInput) : t.Spelled :=
  scanned.resolve_left inner

/-- A well-formed expression of scanned tokens, with finite numbers. -/
structure Expr.Legible (e : Expr) : Prop where
  formed : e.WellFormed Token.Scanned
  finite : ∀ x, (Expr.literal (.number x)).Within e → x.isFinite = true

/-- A well-formed statement of scanned tokens, with finite numbers. -/
structure Stmt.Legible (s : Stmt) : Prop where
  formed : s.WellFormed Token.Scanned
  finite : ∀ x, s.Mentions (.literal (.number x)) → x.isFinite = true

/-- Anything but a number that is not finite. -/
def Expr.isFinite : Expr → Bool
  | .literal (.number x) => x.isFinite
  | _ => true

/-- When all numbers that are listed are finite, so is each number within the expression. -/
theorem Expr.finite_of_preorder {e : Expr} (all : e.preorder.all isFinite = true) (x : Float)
    (within : (literal (.number x)).Within e) : x.isFinite = true :=
  List.all_eq_true.mp all _ (mem_preorder_iff.mpr within)

/-- When all numbers that are mentioned are finite, so is each number that the statement mentions. -/
theorem Stmt.finite_of_mentioned {s : Stmt} (all : s.mentioned.all Expr.isFinite = true) (x : Float)
    (mentions : s.Mentions (.literal (.number x))) : x.isFinite = true :=
  List.all_eq_true.mp all _ (mem_mentioned_iff.mpr mentions)

namespace Expr.Legible

variable {c e : Expr}

/-- The children of a legible expression are legible, so that proofs go down the tree. -/
theorem child (legible : e.Legible) (child : c ∈ e.children) : c.Legible :=
  ⟨(wellFormed_iff.mp legible.formed).2 c child, fun x within => legible.finite x (.deeper child within)⟩

theorem fitting (legible : e.Legible) : e.Fitting Token.Scanned := legible.formed e .here

end Expr.Legible

namespace Stmt.Legible

variable {s t : Stmt} {e : Expr}

theorem expression (legible : s.Legible) (listed : e ∈ s.expressions) : e.Legible :=
  ⟨(wellFormed_iff.mp legible.formed).2.1 e listed, fun x within => legible.finite x (.direct listed within)⟩

theorem part (legible : s.Legible) (part : t ∈ s.parts) : t.Legible :=
  ⟨(wellFormed_iff.mp legible.formed).2.2 t part, fun x mentions => legible.finite x (.deeper part mentions)⟩

theorem fitting (legible : s.Legible) : s.Fitting Token.Scanned := legible.formed.statements s .here

end Stmt.Legible

namespace Program

variable {depth : Nat} {source : String} {p : Program}

/-- Every statement that is read from a source is well formed over scanned tokens. -/
theorem ofSource_wellFormed (read : ofSource depth source = some p) :
    ∀ s ∈ p.statements, s.WellFormed Token.Scanned := by
  obtain ⟨q, tokens, rfl⟩ := Option.map_eq_some_iff.mp read
  exact (ofTokens_wellFormed tokens fun _ => Scan.spelled_of_mem).1

/-- A statement anywhere in a program is legible when its numbers are finite. Everything else about it is known
from its being read. -/
theorem legible_statement (read : ofSource depth source = some p) {s t : Stmt} (listed : t ∈ p.statements)
    (within : s.Within t) (finite : ∀ x, s.Mentions (.literal (.number x)) → x.isFinite = true) :
    s.Legible := by
  have formed := ofSource_wellFormed read t listed
  refine ⟨⟨fun u inner => formed.statements u (inner.trans within), fun e mentions => ?_⟩, finite⟩
  exact formed.expressions e (mentions.outer within)

/-- Every expression that a program mentions is well formed over scanned tokens. -/
theorem wellFormed_expression (read : ofSource depth source = some p) {e : Expr} {t : Stmt}
    (listed : t ∈ p.statements) (mentions : t.Mentions e) : e.WellFormed Token.Scanned :=
  fun d within => (ofSource_wellFormed read t listed).expressions d (mentions.within within)

end Program

/-! ### Words -/

section Words

open SExpr

theorem unbroken_of_isDigit {c : Char} (digit : isDigit c = true) : c ∉ breaks :=
  Piece.not_mem_of_class digit (by decide)

/-- No letter and no digit ends a word of an outline. -/
theorem unbroken_of_isNamePart {c : Char} (part : isNamePart c = true) : c ∉ breaks :=
  Piece.not_mem_of_class part (by decide)

/-- A word is no sign, no string and no number. -/
theorem Piece.wordKind_not_mem (word : List Char) :
    wordKind word ∉ .string :: .number :: signLexemes.map Prod.fst := by
  unfold wordKind TokenKind.ofWord?
  split <;> decide

namespace Piece.Lexeme

variable {kind : TokenKind} {text : List Char}

/-- A lexeme is a word, unless it is a parenthesis or a string. Words are what an outline may hold
without quotes. -/
theorem isWord (lexeme : Lexeme kind text) (other : kind ∉ [.leftParen, .rightParen, .string]) : IsWord text := by
  have signs : (signLexemes.all fun sign => [TokenKind.leftParen, .rightParen, .string].contains sign.1 ||
      (!sign.2.isEmpty && sign.2.all fun c => !breaks.contains c)) = true := by decide
  have unbroken {digits : List Char} (all : ∀ c ∈ digits, c ∈ decimals) : ∀ c ∈ digits, c ∉ breaks :=
    fun c listed => unbroken_of_isDigit (isDigit_iff.mpr (all c listed))
  cases lexeme with
  | sign listed =>
      have sign := List.all_eq_true.mp signs _ listed
      simp only [Bool.or_eq_true, Bool.and_eq_true, Bool.not_eq_true', List.isEmpty_eq_false_iff,
        List.all_eq_true, List.contains_eq_mem, decide_eq_false_iff_not] at sign
      exact sign.resolve_left (by simpa using other)
  | string => simp at other
  | whole nonempty digits => exact ⟨nonempty, unbroken digits⟩
  | fraction nonempty nonempty' digits places =>
      refine ⟨by simp, fun c listed => ?_⟩
      rcases List.mem_append.mp listed with digit | later
      · exact unbroken digits c digit
      · rcases List.mem_cons.mp later with rfl | place
        · decide
        · exact unbroken places c place
  | @word c word start parts =>
      refine ⟨by simp, fun d listed => unbroken_of_isNamePart ?_⟩
      rcases List.mem_cons.mp listed with rfl | part
      · simp [isNamePart, start]
      · exact parts d part

theorem quote_not_mem (lexeme : Lexeme .string text) : '"' ∉ (text.drop 1).dropLast := by
  have signs : (signLexemes.all fun sign => sign.1 != .string) = true := by decide
  generalize same : TokenKind.string = kind at lexeme
  cases lexeme with
  | sign listed => simpa [← same] using List.all_eq_true.mp signs _ listed
  | string unquoted => simpa using unquoted
  | whole | fraction => cases same
  | word => exact (wordKind_not_mem _ (by rw [← same]; decide)).elim

/-- A sign has one spelling, the one that the table gives for its kind. -/
theorem mem_signLexemes (lexeme : Lexeme kind text) (sign : kind ∈ signLexemes.map Prod.fst) :
    (kind, text) ∈ signLexemes := by
  cases lexeme with
  | sign listed => exact listed
  | string | whole | fraction => exact absurd sign (by decide)
  | word => exact (wordKind_not_mem _ (List.mem_cons_of_mem _ (List.mem_cons_of_mem _ sign))).elim

/-- Only a number is a numeral, so names and operators are never taken for numbers when an outline is
read back. -/
theorem denoted?_eq_none (lexeme : Lexeme kind text) (other : kind ≠ .number) : Numeral.denoted? text = none := by
  have signs : ∀ sign ∈ signLexemes, Numeral.denoted? sign.2 = none := by decide +kernel
  cases lexeme with
  | sign listed => exact signs _ listed
  | string => exact Numeral.denoted?_cons (by decide) (by decide) _
  | whole | fraction => exact absurd rfl other
  | word start =>
      have unsigned := @not_mem_of_class _ _ ('-' :: decimals) start (by decide)
      rw [List.mem_cons, not_or] at unsigned
      exact Numeral.denoted?_cons unsigned.1 (by simpa using mt isDigit_iff.mp unsigned.2) _

end Piece.Lexeme

namespace Token.Spelled

variable {t : Token}

/-- The lexeme of a sign is known from its kind. -/
theorem lexeme_sign (spelled : t.Spelled) (sign : String) (listed : (t.kind, sign.toList) ∈ Piece.signLexemes) :
    t.lexeme = sign := by
  have distinct : (Piece.signLexemes.map Prod.fst).Nodup := by decide
  have spelling := spelled.lexeme.mem_signLexemes (List.mem_map_of_mem listed)
  have same := List.inj_on_of_nodup_map distinct spelling listed rfl
  exact String.toList_inj.mp (congrArg Prod.snd same)

theorem lexeme_returnWord (spelled : t.Spelled) (kind : t.kind = .returnWord) : t.lexeme = "return" := by
  have lexeme := spelled.lexeme
  rw [kind] at lexeme
  generalize same : TokenKind.returnWord = kind at lexeme
  generalize spelling : t.lexeme.toList = text at lexeme
  cases lexeme with
  | sign listed =>
      subst same
      simp [Piece.signLexemes] at listed
  | string | whole | fraction => cases same
  | word =>
      unfold Piece.wordKind TokenKind.ofWord? at same
      split at same <;> cases same
      next word => rw [← word, ← spelling, String.ofList_toList]

end Token.Spelled

/-- The outline layout of a decimal holds digits, a point, signs and a mark, none of which ends a word. -/
theorem Number.isWord_outlineLayout (d : Decimal) : IsWord (outlineLayout d) := by
  have zeros (n : Nat) : ∀ c ∈ List.replicate n '0', c ∉ breaks :=
    fun c listed => unbroken_of_isDigit (Numeral.isDigit_zeros n c listed)
  have digits (n : Nat) : ∀ c ∈ Nat.toDigits 10 n, c ∉ breaks :=
    fun c listed => unbroken_of_isDigit (Numeral.isDigit_toDigits n c listed)
  have isWord {text : List Char} {q : ℚ} (digits : Numeral.Digits text q) : IsWord text :=
    digits.lexeme.isWord (by decide)
  unfold outlineLayout
  split
  · exact isWord d.digits_positional
  · obtain ⟨nonempty, unbroken⟩ := isWord (d.digits_mantissa (.inl rfl))
    refine ⟨by simp, fun c listed => ?_⟩
    simp only [paddedExponent, List.mem_append, List.mem_cons] at listed
    rcases listed with inside | rfl | rfl | zero | digit
    · exact unbroken c inside
    · decide
    · split <;> decide
    · exact zeros _ c zero
    · exact digits _ c digit

/-- The outline of a finite number is a word: none of its characters is a blank, a quote or a parenthesis. -/
theorem Number.isWord_outline {x : Float} (finite : x.isFinite = true) : IsWord (outline x).toList := by
  obtain ⟨m, e, parts⟩ := Binary.isFinite_iff.mp finite
  obtain ⟨nonempty, unbroken⟩ := isWord_outlineLayout (Decimal.shortest (abs x) m e)
  unfold outline
  rw [parts]
  dsimp only
  rw [String.toList_ofList, signed]
  split
  · refine ⟨by simp, fun c listed => ?_⟩
    rcases List.mem_cons.mp listed with rfl | inside
    · decide
    · exact unbroken c inside
  · exact ⟨nonempty, unbroken⟩

/-! ### Constants and names -/

/-- A constant as it stands in an outline. -/
def Constant.sexpr : Constant → SExpr
  | .text s => .quoted s
  | .nil => .word "nil"
  | .bool b => .word (if b then "true" else "false")
  | .number x => .word (Number.outline x)

/-- A constant is written in the outline as its own outline text. -/
theorem Constant.text_sexpr (c : Constant) : c.sexpr.text = c.outline.toList := by
  cases c <;> simp [sexpr, SExpr.text, outline]

/-- The finite number with the given outline. -/
noncomputable def Number.ofOutline (text : String) : Float :=
  Classical.epsilon fun x => x.isFinite = true ∧ outline x = text

/-- A finite number is read back from its outline, with its sign. This is `denoted?_outline` and
`toFloat_shortest` put together. -/
theorem Number.ofOutline_outline {x : Float} (finite : x.isFinite = true) : ofOutline (outline x) = x := by
  have found := Classical.epsilon_spec (p := fun y => y.isFinite = true ∧ outline y = outline x) ⟨x, finite, rfl⟩
  exact outline_injective found.1 finite found.2

/-- The constant or the variable that a word or a quoted text stands for. -/
noncomputable def Expr.ofAtom : SExpr → Expr
  | .quoted s => .literal (.text s)
  | .word w =>
    if (Numeral.denoted? w.toList).isSome then .literal (.number (Number.ofOutline w))
    else if w = "nil" then .literal .nil
    else if w = "true" then .literal (.bool true)
    else if w = "false" then .literal (.bool false)
    else .variable (Token.ofLexeme w)
  | .list _ => .misplaced none

/-- The lexeme of a scanned token may stand as a word, unless it is a parenthesis, a string or the end. -/
theorem Token.Scanned.sound_word {t : Token} (scanned : t.Scanned)
    (other : t.kind ∉ [.endOfInput, .leftParen, .rightParen, .string]) : (SExpr.word t.lexeme).Sound := by
  rw [List.mem_cons, not_or] at other
  exact .word ((scanned.spelled other.1).lexeme.isWord other.2)

/-- The constants in a legible tree: the numbers are finite, and the texts hold no quote. -/
theorem Expr.Legible.constant {c : Constant} (legible : (Expr.literal c).Legible) :
    c = .nil ∨ (∃ b, c = .bool b) ∨ (∃ x, c = .number x ∧ x.isFinite = true) ∨
      ∃ s, c = .text s ∧ '"' ∉ s.toList := by
  rcases legible.fitting with rfl | bool | ⟨t, scanned, kind | kind, rfl⟩
  · exact .inl rfl
  · exact .inr (.inl bool)
  · obtain ⟨-, literal⟩ := scanned.spelled (by rw [kind]; decide)
    rw [kind] at literal
    exact .inr (.inr (.inl ⟨_, literal, legible.finite _ (literal ▸ .here)⟩))
  · obtain ⟨lexeme, literal⟩ := scanned.spelled (by rw [kind]; decide)
    rw [kind] at lexeme literal
    refine .inr (.inr (.inr ⟨_, literal, ?_⟩))
    rw [String.toList_ofList]
    exact lexeme.quote_not_mem

/-- The constants of a legible expression may stand in an outline: a text in quotes holds no quote. -/
theorem Expr.Legible.sound_constant {c : Constant} (legible : (Expr.literal c).Legible) : c.sexpr.Sound := by
  rcases legible.constant with rfl | ⟨b, rfl⟩ | ⟨x, rfl, finite⟩ | ⟨s, rfl, unquoted⟩
  · exact .word (by decide)
  · cases b <;> exact .word (by decide)
  · exact .word (Number.isWord_outline finite)
  · exact .quoted unquoted

/-- A constant is rebuilt from the atom that it is written as. Numbers, texts, truth values and nil are written
apart. -/
theorem Expr.ofAtom_literal {c : Constant} (legible : (Expr.literal c).Legible) :
    ofAtom c.sexpr = .literal c := by
  have reserved {w : String} (word : Numeral.denoted? w.toList = none) : ofAtom (.word w) =
      if w = "nil" then .literal .nil else if w = "true" then .literal (.bool true)
      else if w = "false" then .literal (.bool false) else .variable (Token.ofLexeme w) := by
    rw [ofAtom, word]
    rfl
  rcases legible.constant with rfl | ⟨b, rfl⟩ | ⟨x, rfl, finite⟩ | ⟨s, rfl, unquoted⟩
  · exact reserved (by decide +kernel)
  · cases b
    · exact reserved (by decide +kernel)
    · exact reserved (by decide +kernel)
  · obtain ⟨m, e, parts⟩ := Binary.isFinite_iff.mp finite
    rw [Constant.sexpr, ofAtom, Number.denoted?_outline parts, Number.ofOutline_outline finite]
    rfl
  · rfl

/-- A name is rebuilt from its word, which is no numeral and no constant. -/
theorem Expr.ofAtom_variable {name : Token} (spelled : name.Spelled) (kind : name.kind = .identifier) :
    ofAtom (.word name.lexeme) = .variable name.unplaced := by
  have unlike {other : String} (reserved : (Token.ofLexeme other).kind ≠ .identifier) : name.lexeme ≠ other :=
    spelled.lexeme_ne (kind ▸ reserved)
  rw [ofAtom, spelled.lexeme.denoted?_eq_none (by rw [kind]; decide), if_neg (by simp),
    if_neg (unlike (by decide)), if_neg (unlike (by decide)), if_neg (unlike (by decide)), spelled.ofLexeme_eq]

end Words

end Treewalk

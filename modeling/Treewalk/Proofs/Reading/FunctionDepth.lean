import Treewalk.Proofs.Reading

/-!
Reading with a count of function bodies. Whether a `return` is misplaced can be told from a count kept beside
the cursor: it goes up before the body of a function is read, goes down again however the reading of that body
ends, and a `return` is reported when it is zero. The readers of a program are given a flag instead, which says
whether a function body is around.

* `Counts`: a counting reader does to the cursor what a plain one does, at the flag that its count stands for, and
  leaves the count as it was on every exit.
* `Counts.inFunction`: reading inside one more function body is reading with the flag set.
* `declaration_statement_counts`: declarations and statements count, at every depth.
* `Restores`, `ofTokens_eq`: so every exit restores the count, and reading with the count gives the same program.
-/

namespace Treewalk

/-- A cursor, and how many function bodies are around it. -/
structure Counted where
  cursor : Cursor
  functions : Nat

/-- Reads a part of a program and counts function bodies. -/
abbrev Counting := EStateM Unwind Counted

namespace Counting

open Parse (accept? expect reportIf report remaining items unlessNext expression forInitial
  expressionStatement varRest printRest)

variable {α β : Type}

/-- Reads with no look at the count. -/
def keeping (p : Parse α) : Counting α := fun s =>
  match p s.cursor with
  | .ok a c => .ok a { s with cursor := c }
  | .error e c => .error e { s with cursor := c }

def enter : Counting Unit := modify fun s => { s with functions := s.functions + 1 }

def leave : Counting Unit := modify fun s => { s with functions := s.functions - 1 }

/-- Reads inside one more function body, which is left however the reading ends. -/
def inFunction (p : Counting α) : Counting α := do
  enter
  try p finally leave

/-- Reads a declaration; after a malformed one, skips to the next statement and gives nothing. -/
def recovering (p : Counting α) : Counting (Option α) := fun s =>
  match p s with
  | .ok a s' => .ok (some a) s'
  | .error .malformed s' => .ok none { s' with cursor := s'.cursor.synchronize }
  | .error .tooDeep s' => .error .tooDeep s'

/-- Reads only after a token of this kind, which is read too. -/
def afterSign (kind : TokenKind) (p : Counting α) : Counting (Option α) := do
  match ← keeping (accept? [kind]) with
  | none => return none
  | some _ => some <$> p

/-- Declarations up to the end of the input or a token of kind `stop`, which is left unread. -/
def declarationsUpTo (stop : Option TokenKind) (declaration : Counting (Option Stmt)) :
    Nat → Counting (List Stmt)
  | 0 => return []
  | fuel + 1 => fun s =>
    match s.cursor.rest with
    | [] => .ok [] s
    | t :: _ =>
      if stop = some t.kind then .ok [] s
      else (do
        let first ← declaration
        let more ← declarationsUpTo stop declaration fuel
        return first.toList ++ more : Counting (List Stmt)) s

/-- The rest of a block whose opening brace was read. -/
def blockBody (declaration : Counting (Option Stmt)) : Counting (List Stmt) := do
  let body ← declarationsUpTo (some .rightBrace) declaration (← keeping remaining)
  let _ ← keeping (expect .rightBrace .braceAfterBlock)
  return body

/-- A function declaration after its keyword. Its body is one more function body around what stands in it. -/
def functionRest (declaration : Counting (Option Stmt)) : Counting Stmt := do
  let name ← keeping (expect .identifier .functionName)
  let _ ← keeping (expect .leftParen .parenAfterFunctionName)
  let parameters ← keeping (items .tooManyParameters .parenAfterParameters
    (expect .identifier .parameterName))
  let _ ← keeping (expect .leftBrace .braceBeforeBody)
  let body ← inFunction (blockBody declaration)
  return .function name parameters body

def forRest (expr : Parse Expr) (body : Counting Stmt) : Counting Stmt := do
  let _ ← keeping (expect .leftParen .parenAfterFor)
  let initial ← keeping (forInitial expr)
  let condition ← keeping (unlessNext .semicolon expr)
  let _ ← keeping (expect .semicolon .semicolonAfterCondition)
  let increment ← keeping (unlessNext .rightParen expr)
  let _ ← keeping (expect .rightParen .parenAfterClauses)
  return Stmt.forLoop initial condition increment (← body)

def ifRest (expr : Parse Expr) (body : Counting Stmt) : Counting Stmt := do
  let _ ← keeping (expect .leftParen .parenAfterIf)
  let condition ← keeping expr
  let _ ← keeping (expect .rightParen .parenAfterIfCondition)
  let yes ← body
  let no ← afterSign .elseWord body
  return .branch condition yes no

/-- A `return` after its keyword. It is reported when no function body is around. -/
def returnRest (keyword : Token) (expr : Parse Expr) : Counting Stmt := do
  let s ← get
  keeping (reportIf (s.functions == 0) (report keyword .topLevelReturn))
  let value ← keeping (unlessNext .semicolon expr)
  let _ ← keeping (expect .semicolon .semicolonAfterReturned)
  return .return keyword value

def whileRest (expr : Parse Expr) (body : Counting Stmt) : Counting Stmt := do
  let _ ← keeping (expect .leftParen .parenAfterWhile)
  let condition ← keeping expr
  let _ ← keeping (expect .rightParen .parenAfterCondition)
  return .loop condition (← body)

mutual

/-- Reads a declaration, or skips a malformed one. -/
def declaration : Nat → Counting (Option Stmt)
  | 0 => keeping Parse.tooDeep
  | depth + 1 => recovering do
    match ← keeping (accept? [.funWord, .varWord]) with
    | none => statement depth
    | some t =>
      if t.kind = .funWord then functionRest (declaration depth)
      else keeping (varRest (expression depth .assignment))

/-- Reads a statement. -/
def statement : Nat → Counting Stmt
  | 0 => keeping Parse.tooDeep
  | depth + 1 => do
    match ← keeping (accept? [.forWord, .ifWord, .printWord, .returnWord, .whileWord, .leftBrace]) with
    | none => keeping (expressionStatement (expression depth .assignment))
    | some t =>
      match t.kind with
      | .forWord => forRest (expression depth .assignment) (statement depth)
      | .ifWord => ifRest (expression depth .assignment) (statement depth)
      | .printWord => keeping (printRest (expression depth .assignment))
      | .returnWord => returnRest t (expression depth .assignment)
      | .whileWord => whileRest (expression depth .assignment) (statement depth)
      | _ => .block <$> blockBody (declaration depth)

end

/-- Reads the tokens up to the first end token, from the count zero on. -/
def ofTokens (depth : Nat) (tokens : List Token) : Option Program :=
  let start := Program.cursor tokens
  match declarationsUpTo none (declaration depth) start.rest.length ⟨start, 0⟩ with
  | .ok statements s => some ⟨statements, s.cursor.reported.toList⟩
  | .error _ _ => none

/-! ### Counting and the flag -/

/-- Where a function body is around exactly if `inside`, a counting reader does what the plain one does, and the
count stays. -/
def Counts (inside : Bool) (q : Counting α) (p : Parse α) : Prop :=
  ∀ s, decide (0 < s.functions) = inside → q s = keeping p s

variable {inside : Bool}

/-- Two counting readers in a row. An exit of the first one leaves its own count behind, which is why exits have
to be accounted for at all. -/
theorem bind_apply (q : Counting α) (next : α → Counting β) (s : Counted) :
    (q >>= next) s = match q s with
      | .ok a s' => next a s'
      | .error e s' => .error e s' := by
  change EStateM.bind q next s = _
  unfold EStateM.bind
  cases q s <;> rfl

/-- A plain reader does not touch the count, so it counts at either flag. This embeds all of the expressions,
which know nothing of functions. -/
theorem counts_keeping (p : Parse α) : Counts inside (keeping p) p := fun _ _ => rfl

theorem counts_pure (a : α) : Counts inside (pure a) (pure a) := fun _ _ => rfl

/-- Sequencing. The count is the same in the middle as at the start, so both readers run at the same flag. -/
theorem Counts.bind {q : Counting α} {p : Parse α} {next : α → Counting β} {next' : α → Parse β}
    (first : Counts inside q p) (later : ∀ a, Counts inside (next a) (next' a)) :
    Counts inside (q >>= next) (p >>= next') := by
  intro s here
  rw [bind_apply, first s here]
  unfold keeping
  rw [Parse.bind_apply]
  cases p s.cursor with
  | error e c => rfl
  | ok a c => exact later a { s with cursor := c } here

/-- Sequencing after a plain reader, which is how every rule begins. -/
theorem Counts.behind {p : Parse α} {next : α → Counting β} {next' : α → Parse β}
    (later : ∀ a, Counts inside (next a) (next' a)) : Counts inside (keeping p >>= next) (p >>= next') :=
  (counts_keeping p).bind later

theorem Counts.map {q : Counting α} {p : Parse α} (f : α → β) (counts : Counts inside q p) :
    Counts inside (f <$> q) (f <$> p) := by
  rw [map_eq_pure_bind, map_eq_pure_bind]
  exact counts.bind fun a => counts_pure (f a)

/-- What the body of a function does to the count: one up before it, one down after it, with a result or without
one. This is the only place where the count changes. -/
theorem inFunction_apply (q : Counting α) (s : Counted) : inFunction q s =
    match q { s with functions := s.functions + 1 } with
      | .ok a s' => .ok a { s' with functions := s'.functions - 1 }
      | .error e s' => .error e { s' with functions := s'.functions - 1 } := by
  have opened : inFunction q s =
      EStateM.map Prod.fst (tryFinally' q fun _ => leave) { s with functions := s.functions + 1 } := rfl
  rw [opened, EStateM.map]
  simp only [tryFinally']
  cases q { s with functions := s.functions + 1 } <;> rfl

/-- Inside one more function body the flag is set, and the count is back at the end, whether or not there is a
result. -/
theorem Counts.inFunction {q : Counting α} {p : Parse α} (counts : Counts true q p) :
    Counts inside (inFunction q) p := by
  intro s _
  rw [inFunction_apply, counts { s with functions := s.functions + 1 } (by simp)]
  unfold keeping
  cases p s.cursor <;> rfl

/-- A malformed declaration is skipped from the cursor that its reading left. By then the count is what it was
before the declaration. -/
theorem Counts.recovering {q : Counting α} {p : Parse α} (counts : Counts inside q p) :
    Counts inside (recovering q) (Parse.recovering p) := by
  intro s here
  unfold Counting.recovering keeping Parse.recovering
  rw [counts s here, keeping]
  cases p s.cursor with
  | ok a c => rfl
  | error e c => cases e <;> rfl

theorem Counts.afterSign {q : Counting α} {p : Parse α} (kind : TokenKind) (counts : Counts inside q p) :
    Counts inside (afterSign kind q) (Parse.afterSign kind p) := by
  apply Counts.behind
  intro o
  cases o with
  | none => exact counts_pure none
  | some t => exact counts.map some

section Statements

variable {q : Counting (Option Stmt)} {p : Parse (Option Stmt)} {body : Counting Stmt} {body' : Parse Stmt}

/-- A row of declarations counts when one of them does. By induction over the turns, each turn starting from the
same count. -/
theorem Counts.declarationsUpTo (stop : Option TokenKind) (counts : Counts inside q p) (fuel : Nat) :
    Counts inside (declarationsUpTo stop q fuel) (Parse.declarationsUpTo stop p fuel) := by
  induction fuel with
  | zero => exact counts_pure []
  | succ fuel ih =>
      have turn : Counts inside
          (do
            let first ← q
            let more ← Counting.declarationsUpTo stop q fuel
            return first.toList ++ more)
          (do
            let first ← p
            let more ← Parse.declarationsUpTo stop p fuel
            return first.toList ++ more) := by
        apply counts.bind
        intro first
        exact ih.bind fun more => counts_pure _
      intro s here
      unfold Counting.declarationsUpTo keeping Parse.declarationsUpTo
      cases s.cursor.rest with
      | nil => rfl
      | cons t rest =>
          by_cases stopped : stop = some t.kind
          · simp only [if_pos stopped]
          · simp only [if_neg stopped]
            exact turn s here

theorem Counts.blockBody (counts : Counts inside q p) :
    Counts inside (blockBody q) (Parse.blockBody p) := by
  apply Counts.behind
  intro fuel
  apply Counts.bind (counts.declarationsUpTo _ fuel)
  intro found
  exact Counts.behind fun _ => counts_pure found

/-- The body of a function is read with the flag set, whatever it is around the function. -/
theorem Counts.functionRest (counts : Counts true q p) :
    Counts inside (functionRest q) (Parse.functionRest p) := by
  apply Counts.behind
  intro name
  apply Counts.behind
  intro _
  apply Counts.behind
  intro parameters
  apply Counts.behind
  intro _
  exact Counts.bind counts.blockBody.inFunction fun found => counts_pure _

theorem Counts.forRest (expr : Parse Expr) (counts : Counts inside body body') :
    Counts inside (forRest expr body) (Parse.forRest expr body') := by
  apply Counts.behind
  intro _
  apply Counts.behind
  intro initial
  apply Counts.behind
  intro condition
  apply Counts.behind
  intro _
  apply Counts.behind
  intro increment
  apply Counts.behind
  intro _
  exact counts.bind fun s => counts_pure _

/-- The two arms of a branch are read at the same count. The first one restores it, so the second one sees the
flag that the `if` itself saw. -/
theorem Counts.ifRest (expr : Parse Expr) (counts : Counts inside body body') :
    Counts inside (ifRest expr body) (Parse.ifRest expr body') := by
  apply Counts.behind
  intro _
  apply Counts.behind
  intro condition
  apply Counts.behind
  intro _
  apply counts.bind
  intro yes
  exact (counts.afterSign _).bind fun no => counts_pure _

theorem Counts.whileRest (expr : Parse Expr) (counts : Counts inside body body') :
    Counts inside (whileRest expr body) (Parse.whileRest expr body') := by
  apply Counts.behind
  intro _
  apply Counts.behind
  intro condition
  apply Counts.behind
  intro _
  exact counts.bind fun s => counts_pure _

/-- A count of zero is the flag that is not set. The rule of `return` is the only one that looks at the count,
and it asks no more of it than this. -/
theorem counts_returnRest (keyword : Token) (expr : Parse Expr) :
    Counts inside (returnRest keyword expr) (Parse.returnRest inside keyword expr) := by
  intro s here
  have wrong : (s.functions == 0) = !inside := by
    rw [← here]
    cases s.functions <;> simp
  have rest : Counts inside
      (do
        keeping (reportIf (!inside) (report keyword .topLevelReturn))
        let value ← keeping (unlessNext .semicolon expr)
        let _ ← keeping (expect .semicolon .semicolonAfterReturned)
        return .return keyword value) (Parse.returnRest inside keyword expr) := by
    apply Counts.behind
    intro _
    apply Counts.behind
    intro value
    exact Counts.behind fun _ => counts_pure _
  rw [← rest s here, ← wrong]
  rfl

end Statements

/-- **The count stands for the flag.** Declarations and statements, read with a count, are those read with the
flag that the count stands for: same results, same reports, same tokens left, and the count as it was. By
induction over the depth, with a case for each keyword. -/
theorem declaration_statement_counts (depth : Nat) :
    (∀ inside, Counts inside (declaration depth) (Parse.declaration depth inside)) ∧
    ∀ inside, Counts inside (statement depth) (Parse.statement depth inside) := by
  induction depth with
  | zero => exact ⟨fun _ => counts_keeping _, fun _ => counts_keeping _⟩
  | succ depth ih =>
      obtain ⟨declares, states⟩ := ih
      constructor
      · intro inside
        apply Counts.recovering
        apply Counts.behind
        intro o
        cases o with
        | none => exact states inside
        | some t =>
            dsimp only
            split
            · exact (declares true).functionRest
            · exact counts_keeping _
      · intro inside
        apply Counts.behind
        intro o
        cases o with
        | none => exact counts_keeping _
        | some t =>
            dsimp only
            -- both readers choose by the kind alone, with the same rule for every kind that is not named
            generalize t.kind = kind
            cases kind with
            | forWord => exact (states inside).forRest _
            | ifWord => exact (states inside).ifRest _
            | printWord => exact counts_keeping _
            | returnWord => exact counts_returnRest t _
            | whileWord => exact (states inside).whileRest _
            | _ => exact (declares inside).blockBody.map _

/-! ### Every exit restores the count -/

/-- The state that a reading ends in, with a result or without one. -/
def final : EStateM.Result Unwind Counted α → Counted
  | .ok _ s => s
  | .error _ s => s

/-- The count is the same after reading as before, however the reading ends. -/
def Restores (q : Counting α) : Prop := ∀ s, (final (q s)).functions = s.functions

/-- A counting reader that counts, whatever the flag, restores the count: plain readers keep it on either kind
of exit. -/
theorem restores_of_counts {q : Counting α} {p : Bool → Parse α} (counts : ∀ inside, Counts inside q (p inside)) :
    Restores q := by
  intro s
  rw [counts _ s rfl, keeping]
  cases p _ s.cursor <;> rfl

/-- The count after a declaration is the one before it, whether it was read, skipped or ran out of depth. At the
top it is zero, so it is zero before each declaration there. -/
theorem declaration_restores (depth : Nat) : Restores (declaration depth) :=
  restores_of_counts (declaration_statement_counts depth).1

/-- The count after a function declaration is the one before it, also when its head or its body is malformed.
The exit goes through the end of `inFunction`, which counts down before it passes the exit on. -/
theorem functionRest_restores (depth : Nat) : Restores (functionRest (declaration depth)) :=
  restores_of_counts fun _ => ((declaration_statement_counts depth).1 true).functionRest

/-- Reading with the count gives the program that reading with the flag gives, with the same faults, and runs
out of depth for the same tokens. -/
theorem ofTokens_eq (depth : Nat) (tokens : List Token) : ofTokens depth tokens = Program.ofTokens depth tokens := by
  have counts := ((declaration_statement_counts depth).1 false).declarationsUpTo none
  unfold ofTokens Program.ofTokens
  dsimp only
  rw [counts _ ⟨Program.cursor tokens, 0⟩ rfl, keeping]
  dsimp only
  cases Parse.declarationsUpTo none (Parse.declaration depth false) _ (Program.cursor tokens) <;> rfl

end Counting

end Treewalk

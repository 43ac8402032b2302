import Treewalk.Proofs.Grammar
import Treewalk.Proofs.Reading

/-!
Completeness of reading: what the grammar derives, each `else` going to the nearest `if`, is read
without a report and with the tree of the derivation, unless the depth runs out. A reader is greedy, so
this holds only in front of tokens that cannot continue what was read (`Level.Stops`). The proofs are
inductions on derivations.
-/

namespace Treewalk

namespace Level

def rank : Level → Nat
  | .assignment => 10
  | .disjunction => 9
  | .conjunction => 8
  | .ternary => 7
  | .equality => 6
  | .comparison => 5
  | .sum => 4
  | .product => 3
  | .unary => 2
  | .call => 1
  | .primary => 0

/-- The tightest level at which a token continues what stands before it. -/
def continuedBy : TokenKind → Option Level
  | .leftParen => some .call
  | .slash | .star => some .product
  | .minus | .plus => some .sum
  | .greater | .greaterEqual | .less | .lessEqual => some .comparison
  | .bangEqual | .equalEqual => some .equality
  | .question => some .ternary
  | .andWord => some .conjunction
  | .orWord => some .disjunction
  | .equal => some .assignment
  | _ => none

/-- The tokens do not continue an expression of this level. -/
def Stops (l : Level) (rest : List Token) : Prop :=
  ∀ t ∈ rest.head?, ∀ k ∈ continuedBy t.kind, l.rank < k.rank

/-- A token that continues looser levels only stops the given one. The end of an expression is always found this
way. -/
theorem stops_cons {l : Level} {t : Token} {rest : List Token} {kind : TokenKind} (same : t.kind = kind)
    (looser : ∀ k ∈ continuedBy kind, l.rank < k.rank) : l.Stops (t :: rest) := by
  intro u next
  cases next
  rw [same]
  exact looser

theorem stops_primary (rest : List Token) : Level.primary.Stops rest := by
  have positive : ∀ kind, ∀ k, continuedBy kind = some k → 0 < k.rank := by
    intro kind k
    cases kind <;> rintro ⟨⟩ <;> decide
  exact fun t _ k continued => positive t.kind k continued

theorem rank_le (l : Level) : l.rank ≤ 10 := by
  cases l <;> decide

/-- Going to the tighter level never goes to a looser one. The tightest level is its own tighter one. -/
theorem rank_tighter_le (l : Level) : l.tighter.rank ≤ l.rank := by
  cases l <;> decide

/-- Each operator continues exactly the level that lists it, so levels do not take each other's operators. -/
theorem continuedBy_of_mem_operators {l : Level} : ∀ k ∈ l.operators, continuedBy k = some l := by
  cases l <;> decide

theorem rank_tighter_lt {l : Level} (operators : l.operators ≠ []) : l.tighter.rank < l.rank := by
  revert operators
  cases l <;> decide

/-- What stops a level stops the next tighter one, since it continues looser levels only. So the operands of a
level end where the level itself does. -/
theorem Stops.tighter {l : Level} {rest : List Token} (stops : l.Stops rest) : l.tighter.Stops rest :=
  fun t next k continued => Nat.lt_of_le_of_lt l.rank_tighter_le (stops t next k continued)

/-- In front of what stops a level, none of the level's own operators is accepted. So the loop over operators
ends there, and not before. -/
theorem Stops.unlisted {l : Level} {rest : List Token} (stops : l.Stops rest) {kinds : List TokenKind}
    (own : ∀ k ∈ kinds, continuedBy k = some l) : ∀ t ∈ rest.head?, t.kind ∉ kinds :=
  fun t next listed => Nat.lt_irrefl _ (stops t next l (own t.kind listed))

/-- In front of operators of its own level, or of nothing that continues it, an operand stops. -/
theorem Stops.operand {l : Level} {us rest : List Token} (operators : l.operators ≠ [])
    (stops : l.Stops rest) (listed : ∀ t ∈ us.head?, t.kind ∈ l.operators) :
    l.tighter.Stops (us ++ rest) := by
  cases us with
  | nil => exact stops.tighter
  | cons op us =>
      refine stops_cons rfl fun k continued => ?_
      have own := continuedBy_of_mem_operators op.kind (listed op rfl)
      rw [own] at continued
      cases continued
      exact rank_tighter_lt operators

end Level

namespace Parse

open Grammar

variable {α : Type}

/-! ### The next token -/

theorem head_ne {t : Token} {rest : List Token} {kind other : TokenKind} (same : t.kind = kind)
    (differs : kind ≠ other) : ∀ u ∈ (t :: rest).head?, u.kind ≠ other := by
  intro u next
  cases next
  rw [same]
  exact differs

/-- Tokens that begin a phrase are not among kinds that begin none. -/
theorem head_unlisted {starts : TokenKind → Bool} {kinds : List TokenKind} {t : Token}
    {rest : List Token} (begins : starts t.kind = true) (never : ∀ k ∈ kinds, starts k = false) :
    ∀ u ∈ (t :: rest).head?, u.kind ∉ kinds := by
  intro u next listed
  cases next
  rw [never t.kind listed] at begins
  cases begins

/-! ### Lists in parentheses -/

/-- The last item of a list, with no comma behind it. There is room for it, so nothing is reported. -/
theorem itemsFrom_completes_one {excess : SyntaxFault} {item : Parse α} {ts rest : List Token} {a : α}
    {count : Nat} (fuel : Nat) (few : count < mostArguments)
    (other : ∀ t ∈ rest.head?, t.kind ≠ .comma) (completes : Completes item ts rest a) :
    Completes (itemsFrom excess item (fuel + 1) count) ts rest [a] := by
  unfold itemsFrom
  rw [decide_eq_false (Nat.not_le.mpr few)]
  have unlisted : ∀ t ∈ rest.head?, t.kind ∉ [.comma] :=
    fun t next same => other t next (List.mem_singleton.mp same)
  exact .look reportIf_completes (.last completes
    (.look (accept?_completes_none unlisted) (.pure [a] rest)))

/-- An item with a comma behind it, and then the items that follow. The count grows by one, and stays within
what is allowed. -/
theorem itemsFrom_completes_more {excess : SyntaxFault} {item : Parse α} {ts us rest : List Token}
    {comma : Token} {a : α} {as : List α} {fuel count : Nat} (few : count < mostArguments)
    (divided : comma.kind = .comma) (completes : Completes item ts (comma :: (us ++ rest)) a)
    (more : Completes (itemsFrom excess item fuel (count + 1)) us rest as) :
    Completes (itemsFrom excess item (fuel + 1) count) (ts ++ comma :: us) rest (a :: as) := by
  unfold itemsFrom
  rw [decide_eq_false (Nat.not_le.mpr few)]
  exact .look reportIf_completes (.bind completes
    (.take (accept?_completes (List.mem_singleton.mpr divided)) (.last more (.pure (a :: as) rest))))

theorem items_completes_none {excess unclosed : SyntaxFault} {item : Parse α} {close : Token}
    {rest : List Token} (closed : close.kind = .rightParen) :
    Completes (items excess unclosed item) [close] rest [] :=
  .look (remaining_completes _) (.look (unlessNext_completes_none closed)
    (.take (expect_completes closed) (.pure [] rest)))

/-- A list that is not empty, and its closing parenthesis. Its first token is not that parenthesis, so the list
is not taken for an empty one. -/
theorem items_completes {excess unclosed : SyntaxFault} {item : Parse α} {close t : Token}
    {ts rest : List Token} {as : List α} (closed : close.kind = .rightParen)
    (other : t.kind ≠ .rightParen)
    (listed : ∀ fuel, (t :: ts ++ close :: rest).length < fuel →
      Completes (itemsFrom excess item fuel 0) (t :: ts) (close :: rest) as) :
    Completes (items excess unclosed item) (t :: (ts ++ [close])) rest as := by
  refine .look (remaining_completes _) ?_
  refine @Completes.bind _ _ _ _ (t :: ts) [close] rest (some as) as ?_
    (.take (expect_completes closed) (.pure as rest))
  refine unlessNext_completes other (listed _ ?_)
  simp

/-- Parameters with commas between them are read in order, as long as there are not too many. By induction over
the list. -/
theorem parameters_complete {excess fault : SyntaxFault} {ts names rest : List Token}
    (separated : Separated (fun us name => us = [name] ∧ name.kind = .identifier) ts names)
    (other : ∀ t ∈ rest.head?, t.kind ≠ .comma) (count fuel : Nat)
    (few : count + names.length ≤ mostArguments) (enough : (ts ++ rest).length < fuel) :
    Completes (itemsFrom excess (expect .identifier fault) fuel count) ts rest names := by
  induction separated generalizing count fuel with
  | one item =>
      obtain ⟨rfl, named⟩ := item
      cases fuel with
      | zero => exact absurd enough (Nat.not_lt_zero _)
      | succ fuel => exact itemsFrom_completes_one fuel few other (expect_completes named)
  | more item divided _ ih =>
      obtain ⟨rfl, named⟩ := item
      cases fuel with
      | zero => exact absurd enough (Nat.not_lt_zero _)
      | succ fuel =>
          simp only [List.length_cons, List.length_append] at few enough
          exact itemsFrom_completes_more (by omega) divided (expect_completes named)
            (ih (count + 1) fuel (by omega) (by simp; omega))

/-! ### Expressions -/

/-- A level that finds none of its own signs reads what the next tighter one does, at one depth less. The side
conditions say which signs are meant: a sign in front for the unary level, an operator behind for the others. -/
theorem expression_descends {l : Level} {depth : Nat} {ts rest : List Token} {e : Expr}
    (inner : Completes (expression depth l.tighter) ts rest e) (higher : l ≠ .primary)
    (unsigned : ∀ t ∈ (ts ++ rest).head?, l = .unary → t.kind ∉ [.bang, .minus])
    (stops : l.Stops rest) : Completes (expression (depth + 1) l) ts rest e := by
  have chained : ∀ (ops : List TokenKind) (join : Expr → Token → Expr → Expr) (fuel : Nat),
      (∀ k ∈ ops, Level.continuedBy k = some l) →
      Completes (chain ops join (expression depth l.tighter) fuel e) [] rest e := by
    intro ops join fuel own
    cases fuel with
    | zero => exact .pure e rest
    | succ fuel => exact .look (accept?_completes_none (stops.unlisted own)) (.pure e rest)
  cases l with
  | assignment | ternary =>
      refine .last inner (.look (accept?_completes_none (stops.unlisted ?_)) (.pure e rest))
      decide
  | disjunction | conjunction | equality | comparison | sum | product =>
      exact .last inner (.look (remaining_completes _) (chained _ _ _ (by decide)))
  | unary => exact .look (accept?_completes_none fun t next => unsigned t next rfl) inner
  | call =>
      refine .last inner (.look (remaining_completes _) ?_)
      cases ([] ++ rest).length with
      | zero => exact .pure e rest
      | succ fuel =>
          exact .look (accept?_completes_none (stops.unlisted (by decide))) (.pure e rest)
  | primary => exact absurd rfl higher

/-- Literals and names are read by their one token. Groupings are left to the induction over derivations, since
they hold a whole expression. -/
theorem primary_completes {inner : Parse Expr} {ts rest : List Token} {e : Expr}
    (derived : Derives (.level .primary) ts e) (ungrouped : ∀ i, e ≠ .grouping i) :
    Completes (primary inner) ts rest e := by
  cases derived with
  | chain operators => exact absurd rfl operators
  | falseWord kind | trueWord kind | nilWord kind | name kind =>
      refine .take (accept?_completes (by simp [kind])) ?_
      simp only [kind]
      exact .pure _ rest
  | constant kind =>
      rcases kind with kind | kind <;>
      · refine .take (accept?_completes (by simp [kind])) ?_
        simp only [kind]
        exact .pure _ rest
  | grouping => exact absurd rfl (ungrouped _)

/-- A bare name is read at every level. The levels that are passed on the way down find none of their signs
behind it, since it stands in front of what stops the loosest of them. -/
theorem name_completes {name : Token} (named : name.kind = .identifier) (depth : Nat) (l : Level)
    {rest : List Token} (stops : l.Stops rest) :
    Completes (expression depth l) [name] rest (.variable name) := by
  induction depth generalizing l with
  | zero => exact tooDeep_completes
  | succ depth ih =>
      by_cases lowest : l = .primary
      · subst lowest
        exact primary_completes (.name named) fun _ => nofun
      · refine expression_descends (ih l.tighter stops.tighter) lowest ?_ stops
        intro t next _
        cases next
        rw [named]
        decide

end Parse

namespace Grammar

open Parse

/-- A call does not begin with a sign, so the level of signs hands its tokens on to the level of calls. -/
theorem Derives.call_unsigned {ts : List Token} {e : Expr} (derived : Derives (.level .call) ts e)
    (rest : List Token) : ∀ t ∈ (ts ++ rest).head?, t.kind ∉ [.bang, .minus] := by
  cases derived with
  | chain operators => exact absurd rfl operators
  | callee first _ =>
      intro t next
      cases first with
      | chain operators => exact absurd rfl operators
      | falseWord kind | trueWord kind | nilWord kind | name kind | grouping kind =>
          cases next
          rw [kind]
          decide
      | constant kind =>
          cases next
          rcases kind with kind | kind <;> rw [kind] <;> decide

/-- What reading a derived phrase has to give, in front of tokens that do not continue it. -/
def Phrase.Complete : (s : Phrase) → List Token → s.Tree → Prop
  | .level l, ts, e => ∀ depth rest, l.Stops rest → Completes (expression depth l) ts rest e
  | .operators l left, ts, e => l.operators ≠ [] → ∀ depth rest fuel, l.Stops rest →
      (ts ++ rest).length ≤ fuel →
      Completes (chain l.operators l.join (expression depth l.tighter) fuel left) ts rest e
  | .calls callee, ts, e => ∀ depth rest fuel, Level.call.Stops rest → (ts ++ rest).length ≤ fuel →
      Completes (Parse.calls (expression depth .assignment) fuel callee) ts rest e
  | .arguments, ts, es => ∀ depth rest count fuel, Level.assignment.Stops rest →
      (∀ t ∈ rest.head?, t.kind ≠ .comma) → count + es.length ≤ mostArguments →
      (ts ++ rest).length < fuel →
      Completes (itemsFrom .tooManyArguments (expression depth .assignment) fuel count) ts rest es

/-- On a level with operators, an expression is a row of tighter ones with these operators between them. The
levels differ in their operators and in the tree they join operands to, and in nothing else. -/
theorem expression_chain {l : Level} (operators : l.operators ≠ []) (depth : Nat) :
    expression (depth + 1) l = leftAssoc l.operators l.join (expression depth l.tighter) := by
  cases l with
  | disjunction | conjunction | equality | comparison | sum | product => rfl
  | assignment | ternary | unary | call | primary => exact absurd rfl operators

/-- It is enough to read an expression at every positive depth. At depth zero reading goes too deep, and
completeness asks for nothing then. -/
theorem Phrase.complete_of_succ {l : Level} {ts : List Token} {e : Expr}
    (completes : ∀ depth rest, l.Stops rest → Completes (expression (depth + 1) l) ts rest e) :
    Phrase.Complete (.level l) ts e := by
  intro depth rest stops
  cases depth with
  | zero => exact tooDeep_completes
  | succ depth => exact completes depth rest stops

/-- A literal or a name is complete at any depth. It is the start of the induction over derivations. -/
theorem primary_complete {ts : List Token} {e : Expr} (derived : Derives (.level .primary) ts e)
    (ungrouped : ∀ i, e ≠ .grouping i) : Phrase.Complete (.level .primary) ts e :=
  Phrase.complete_of_succ fun _ _ _ => primary_completes derived ungrouped

/-- **Every derived expression is read.** On its tokens, in front of what stops its level, reading gives the
derived tree and reports nothing, unless the depth runs out. By induction over the derivation. -/
theorem Derives.complete {s : Phrase} {ts : List Token} {tree : s.Tree} (derived : Derives s ts tree) :
    s.Complete ts tree := by
  induction derived with
  | assign named signed _ ih =>
      refine Phrase.complete_of_succ fun depth rest stops => ?_
      refine .take (name_completes named depth .disjunction ?_)
        (.take (accept?_completes (List.mem_singleton.mpr signed))
          (.last (ih depth rest stops) (.pure _ rest)))
      exact Level.stops_cons signed (by decide)
  | disjunction _ ih | equality _ ih =>
      refine Phrase.complete_of_succ fun depth rest stops => ?_
      refine expression_descends (ih depth rest stops.tighter) (by decide) ?_ stops
      intro t _ same
      cases same
  | chain operators _ derivedRest ihFirst ihRest =>
      refine Phrase.complete_of_succ fun depth rest stops => ?_
      rw [expression_chain operators]
      exact .bind (ihFirst depth _ (stops.operand operators derivedRest.operators_head))
        (.look (remaining_completes _) (ihRest operators depth rest _ stops (Nat.le_refl _)))
  | operand =>
      intro operators depth rest fuel stops _
      cases fuel with
      | zero => exact .pure _ rest
      | succ fuel =>
          exact .look (accept?_completes_none (stops.unlisted Level.continuedBy_of_mem_operators))
            (.pure _ rest)
  | operator listed _ derivedRest ihRight ihRest =>
      intro operators depth rest fuel stops enough
      cases fuel with
      | zero => exact absurd enough (Nat.not_succ_le_zero _)
      | succ fuel =>
          refine .take (accept?_completes listed) (.bind
            (ihRight depth _ (stops.operand operators derivedRest.operators_head))
            (ihRest operators depth rest fuel stops ?_))
          simp at enough ⊢
          omega
  | ternary _ asked _ divided _ ihCondition ihYes ihNo =>
      refine Phrase.complete_of_succ fun depth rest stops => ?_
      refine .bind (ihCondition depth _ (Level.stops_cons asked (by decide)))
        (.take (accept?_completes (List.mem_singleton.mpr asked))
          (.bind (ihYes depth _ (Level.stops_cons divided (by decide)))
            (.take (expect_completes divided) (.last (ihNo depth rest stops) (.pure _ rest)))))
  | unary kind _ ih =>
      refine Phrase.complete_of_succ fun depth rest stops => ?_
      exact .take (accept?_completes (by simpa using kind))
        (.last (ih depth rest stops) (.pure _ rest))
  | call derivedCall ih =>
      refine Phrase.complete_of_succ fun depth rest stops => ?_
      exact expression_descends (ih depth rest stops.tighter) (by decide)
        (fun t next _ => derivedCall.call_unsigned rest t next) stops
  | callee _ _ ihFirst ihRest =>
      refine Phrase.complete_of_succ fun depth rest stops => ?_
      exact .bind (ihFirst depth _ (Level.stops_primary _))
        (.look (remaining_completes _) (ihRest depth rest _ stops (Nat.le_refl _)))
  | uncalled =>
      intro depth rest fuel stops _
      cases fuel with
      | zero => exact .pure _ rest
      | succ fuel =>
          exact .look (accept?_completes_none (stops.unlisted (by decide))) (.pure _ rest)
  | emptyCall opened closed _ ih =>
      intro depth rest fuel stops enough
      cases fuel with
      | zero => exact absurd enough (Nat.not_succ_le_zero _)
      | succ fuel =>
          refine .take (accept?_completes (List.mem_singleton.mpr opened))
            (.take (items_completes_none closed) (ih depth rest fuel stops ?_))
          simp at enough ⊢
          omega
  | @fullCall paren close ts us callee e arguments opened derivedArguments few closed _ ihArguments ih =>
      intro depth rest fuel stops enough
      cases fuel with
      | zero => exact absurd enough (Nat.not_succ_le_zero _)
      | succ fuel =>
          obtain ⟨t, ts, rfl, starts⟩ := derivedArguments.opens
          have other : t.kind ≠ .rightParen := by
            intro same
            rw [same] at starts
            cases starts
          have listed : Completes (Parse.arguments (expression depth .assignment))
              (t :: (ts ++ [close])) (us ++ rest) arguments := by
            refine items_completes closed other fun fuel enough => ?_
            exact ihArguments depth _ 0 fuel (Level.stops_cons closed (by decide))
              (head_ne closed (by decide)) (by omega) enough
          have called := ih depth rest fuel stops (by simp at enough ⊢; omega)
          have split : t :: ts ++ close :: us = t :: (ts ++ [close]) ++ us := by simp
          rw [split]
          exact .take (accept?_completes (List.mem_singleton.mpr opened)) (.bind listed called)
  | argument _ ih =>
      intro depth rest count fuel stops other few enough
      cases fuel with
      | zero => exact absurd enough (Nat.not_lt_zero _)
      | succ fuel => exact itemsFrom_completes_one fuel few other (ih depth rest stops)
  | moreArguments _ divided _ ihFirst ihRest =>
      intro depth rest count fuel stops other few enough
      cases fuel with
      | zero => exact absurd enough (Nat.not_lt_zero _)
      | succ fuel =>
          simp only [List.length_cons, List.length_append] at few enough
          exact itemsFrom_completes_more (by omega) divided
            (ihFirst depth _ (Level.stops_cons divided (by decide)))
            (ihRest depth rest (count + 1) fuel stops other (by omega) (by simp; omega))
  | falseWord kind => exact primary_complete (.falseWord kind) fun _ => nofun
  | trueWord kind => exact primary_complete (.trueWord kind) fun _ => nofun
  | nilWord kind => exact primary_complete (.nilWord kind) fun _ => nofun
  | constant kind => exact primary_complete (.constant kind) fun _ => nofun
  | name kind => exact primary_complete (.name kind) fun _ => nofun
  | grouping opened _ closed ih =>
      refine Phrase.complete_of_succ fun depth rest _ => ?_
      refine .take (accept?_completes (by simp [opened])) ?_
      simp only [opened]
      exact .bind (ih depth _ (Level.stops_cons closed (by decide)))
        (.take (expect_completes closed) (.pure _ rest))

/-! ### Statements -/

section Clauses

variable {ts rest : List Token} (depth : Nat)

/-- An optional expression is read in front of the token that ends it, since no expression begins with that
token. -/
theorem OptionalExpression.completes {o : Option Expr} {t : Token} {stop : TokenKind}
    (derived : OptionalExpression ts o) (stopped : t.kind = stop) (other : startsExpression stop = false)
    (unable : Level.continuedBy stop = none) :
    Completes (unlessNext stop (expression depth .assignment)) ts (t :: rest) o := by
  cases derived with
  | absent => exact unlessNext_completes_none stopped
  | present derived =>
      obtain ⟨u, us, rfl, starts⟩ := derived.opens
      refine unlessNext_completes ?_ (derived.complete depth _ (Level.stops_cons stopped ?_))
      · intro same
        rw [same, other] at starts
        cases starts
      · intro k continued
        rw [unable] at continued
        cases continued

theorem ExpressionStatement.completes {s : Stmt} (built : ExpressionStatement ts s) :
    Completes (expressionStatement (expression depth .assignment)) ts rest s := by
  cases built with
  | mk derived ended =>
      exact .bind (derived.complete depth _ (Level.stops_cons ended (by decide)))
        (.take (expect_completes ended) (.pure _ rest))

/-- A variable declaration is read behind its keyword, with its value if there is one. -/
theorem VarDeclaration.completes {keyword : Token} {s : Stmt}
    (declared : VarDeclaration (keyword :: ts) s) :
    Completes (varRest (expression depth .assignment)) ts rest s := by
  cases declared with
  | bare _ named ended =>
      exact .take (expect_completes named)
        (.look (afterSign_completes_none (head_ne ended (by decide)))
          (.take (expect_completes ended) (.pure _ rest)))
  | initialised _ named signed derived ended =>
      have stops := derived.complete depth (_ :: rest) (Level.stops_cons ended (by decide))
      exact .take (expect_completes named) (.bind (afterSign_completes signed stops)
        (.take (expect_completes ended) (.pure _ rest)))

/-- All three forms of the first clause of a `for` loop are read: none, a variable declaration and an
expression. The first token tells which one it is. -/
theorem ForInitial.completes {o : Option Stmt} (derived : ForInitial ts o) :
    Completes (forInitial (Parse.expression depth .assignment)) ts rest o := by
  cases derived with
  | absent ended =>
      refine .take (accept?_completes (by simp [ended])) ?_
      simp only [ended, if_true]
      exact .pure none rest
  | declaration declared =>
      obtain ⟨keyword, us, rfl, kind⟩ := declared.opens
      refine .take (accept?_completes (by simp [kind])) ?_
      simp only [kind, reduceCtorEq, if_false]
      exact (declared.completes depth).map
  | expression built =>
      obtain ⟨t, us, rfl, starts⟩ := built.opens
      exact .look (accept?_completes_none (head_unlisted starts (by decide))) (built.completes depth).map

theorem Parameters.completes {names : List Token} {excess unclosed fault : SyntaxFault} {close : Token}
    (derived : Parameters ts names) (few : names.length ≤ mostArguments)
    (closed : close.kind = .rightParen) :
    Completes (items excess unclosed (expect .identifier fault)) (ts ++ [close]) rest names := by
  cases derived with
  | absent => exact items_completes_none closed
  | present separated =>
      obtain ⟨name, us, rfl, named⟩ : ∃ name us, ts = name :: us ∧ name.kind = .identifier := by
        cases separated with
        | one item | more item =>
            obtain ⟨rfl, named⟩ := item
            exact ⟨_, _, rfl, named⟩
      refine items_completes closed (by rw [named]; decide) fun fuel enough => ?_
      exact parameters_complete separated (head_ne closed (by decide)) 0 fuel (by omega) enough

end Clauses

/-- What reading a derived part has to give. A dangling statement is not read in front of an `else`, and
declarations are read up to a token that begins none. -/
def Part.Complete : (s : Part) → List Token → s.Tree → Prop
  | .statement f dangling, ts, s => ∀ depth rest,
      (dangling = true → ∀ t ∈ rest.head?, t.kind ≠ .elseWord) →
      Completes (Parse.statement depth f) ts rest s
  | .declaration f, ts, s => ∀ depth rest, (∀ t ∈ rest.head?, t.kind ≠ .elseWord) →
      Completes (Parse.declaration depth f) ts rest (some s)
  | .declarations f, ts, ss => ∀ depth rest stop fuel, (∀ t ∈ rest.head?, stop = some t.kind) →
      (∀ k, stop = some k → startsDeclaration k = false ∧ k ≠ .elseWord) →
      (ts ++ rest).length ≤ fuel →
      Completes (declarationsUpTo stop (Parse.declaration depth f) fuel) ts rest ss

/-- The declarations of a block are read up to its closing brace, which no declaration begins with. -/
theorem blockBody_completes {f : Bool} {ts rest : List Token} {body : List Stmt} {close : Token}
    {depth : Nat} (closed : close.kind = .rightBrace)
    (complete : ∀ rest stop fuel, (∀ t ∈ rest.head?, stop = some t.kind) →
      (∀ k, stop = some k → startsDeclaration k = false ∧ k ≠ .elseWord) →
      (ts ++ rest).length ≤ fuel →
      Completes (declarationsUpTo stop (Parse.declaration depth f) fuel) ts rest body) :
    Completes (blockBody (Parse.declaration depth f)) (ts ++ [close]) rest body := by
  refine .look (remaining_completes _) (.bind (complete _ _ _ ?_ ?_ ?_)
    (.take (expect_completes closed) (.pure body rest)))
  · intro t next
    cases next
    rw [closed]
  · rintro k ⟨⟩
    decide
  · simp

/-- A row of declarations is over at its stop or at the end of the tokens, with nothing taken. -/
theorem declarationsUpTo_completes_none {stop : Option TokenKind}
    {declaration : Parse (Option Stmt)} {fuel : Nat} {rest : List Token}
    (stopped : ∀ t ∈ rest.head?, stop = some t.kind) :
    Completes (declarationsUpTo stop declaration fuel) [] rest [] := by
  cases fuel with
  | zero => exact .pure [] rest
  | succ fuel =>
      intro c start
      left
      unfold declarationsUpTo
      cases c
      cases start
      cases rest with
      | nil => rfl
      | cons t rest =>
          dsimp only [List.nil_append]
          rw [if_pos (stopped t rfl)]

/-- A declaration that does not begin with the stop is read, and then the rest of the row. -/
theorem declarationsUpTo_completes_more {stop : Option TokenKind}
    {declaration : Parse (Option Stmt)} {fuel : Nat} {t : Token} {ts us rest : List Token} {s : Stmt}
    {ss : List Stmt} (unstopped : stop ≠ some t.kind)
    (first : Completes declaration (t :: ts) (us ++ rest) (some s))
    (more : Completes (declarationsUpTo stop declaration fuel) us rest ss) :
    Completes (declarationsUpTo stop declaration (fuel + 1)) (t :: ts ++ us) rest (s :: ss) := by
  have turn : Completes (do
      let first ← declaration
      let more ← declarationsUpTo stop declaration fuel
      return first.toList ++ more) (t :: ts ++ us) rest (s :: ss) :=
    .bind first (.last more (.pure (s :: ss) rest))
  intro c start
  unfold declarationsUpTo
  rw [start]
  dsimp only [List.cons_append]
  rw [if_neg unstopped]
  exact turn c start

/-- After declarations, or none, no `else` comes if none comes behind them. No declaration begins with an
`else`, so a dangling `if` in front of the row is not continued by it. -/
theorem unread_append {rule : ElseRule} {f : Bool} {us rest : List Token} {ss : List Stmt}
    (built : Builds rule (.declarations f) us ss) (unread : ∀ t ∈ rest.head?, t.kind ≠ .elseWord) :
    ∀ t ∈ (us ++ rest).head?, t.kind ≠ .elseWord := by
  cases us with
  | nil => exact unread
  | cons u us =>
      intro t next same
      cases next
      have starts := built.declarations_head u rfl
      rw [same] at starts
      cases starts

/-- It is enough to read a statement at every positive depth, as for expressions. A statement that ends in an
`if` without `else` is read only in front of what is no `else`. -/
theorem Part.complete_statement {f dangling : Bool} {ts : List Token} {s : Stmt}
    (completes : ∀ depth rest, (dangling = true → ∀ t ∈ rest.head?, t.kind ≠ .elseWord) →
      Completes (Parse.statement (depth + 1) f) ts rest s) :
    Part.Complete (.statement f dangling) ts s := by
  intro depth rest unread
  cases depth with
  | zero => exact tooDeep_completes
  | succ depth => exact completes depth rest unread

/-- A declaration is complete when it is read at every positive depth, in front of what is no `else`. Without
any depth there is nothing to show. -/
theorem Part.complete_declaration {f : Bool} {ts : List Token} {s : Stmt}
    (completes : ∀ depth rest, (∀ t ∈ rest.head?, t.kind ≠ .elseWord) →
      Completes (Parse.declaration (depth + 1) f) ts rest (some s)) :
    Part.Complete (.declaration f) ts s := by
  intro depth rest unread
  cases depth with
  | zero => exact tooDeep_completes
  | succ depth => exact completes depth rest unread

/-- **Every program that the grammar builds is read.** Where an `else` belongs to the nearest `if`, reading
gives the tree that was built and reports nothing, unless the depth runs out. By induction over the way it is
built. -/
theorem Builds.complete {s : Part} {ts : List Token} {tree : s.Tree} (built : Builds .nearest s ts tree) :
    s.Complete ts tree := by
  induction built with
  | expression derived =>
      refine Part.complete_statement fun depth rest _ => ?_
      obtain ⟨t, us, rfl, starts⟩ := derived.opens
      exact .look (accept?_completes_none (head_unlisted starts (by decide))) (derived.completes depth)
  | print kind derived ended =>
      refine Part.complete_statement fun depth rest _ => ?_
      refine .take (accept?_completes (by simp [kind])) ?_
      simp only [kind]
      exact .bind (derived.complete depth _ (Level.stops_cons ended (by decide)))
        (.take (expect_completes ended) (.pure _ rest))
  | «return» kind derived ended =>
      refine Part.complete_statement fun depth rest _ => ?_
      refine .take (accept?_completes (by simp [kind])) ?_
      simp only [kind]
      exact .look reportIf_completes (.bind (derived.completes depth ended (by decide) (by decide))
        (.take (expect_completes ended) (.pure _ rest)))
  | block kind _ closed ih =>
      refine Part.complete_statement fun depth rest _ => ?_
      refine .take (accept?_completes (by simp [kind])) ?_
      simp only [kind]
      exact (blockBody_completes closed (ih depth)).map
  | «if» kind opened derived closed _ ih =>
      refine Part.complete_statement fun depth rest unread => ?_
      refine .take (accept?_completes (by simp [kind])) ?_
      simp only [kind]
      exact .take (expect_completes opened)
        (.bind (derived.complete depth _ (Level.stops_cons closed (by decide)))
          (.take (expect_completes closed) (.last (ih depth rest fun _ => unread rfl)
            (.look (afterSign_completes_none (unread rfl)) (.pure _ rest)))))
  | ifElse kind opened derived closed _ settled signed _ ihYes ihNo =>
      refine Part.complete_statement fun depth rest unread => ?_
      refine .take (accept?_completes (by simp [kind])) ?_
      simp only [kind]
      exact .take (expect_completes opened)
        (.bind (derived.complete depth _ (Level.stops_cons closed (by decide)))
          (.take (expect_completes closed) (.bind (ihYes depth _ (by simp [settled rfl]))
            (.last (afterSign_completes signed (ihNo depth rest unread)) (.pure _ rest)))))
  | «while» kind opened derived closed _ ih =>
      refine Part.complete_statement fun depth rest unread => ?_
      refine .take (accept?_completes (by simp [kind])) ?_
      simp only [kind]
      exact .take (expect_completes opened)
        (.bind (derived.complete depth _ (Level.stops_cons closed (by decide)))
          (.take (expect_completes closed) (.last (ih depth rest unread) (.pure _ rest))))
  | «for» kind opened begun tested ended stepped closed _ form ih =>
      refine Part.complete_statement fun depth rest unread => ?_
      cases whileForm_iff.mp form
      refine .take (accept?_completes (by simp [kind])) ?_
      simp only [kind]
      exact .take (expect_completes opened) (.bind (begun.completes depth)
        (.bind (tested.completes depth ended (by decide) (by decide))
          (.take (expect_completes ended)
            (.bind (stepped.completes depth closed (by decide) (by decide))
              (.take (expect_completes closed) (.last (ih depth rest unread) (.pure _ rest)))))))
  | function kind named opened declared few closed braced _ ended ih =>
      refine Part.complete_declaration fun depth rest _ => ?_
      refine recovering_completes (.take (accept?_completes (by simp [kind])) ?_)
      simp only [kind, if_true]
      refine .take (expect_completes named) (.take (expect_completes opened) ?_)
      rw [List.append_cons]
      exact .bind (declared.completes few closed) (.take (expect_completes braced)
        (.last (blockBody_completes ended (ih depth)) (.pure _ rest)))
  | var declared =>
      refine Part.complete_declaration fun depth rest _ => ?_
      obtain ⟨keyword, us, rfl, kind⟩ := declared.opens
      refine recovering_completes (.take (accept?_completes (by simp [kind])) ?_)
      simp only [kind, reduceCtorEq, if_false]
      exact declared.completes depth
  | statement builtStatement ih =>
      refine Part.complete_declaration fun depth rest unread => ?_
      obtain ⟨t, us, rfl, starts⟩ := builtStatement.statement_opens
      have unlisted : ∀ u ∈ (t :: us ++ rest).head?, u.kind ∉ [.funWord, .varWord] :=
        head_unlisted starts (by decide)
      exact recovering_completes (.look (accept?_completes_none unlisted) (ih depth rest fun _ => unread))
  | none =>
      intro depth rest stop fuel stopped _ _
      exact declarationsUpTo_completes_none stopped
  | more builtFirst builtRest ihFirst ihRest =>
      intro depth rest stop fuel stopped unable enough
      obtain ⟨t, us, rfl, starts⟩ := builtFirst.declaration_opens
      cases fuel with
      | zero => exact absurd enough (Nat.not_succ_le_zero _)
      | succ fuel =>
          have unstopped : stop ≠ some t.kind := by
            intro same
            rw [(unable t.kind same).1] at starts
            cases starts
          refine declarationsUpTo_completes_more unstopped (ihFirst depth _ ?_)
            (ihRest depth rest stop fuel stopped unable ?_)
          · exact unread_append builtRest fun u next => (unable u.kind (stopped u next)).2
          · simp at enough ⊢
            omega

end Grammar

end Treewalk

import Mathlib.Data.Nat.Digits.Defs
import ScriptFront.Proofs.ReportOrder
import ScriptFront.Proofs.WellFormed

/-!
# Trees and reports agree with the tokens

However faulty a text is, what comes of it is true to its tokens. Every node of
the tree is what its token says (`agrees_parse`): nothing is missing but values
of statements, and nothing is made up in their place. And every report says what
is the case with the token that it blames (`reports_hold`).

The invariant is one of parsers (`Parser.Honest`): the tokens ahead are tokens
of a text, and what was reported so far holds. From an honest parser every form
comes to an honest parser again, and to a part of a tree that agrees with its
tokens, if it does not give up (`Action.Yields`).
-/

namespace ScriptFront

open ScriptFront.Action

/-! ### Numbers -/

/-- The number that a token of digits stands for, in the decimal system. -/
def Token.number (t : Token) : Nat :=
  Nat.ofDigits 10 (t.literal.toList.reverse.map fun d => d.toNat - '0'.toNat)

/-- The number is the value of the digits. -/
theorem Token.number_eq (t : Token) : t.number = Numeral.ofDigits t.literal.toList := by
  rw [number, Nat.ofDigits_eq_foldr, List.foldr_map, List.foldr_reverse, Numeral.ofDigits]
  congr 1
  funext n d
  exact Nat.add_comm _ _

/-- A token of digits has the number that it stands for as its value, unless
    that is above the limit. -/
theorem Token.Spelled.value?_eq {t : Token} (h : t.Spelled) (ht : t.kind = .int) :
    Numeral.value? t.literal = if t.number ≤ Numeral.limit then some t.number else none := by
  cases h with
  | fixed hw =>
    subst ht
    cases hw
  | name => cases ht
  | number hw =>
    obtain ⟨c, cs, hw, hc, hcs⟩ := hw
    rw [number_eq, Numeral.value?_of_digits (by simp [hw]) (by simp [hw, hc, hcs])]

/-! ### Agreement -/

/-- The token of the leftmost node of an expression, which is reached by going to
    left operands and to callees. -/
def Expr.leftmost : Expr → Token
  | .infixOp _ _ l _ => l.leftmost
  | .call _ c _ => c.leftmost
  | e => e.token

mutual

/-- Whether every node of an expression is what its token says. The values of the
    statements in it may be missing. -/
def Expr.Agrees : Expr → Prop
  | .ident x => x.WellFormed
  | .int t v => t.kind = .int ∧ t.Spelled ∧ v = Int.ofNat t.number ∧ t.number ≤ Numeral.limit
  | .bool t v => t = (if v then Kind.kwTrue.token else Kind.kwFalse.token)
  | .prefixOp t o e => (t = Kind.bang.token ∨ t = Kind.minus.token) ∧ o = t.literal ∧ e.Agrees
  | .infixOp t o l r =>
    (t.kind.operator?.isSome ∧ t = t.kind.token ∧ o = t.literal) ∧ l.Agrees ∧ r.Agrees
  | .cond t c a b => t = Kind.kwIf.token ∧ c.Agrees ∧ a.Agrees ∧ alternativeAgrees b
  | .func t ps b => t = Kind.kwFn.token ∧ (∀ p ∈ ps, p.WellFormed) ∧ b.Agrees
  | .call t c as => t = Kind.lparen.token ∧ c.Agrees ∧ Expr.AllAgree as

/-- Whether some expressions agree with their tokens. -/
def Expr.AllAgree : List Expr → Prop
  | [] => True
  | e :: es => e.Agrees ∧ Expr.AllAgree es

/-- Whether the second block of a choice, if there is one, agrees with its
    tokens. -/
def alternativeAgrees : Option Block → Prop
  | none => True
  | some b => b.Agrees

/-- Whether a value, if it is there, agrees with its tokens. -/
def valueAgrees : Option Expr → Prop
  | none => True
  | some e => e.Agrees

/-- Whether a statement agrees with its tokens. An expression on its own has the
    token that it starts with: that of its leftmost node, or a parenthesis before
    it. -/
def Stmt.Agrees : Stmt → Prop
  | .letStmt t x v => t = Kind.kwLet.token ∧ x.WellFormed ∧ valueAgrees v
  | .returnStmt t v => t = Kind.kwReturn.token ∧ valueAgrees v
  | .exprStmt t v => valueAgrees v ∧ ∀ e ∈ v, t = Kind.lparen.token ∨ t = e.leftmost

/-- Whether some statements agree with their tokens. -/
def Stmt.AllAgree : List Stmt → Prop
  | [] => True
  | s :: ss => s.Agrees ∧ Stmt.AllAgree ss

/-- Whether a block has its brace and statements that agree with their tokens. -/
def Block.Agrees : Block → Prop
  | .mk t ss => t = Kind.lbrace.token ∧ Stmt.AllAgree ss

end

/-- Whether every node of a program is what its token says. -/
def Program.Agrees (p : Program) : Prop := Stmt.AllAgree p.statements

/-- The kinds of token that may be expected after another one. -/
def Kind.expected : List Kind := [.ident, .assign, .lparen, .rparen, .lbrace]

/-- Whether what a report says is the case with the token that it blames, and
    with the depth of nesting at which it was made. -/
def Report.Holds (r : Report) : Prop :=
  match r.diagnostic.cause with
  | .unexpectedToken k actual =>
    actual = r.diagnostic.token.kind ∧ k ≠ actual ∧ k ∈ Kind.expected
  | .noExpression k => k = r.diagnostic.token.kind ∧ k.opens = false
  | .badInteger w => w = r.diagnostic.token.literal ∧ r.diagnostic.token.kind = .int ∧
    r.diagnostic.token.Spelled ∧ Numeral.limit < r.diagnostic.token.number
  | .nestingTooDeep n => n = maxDepth ∧ r.depth = maxDepth

/-! ### Honest parsers -/

namespace Parser

/-- The parser reads the standard language at the depth `d`. Its tokens are those
    of a text, and what it has reported holds. -/
structure Honest (d : Nat) (p : Parser) : Prop where
  plain : p.Plain
  depth : p.depth = d
  spelled : ∀ t ∈ p.ahead, t.kind = .eof ∨ t.kind = .illegal ∨ t.Spelled
  reports : ∀ r ∈ p.reports.toList, r.Holds

variable {p q : Parser} {d : Nat} {k : Kind} {r : Report}

/-- Moving forward without a report keeps a parser honest. -/
theorem Honest.later (h : p.Honest d) (hq : p.Later q) (hr : q.reports = p.reports) :
    q.Honest d :=
  ⟨h.plain.later hq, hq.depth.trans h.depth, fun t ht => h.spelled t (hq.ahead.subset ht),
    hr ▸ h.reports⟩

theorem Honest.advance (h : p.Honest d) : p.advance.Honest d :=
  h.later p.later_advance p.reports_advance

theorem Honest.record (h : p.Honest d) (hr : r.Holds) : (p.record r).Honest d := by
  refine ⟨h.plain.record r, h.depth, h.spelled, fun s hs => ?_⟩
  rw [Parser.record, Array.toList_push, List.mem_append, List.mem_singleton] at hs
  rcases hs with hs | rfl
  · exact h.reports s hs
  · exact hr

theorem Honest.enter (h : p.Honest d) : p.enter.Honest (d + 1) :=
  ⟨h.plain.enter, congrArg (· + 1) h.depth, h.spelled, h.reports⟩

theorem Honest.leave (h : p.Honest (d + 1)) : p.leave.Honest d :=
  ⟨h.plain.leave, congrArg (· - 1) h.depth, h.spelled, h.reports⟩

theorem honest_ofString (source : String) : (ofString source).Honest 0 := by
  refine ⟨plain_ofString source, rfl, fun t ht => ?_, fun _ hr => absurd hr List.not_mem_nil⟩
  change t ∈ Token.tokenize source at ht
  rw [Token.tokenize_eq, List.mem_append, List.mem_singleton] at ht
  rcases ht with ht | rfl
  · exact .inr (Token.spelled_of_mem ht)
  · exact .inl rfl

/-- The current token is written as its kind says. -/
theorem Honest.spelled_current (h : p.Honest d) (hk : p.current.kind = k)
    (hne : k ≠ .eof ∧ k ≠ .illegal) : p.current.Spelled := by
  have hmem : p.current ∈ p.ahead := by
    rw [h.plain.ahead_eq]
    exact List.mem_cons_self
  rcases h.spelled _ hmem with he | hi | hs
  · exact absurd (hk.symm.trans he) hne.1
  · exact absurd (hk.symm.trans hi) hne.2
  · exact hs

/-- A token of a kind with one spelling is the token of that kind. -/
theorem Honest.current_eq (h : p.Honest d) (hk : p.current.kind = k)
    (hs : k.spelling?.isSome = true) : p.current = k.token := by
  refine Derives.eq_token hk (h.spelled_current hk ⟨?_, ?_⟩) hs <;> rintro rfl <;> cases hs

/-- A name that was just passed. -/
theorem Honest.ident_current (h : p.Honest d) (hk : p.current.kind = .ident) :
    (⟨p.current, p.current.literal⟩ : Ident).WellFormed :=
  ⟨hk, h.spelled_current hk (by decide), rfl⟩

end Parser

namespace Action

variable {α β : Type} {d : Nat} {p : Parser} {R : α → Prop} {Q : β → Prop} {x : Action α}
  {f : α → Action β}

/-- Whether an action came to an honest parser, and to a value with `R` unless it
    gave up. -/
structure Yields (d : Nat) (R : α → Prop) (r : Option α × Parser) : Prop where
  honest : r.2.Honest d
  value : ∀ a ∈ r.1, R a

/-- One action after the other: the second one starts from an honest parser and
    from a value with `R`. -/
theorem Yields.bind (hx : Yields d R (x p))
    (hf : ∀ a q, R a → q.Honest d → Yields d Q (f a q)) : Yields d Q ((x >>= f) p) := by
  rw [bind_apply]
  rcases hr : x p with ⟨_ | a, q⟩ <;> rw [hr] at hx
  · exact ⟨hx.honest, fun _ ha => nomatch ha⟩
  · exact hf a q (hx.value a rfl) hx.honest

theorem yields_pure {a : α} (hp : p.Honest d) (ha : R a) : Yields d R ((pure a : Action α) p) :=
  ⟨hp, fun _ hb => Option.some.inj hb ▸ ha⟩

/-- What could not be read is missing. -/
theorem Yields.total (hx : Yields d R (x p)) :
    Yields d (fun v => ∀ a ∈ v, R a) (total x p) :=
  ⟨hx.honest, fun _ hv => Option.some.inj hv ▸ hx.value⟩

/-- A level of nesting deeper, the depth is one more. -/
theorem Yields.nested (hx : Yields (d + 1) R (x p.enter)) : Yields d R (nested x p) :=
  ⟨hx.honest.leave, hx.value⟩

/-- Giving up keeps a parser honest if what it reports is the case. -/
theorem yields_refuse {cause : Cause} (hp : p.Honest d)
    (hc : Report.Holds ⟨⟨cause, p.current⟩, p.index, p.depth⟩) :
    Yields d R ((refuse cause : Action α) p) :=
  ⟨hp.record hc, fun _ ha => nomatch ha⟩

/-- A token that is not the expected one is blamed for just that. -/
theorem yields_expect_bind {k : Kind} {f : Unit → Action β} (hp : p.Honest d)
    (hk : k ∈ Kind.expected) (hf : ∀ q : Parser, q.Honest d → q.current.kind = k →
      Yields d Q (f () q)) : Yields d Q ((expect k >>= f) p) := by
  by_cases hpeek : p.peek.kind = k
  · rw [expect_bind_of_eq hpeek]
    have hend : ¬p.atEnd := by
      refine hp.plain.proper.not_atEnd ?_
      rw [hpeek]
      rintro rfl
      exact absurd hk (by decide)
    refine hf _ hp.advance ?_
    rw [Parser.current_advance hend, hpeek]
  · rw [bind_apply, expect, if_neg hpeek]
    refine ⟨hp.record ⟨rfl, fun h => hpeek h.symm, hk⟩, fun _ ha => ?_⟩
    cases ha

/-- By recursion on the bound: each item has the property. -/
theorem yields_repeatedUpTo {k : Kind} (hx : ∀ q : Parser, q.Honest d → Yields d R (x q)) :
    ∀ n {p : Parser}, p.Honest d → Yields d (fun as => ∀ a ∈ as, R a) (repeatedUpTo k x n p)
  | 0, _, hp => yields_pure hp fun _ ha => absurd ha List.not_mem_nil
  | n + 1, p, hp => by
    rw [repeatedUpTo, peekIs_bind]
    split
    · rw [advance_bind]
      refine (hx _ hp.advance).bind fun a q ha hq => ?_
      refine (yields_repeatedUpTo hx n hq).bind fun as r has hr => ?_
      exact yields_pure hr (List.forall_mem_cons.2 ⟨ha, has⟩)
    · exact yields_pure hp fun _ ha => absurd ha List.not_mem_nil

theorem yields_parenthesised (hx : ∀ q : Parser, q.Honest d → Yields d R (x q))
    (hp : p.Honest d) : Yields d (fun as => ∀ a ∈ as, R a) (parenthesised x p) := by
  rw [parenthesised, peekIs_bind]
  split
  · rw [advance_bind]
    exact yields_pure hp.advance fun _ ha => absurd ha List.not_mem_nil
  · refine (hx p hp).bind fun a q ha hq => ?_
    refine (yields_repeatedUpTo hx q.ahead.length hq).bind fun as r has hr => ?_
    refine yields_expect_bind hr (by decide) fun s hs _ => ?_
    exact yields_pure hs (List.forall_mem_cons.2 ⟨ha, has⟩)

end Action

/-! ### Forms -/

/-- Whether an expression agrees with its tokens and starts with the token `t`. -/
def Expr.StartsWith (t : Token) (e : Expr) : Prop :=
  e.Agrees ∧ (t = Kind.lparen.token ∨ t = e.leftmost)

/-- Some expressions agree with their tokens if each of them does. -/
theorem Expr.allAgree_iff {es : List Expr} : Expr.AllAgree es ↔ ∀ e ∈ es, e.Agrees := by
  induction es with
  | nil => simp [AllAgree]
  | cons e es ih => simp [AllAgree, ih]

/-- A statement that was left out need not agree with anything. -/
theorem Stmt.allAgree_cons {s : Option Stmt} {ss : List Stmt} (hs : ∀ t ∈ s, t.Agrees)
    (hss : Stmt.AllAgree ss) : Stmt.AllAgree (s.toList ++ ss) := by
  cases s with
  | none => exact hss
  | some s => exact ⟨hs s rfl, hss⟩

namespace Form

variable {expr : Precedence → Action Expr} {d : Nat} {p : Parser} {left : Expr}

theorem honest_skipSemicolon (hp : p.Honest d) : (skipSemicolon p).Honest d := by
  rw [skipSemicolon]
  split
  · exact hp.advance
  · exact hp

theorem yields_parameter (hp : p.Honest d) : Yields d Ident.WellFormed (parameter p) := by
  rw [parameter]
  refine yields_expect_bind hp (by decide) fun q hq hk => ?_
  rw [current_bind]
  exact yields_pure hq (hq.ident_current hk)

theorem yields_identifier (hp : p.Honest d) (hk : p.current.kind = .ident) :
    Yields d (Expr.StartsWith p.current) (identifier p) := by
  rw [identifier, current_bind]
  exact yields_pure hp ⟨hp.ident_current hk, .inr rfl⟩

/-- An integer has the number of its token, or is reported for being above the
    limit. -/
theorem yields_integer (hp : p.Honest d) (hk : p.current.kind = .int) :
    Yields d (Expr.StartsWith p.current) (integer p) := by
  have hs := hp.spelled_current hk (by decide)
  rw [integer, current_bind, hs.value?_eq hk]
  by_cases hle : p.current.number ≤ Numeral.limit
  · rw [if_pos hle]
    exact yields_pure hp ⟨⟨hk, hs, rfl, hle⟩, .inr rfl⟩
  · rw [if_neg hle]
    exact yields_refuse hp ⟨rfl, hk, hs, Nat.lt_of_not_le hle⟩

theorem yields_boolean (hp : p.Honest d)
    (hk : p.current.kind = .kwTrue ∨ p.current.kind = .kwFalse) :
    Yields d (Expr.StartsWith p.current) (boolean p) := by
  rw [boolean, current_bind]
  refine yields_pure hp ⟨?_, .inr rfl⟩
  rcases hk with hk | hk <;> simpa [Expr.Agrees, hk] using hp.current_eq hk rfl

variable (h : ∀ q {p : Parser}, p.Honest d → Yields d (Expr.StartsWith p.current) (expr q p))

include h

/-! #### Statements -/

/-- A value agrees with its tokens, and starts with the token at which it was
    read, or it is missing. -/
theorem yields_value (hp : p.Honest d) :
    Yields d (fun v => valueAgrees v ∧ ∀ e ∈ v, p.current = Kind.lparen.token ∨
      p.current = e.leftmost) (value expr p) := by
  rw [value]
  refine (h .lowest hp).total.bind fun v q hv hq => ?_
  refine yields_pure (honest_skipSemicolon hq) ⟨?_, fun e he => (hv e he).2⟩
  cases v with
  | none => trivial
  | some e => exact (hv e rfl).1

/-- A `let` statement has its own token, a name that was passed, and a value. -/
theorem yields_letStmt (hp : p.Honest d) (hk : p.current.kind = .kwLet) :
    Yields d Stmt.Agrees (letStmt expr p) := by
  rw [letStmt, current_bind]
  refine yields_expect_bind hp (by decide) fun q hq hi => ?_
  rw [current_bind]
  refine yields_expect_bind hq (by decide) fun r hr _ => ?_
  rw [advance_bind]
  refine (yields_value h hr.advance).bind fun v s hv hs => ?_
  exact yields_pure hs ⟨hp.current_eq hk rfl, hq.ident_current hi, hv.1⟩

theorem yields_returnStmt (hp : p.Honest d) (hk : p.current.kind = .kwReturn) :
    Yields d Stmt.Agrees (returnStmt expr p) := by
  rw [returnStmt, current_bind, advance_bind]
  refine (yields_value h hp.advance).bind fun v q hv hq => ?_
  exact yields_pure hq ⟨hp.current_eq hk rfl, hv.1⟩

/-- An expression on its own has the token that it starts with. -/
theorem yields_exprStmt (hp : p.Honest d) : Yields d Stmt.Agrees (exprStmt expr p) := by
  rw [exprStmt, current_bind]
  exact (yields_value h hp).bind fun v q hv hq => yields_pure hq hv

theorem yields_stmt (hp : p.Honest d) : Yields d Stmt.Agrees (stmt expr p) := by
  rw [stmt, hp.plain.dialect, Dialect.stmtForm]
  rcases hf : Dialect.standard.stmtForm? p.current.kind with _ | f
  · exact yields_exprStmt h hp
  · have hk := Dialect.of_standard_stmtForm? hf
    cases f with
    | letStmt => exact yields_letStmt h hp hk
    | returnStmt => exact yields_returnStmt h hp hk
    | exprStmt => exact hk.elim

/-- A row of statements agrees with its tokens, as each one does that was not
    left out. -/
theorem agrees_stmts (stop : List Kind) (hp : p.Honest d) :
    Stmt.AllAgree (stmts expr stop p).1 ∧ (stmts expr stop p).2.Honest d := by
  have hloop : ∀ n (p : Parser), p.Honest d →
      Stmt.AllAgree (stmtsUpTo expr stop n p).1 ∧ (stmtsUpTo expr stop n p).2.Honest d := by
    intro n
    induction n with
    | zero => exact fun p hp => ⟨trivial, hp⟩
    | succ n ih =>
      intro p hp
      rw [stmtsUpTo]
      split
      · exact ⟨trivial, hp⟩
      have hs := yields_stmt h hp
      obtain ⟨hss, hq⟩ := ih _ hs.honest.advance
      exact ⟨Stmt.allAgree_cons hs.value hss, hq⟩
  exact hloop _ p hp

/-! #### Expressions -/

theorem yields_block (hp : p.Honest d) (hk : p.current.kind = .lbrace) :
    Yields d Block.Agrees (total (block expr) p) := by
  obtain ⟨hss, hq⟩ := agrees_stmts h [.rbrace] hp.advance
  exact ⟨hq, fun b hb => Option.some.inj hb ▸ ⟨hp.current_eq hk rfl, hss⟩⟩

theorem yields_alternative (hp : p.Honest d) :
    Yields d alternativeAgrees (alternative expr p) := by
  rw [alternative, peekIs_bind]
  split
  · rw [advance_bind]
    refine yields_expect_bind hp.advance (by decide) fun q hq hk => ?_
    exact (yields_block h hq hk).bind fun b r hb hr => yields_pure hr hb
  · exact yields_pure hp trivial

theorem yields_prefixOp (hp : p.Honest d)
    (hk : p.current.kind = .bang ∨ p.current.kind = .minus) :
    Yields d (Expr.StartsWith p.current) (prefixOp expr p) := by
  rw [prefixOp, current_bind, advance_bind]
  refine (h .prefixOp hp.advance).bind fun e q he hq => ?_
  refine yields_pure hq ⟨⟨?_, rfl, he.1⟩, .inr rfl⟩
  exact hk.imp (hp.current_eq · rfl) (hp.current_eq · rfl)

/-- The parenthesis of a group leaves no trace but that the expression may start
    with it. -/
theorem yields_group (hp : p.Honest d) (hk : p.current.kind = .lparen) :
    Yields d (Expr.StartsWith p.current) (group expr p) := by
  rw [group, advance_bind]
  refine (h .lowest hp.advance).bind fun e q he hq => ?_
  refine yields_expect_bind hq (by decide) fun r hr _ => ?_
  exact yields_pure hr ⟨he.1, .inl (hp.current_eq hk rfl)⟩

/-- The parts of a choice agree with their tokens, and it has its own. -/
theorem yields_cond (hp : p.Honest d) (hk : p.current.kind = .kwIf) :
    Yields d (Expr.StartsWith p.current) (cond expr p) := by
  rw [cond, current_bind]
  refine yields_expect_bind hp (by decide) fun q hq _ => ?_
  rw [advance_bind]
  refine (h .lowest hq.advance).bind fun c r hc hr => ?_
  refine yields_expect_bind hr (by decide) fun s hs _ => ?_
  refine yields_expect_bind hs (by decide) fun t ht hbrace => ?_
  refine (yields_block h ht hbrace).bind fun a u ha hu => ?_
  refine (yields_alternative h hu).bind fun b v hb hv => ?_
  exact yields_pure hv ⟨⟨hp.current_eq hk rfl, hc.1, ha, hb⟩, .inr rfl⟩

theorem yields_func (hp : p.Honest d) (hk : p.current.kind = .kwFn) :
    Yields d (Expr.StartsWith p.current) (func expr p) := by
  rw [func, current_bind]
  refine yields_expect_bind hp (by decide) fun q hq _ => ?_
  refine (yields_parenthesised (fun _ => yields_parameter) hq).bind fun ps r hps hr => ?_
  refine yields_expect_bind hr (by decide) fun s hs hbrace => ?_
  refine (yields_block h hs hbrace).bind fun b t hb ht => ?_
  exact yields_pure ht ⟨⟨hp.current_eq hk rfl, hps, hb⟩, .inr rfl⟩

/-- Where no form starts, no expression does. -/
theorem yields_start (hp : p.Honest d) : Yields d (Expr.StartsWith p.current) (start expr p) := by
  rw [start, current_bind, ask_bind, hp.plain.dialect]
  rcases hf : Dialect.standard.prefixForm? p.current.kind with _ | f
  · refine yields_refuse hp ⟨rfl, ?_⟩
    revert hf
    cases p.current.kind <;> simp [Dialect.standard, Kind.opens]
  · have hk := Dialect.of_standard_prefixForm? hf
    cases f with
    | identifier => exact yields_identifier hp hk
    | integer => exact yields_integer hp hk
    | boolean => exact yields_boolean hp hk
    | operator => exact yields_prefixOp h hp hk
    | group => exact yields_group h hp hk
    | cond => exact yields_cond h hp hk
    | func => exact yields_func h hp hk

/-- Going on from `left` puts a node above it, whose leftmost node is the same. -/
theorem yields_infixOf {q r : Precedence} {f : InfixForm} (hp : p.Honest d)
    (hc : p.continuation? q = some (r, f)) (hleft : left.Agrees) :
    Yields d (fun e => e.Agrees ∧ e.leftmost = left.leftmost)
      (infixOf expr left r f p.advance) := by
  have hcur : p.advance.current = p.peek :=
    Parser.current_advance (hp.plain.proper.not_atEnd (peek_ne_eof hp.plain.proper hc))
  rw [Parser.continuation?, hp.plain.dialect] at hc
  split at hc
  · cases hc
  obtain ⟨hf, -⟩ := Option.filter_eq_some_iff.1 hc
  have hq := hp.advance
  cases f with
  | operator =>
    have ho := Option.isSome_of_eq_some (Dialect.standard_infixForm?_operator.1 hf)
    rw [← hcur] at ho
    rw [infixOf, infixOp, current_bind, advance_bind]
    refine (h r hq.advance).bind fun e s he hs => ?_
    refine yields_pure hs ⟨⟨⟨ho, ?_, rfl⟩, hleft, he.1⟩, rfl⟩
    exact hq.current_eq rfl (Kind.spelling?_of_operator ho)
  | call =>
    have ho := (Dialect.standard_infixForm?_call.1 hf).1
    rw [← hcur] at ho
    rw [infixOf, call, current_bind]
    have hargument : ∀ s : Parser, s.Honest d → Yields d Expr.Agrees (argument expr s) := by
      intro s hs
      rw [argument, advance_bind]
      exact ⟨(h .lowest hs.advance).honest, fun e he => ((h .lowest hs.advance).value e he).1⟩
    refine (yields_parenthesised hargument hq).bind fun es s hes hs => ?_
    refine yields_pure hs ⟨⟨hq.current_eq ho rfl, hleft, Expr.allAgree_iff.2 hes⟩, rfl⟩

/-- By recursion on the bound: the leftmost node stays the same in every turn. -/
theorem yields_extendUpTo (q : Precedence) : ∀ n {left : Expr} {p : Parser}, p.Honest d →
    left.Agrees → Yields d (fun e => e.Agrees ∧ e.leftmost = left.leftmost)
      (extendUpTo expr q n left p)
  | 0, _, _, hp, hleft => yields_pure hp ⟨hleft, rfl⟩
  | n + 1, left, p, hp, hleft => by
    rw [extendUpTo, ask_bind]
    rcases hc : p.continuation? q with _ | ⟨r, f⟩
    · exact yields_pure hp ⟨hleft, rfl⟩
    · change Yields d _ ((infixOf expr left r f >>= extendUpTo expr q n) p.advance)
      refine (yields_infixOf h hp hc hleft).bind fun e s he hs => ?_
      have hrest := yields_extendUpTo q n hs he.1
      exact ⟨hrest.honest, fun e' he' => (hrest.value e' he').imp_right (·.trans he.2)⟩

/-- An expression starts with the current token, or with a parenthesis there. -/
theorem yields_expression (q : Precedence) (hp : p.Honest d) :
    Yields d (Expr.StartsWith p.current) (expression expr q p) := by
  rw [expression]
  refine (yields_start h hp).bind fun left r hleft hr => ?_
  have hrest := yields_extendUpTo h q r.ahead.length hr hleft.1
  exact ⟨hrest.honest, fun e he => ⟨(hrest.value e he).1, (hrest.value e he).2 ▸ hleft.2⟩⟩

end Form

/-! ### Programs -/

/-- With `n` levels left, `maxDepth - n` expressions are being read; so where no
    level is left, `maxDepth` are. -/
theorem yields_expressionWithin : ∀ n {d : Nat}, d + n = maxDepth → ∀ q {p : Parser},
    p.Honest d → Yields d (Expr.StartsWith p.current) (expressionWithin n q p)
  | 0, d, hd, q, p, hp => yields_refuse hp ⟨rfl, hp.depth.trans hd⟩
  | n + 1, d, hd, q, p, hp =>
    (Form.yields_expression (yields_expressionWithin n (by omega)) q hp.enter).nested

theorem Parser.agrees_program {p : Parser} (hp : p.Honest 0) :
    p.program.1.Agrees ∧ p.program.2.Honest 0 := by
  rw [Parser.program_eq hp.depth]
  exact Form.agrees_stmts (yields_expressionWithin maxDepth (Nat.zero_add _)) [] hp

/-- Every node of a tree that is read is what its token says, whatever is wrong
    with the text. -/
theorem agrees_parse (source : String) : (parse source).1.Agrees :=
  (Parser.agrees_program (Parser.honest_ofString source)).1

/-- Every report blames a token of the text, at the place that it gives, and says
    what is the case with it. -/
theorem reports_hold (source : String) :
    ∀ r ∈ (parse source).2.reports.toList,
      (Token.tokenize source)[r.index]? = some r.diagnostic.token ∧ r.Holds := by
  intro r hr
  exact ⟨(placed_parse source).reports r hr,
    (Parser.agrees_program (Parser.honest_ofString source)).2.reports r hr⟩

/-- An integer that is too great, in a group, after one with leading zeros. -/
theorem reports_hold_integer :
    (parse "007 + (9223372036854775808 * 2)").2.reports[0]? = some
        ⟨⟨.badInteger "9223372036854775808", ⟨.int, "9223372036854775808"⟩⟩, 3, 3⟩ ∧
      (Token.tokenize "007 + (9223372036854775808 * 2)")[3]? =
        some ⟨.int, "9223372036854775808"⟩ ∧
      Report.Holds
        ⟨⟨.badInteger "9223372036854775808", ⟨.int, "9223372036854775808"⟩⟩, 3, 3⟩ := by
  have h : (parse "007 + (9223372036854775808 * 2)").2.reports[0]? = some
      ⟨⟨.badInteger "9223372036854775808", ⟨.int, "9223372036854775808"⟩⟩, 3, 3⟩ := by
    decide +kernel
  exact ⟨h, reports_hold _ _ (Array.mem_toList_iff.2 (Array.mem_of_getElem? h))⟩

end ScriptFront

import Mathlib
import ScriptFront.Proofs.Agreement
import ScriptFront.Proofs.Position

/-!
# Operators between operands

A chain is a row of operands with an operator between each two of them
(`Chain`). What it means depends only on how tightly the operators bind: the last
one of the weakest is the root of its tree, and what is before and behind it are
chains again (`Chain.tree`).

A parser comes to that tree without looking for the weakest operator: it goes
through the chain once, from the left. Whatever precedences a client has given to
the kinds of token, the outcome is the same (`Parser.expression_chain`).

The invariant is about the loop in the middle of a chain. What was read so far is
a tree whose operators all bind at least as tightly as the one that comes next
(`Form.extend_links`). So that one will be their root; and the operand behind it
takes all that binds more tightly, up to an operator for which the same holds.
-/

namespace ScriptFront

open ScriptFront.Action

/-! ### Chains -/

/-- A row of operands, with an operator between each two of them. -/
structure Chain where
  /-- The first operand. -/
  first : Token
  /-- The operators, each with the operand after it. -/
  links : List (Token × Token)

/-- The operands that consist of one token. -/
def Token.IsOperand (t : Token) : Prop :=
  t.kind = .ident ∨ t.kind = .kwTrue ∨ t.kind = .kwFalse ∨
    t.kind = .int ∧ t.number ≤ Numeral.limit

instance (t : Token) : Decidable t.IsOperand := inferInstanceAs (Decidable (_ ∨ _ ∨ _ ∨ _ ∧ _))

/-- An operand of a text is written as its kind says. -/
theorem Token.IsOperand.spelled {t : Token} {source : String} (h : t.IsOperand)
    (ht : t ∈ Token.tokenize source) : t.Spelled := by
  rw [Token.tokenize_eq, List.mem_append, List.mem_singleton] at ht
  rcases ht with ht | rfl
  · refine (Token.spelled_of_mem ht).resolve_left fun hk => ?_
    simp [IsOperand, hk] at h
  · simp [IsOperand, Token.eof] at h

/-- The node of an operand. -/
def Token.operand (t : Token) : Expr :=
  match t.kind with
  | .int => .int t t.number
  | .kwTrue => .bool t true
  | .kwFalse => .bool t false
  | _ => .ident ⟨t, t.literal⟩

namespace Chain

/-- The tokens of a row of links. -/
def linkTokens (links : List (Token × Token)) : List Token := links.flatMap fun x => [x.1, x.2]

/-- The tokens of a chain. -/
def tokens (c : Chain) : List Token := c.first :: linkTokens c.links

/-- The operands of a chain. -/
def operands (c : Chain) : List Token := c.first :: c.links.map Prod.snd

/-- The operators of a chain. -/
def operators (c : Chain) : List Token := c.links.map Prod.fst

/-- The last operand of a chain. -/
def last (c : Chain) : Token := c.operands.getLast (List.cons_ne_nil _ _)

variable (prec : Kind → Precedence)

/-- The last one of the weakest links, with those before it and those after
    it. -/
def weakest : List (Token × Token) →
    Option (List (Token × Token) × (Token × Token) × List (Token × Token))
  | [] => none
  | x :: xs =>
    match weakest xs with
    | none => some ([], x, xs)
    | some (before, y, after) =>
      if prec y.1.kind ≤ prec x.1.kind then some (x :: before, y, after) else some ([], x, xs)

variable {prec} {x : Token × Token} {links before after : List (Token × Token)}

theorem eq_nil_of_weakest : weakest prec links = none → links = [] := by
  cases links with
  | nil => exact fun _ => rfl
  | cons x xs =>
    rw [weakest]
    split
    · exact fun h => nomatch h
    · split <;> exact fun h => nomatch h

/-- The links before the last one of the weakest bind at least as tightly, those
    after it more tightly. -/
theorem of_weakest (h : weakest prec links = some (before, x, after)) :
    links = before ++ x :: after ∧ (∀ y ∈ before, prec x.1.kind ≤ prec y.1.kind) ∧
      ∀ y ∈ after, prec x.1.kind < prec y.1.kind := by
  induction links generalizing before x after with
  | nil => cases h
  | cons y ys ih =>
    rw [weakest] at h
    split at h
    next hnone =>
      cases h
      rw [eq_nil_of_weakest hnone]
      simp
    next b z a hsome =>
      obtain ⟨rfl, hb, ha⟩ := ih hsome
      split at h
      next hle =>
        cases h
        exact ⟨rfl, List.forall_mem_cons.2 ⟨hle, hb⟩, ha⟩
      next hlt =>
        cases h
        -- The first link is weaker than the weakest behind it, so it is weaker
        -- than all of them, and nothing stands before it.
        have hz : prec y.1.kind < prec z.1.kind := Nat.lt_of_not_le hlt
        refine ⟨rfl, by simp, fun w hw => ?_⟩
        rcases List.mem_append.1 hw with hw | hw
        · exact Nat.lt_of_lt_of_le hz (hb w hw)
        rcases List.mem_cons.1 hw with rfl | hw
        · exact hz
        · exact Nat.lt_trans hz (ha w hw)

/-- There is only one link that is as weak as those before it and weaker than
    those after it. -/
theorem weakest_append (ha : ∀ y ∈ after, prec x.1.kind < prec y.1.kind) :
    ∀ {before}, (∀ y ∈ before, prec x.1.kind ≤ prec y.1.kind) →
      weakest prec (before ++ x :: after) = some (before, x, after)
  | [], _ => by
    rw [List.nil_append, weakest]
    split
    · rfl
    next b z a hz =>
      obtain ⟨rfl, -, -⟩ := of_weakest hz
      exact if_neg (Nat.not_le_of_lt (ha z (by simp)))
  | y :: ys, hb => by
    obtain ⟨hy, hys⟩ := List.forall_mem_cons.1 hb
    rw [List.cons_append, weakest, weakest_append ha hys]
    exact if_pos hy

/-- The tree of a chain. Its root is the last one of the weakest operators. -/
def tree (prec : Kind → Precedence) (c : Chain) : Expr :=
  match _ : weakest prec c.links with
  | none => c.first.operand
  | some (before, x, after) =>
    .infixOp x.1 x.1.literal (tree prec ⟨c.first, before⟩) (tree prec ⟨x.2, after⟩)
termination_by c.links.length
decreasing_by
  all_goals
    have h := congrArg List.length (of_weakest ‹_›).1
    simp only [List.length_append, List.length_cons] at h ⊢
    omega

/-- A row of links starts with those that bind more tightly than `q`; behind them
    comes one that does not, if any. -/
theorem exists_append (prec : Kind → Precedence) (q : Precedence)
    (links : List (Token × Token)) : ∃ tight rest, links = tight ++ rest ∧
      (∀ x ∈ tight, q < prec x.1.kind) ∧ ∀ x ∈ rest.head?, prec x.1.kind ≤ q := by
  refine ⟨links.takeWhile fun x => q < prec x.1.kind, links.dropWhile fun x => q < prec x.1.kind,
    List.takeWhile_append_dropWhile.symm, fun x hx => ?_, fun x hx => ?_⟩
  · simpa using List.mem_takeWhile_imp hx
  · have h := List.head?_dropWhile_not (fun x : Token × Token => decide (q < prec x.1.kind)) links
    rw [hx] at h
    have hx : ¬q < prec x.1.kind := by simpa using h
    exact Nat.le_of_not_lt hx

theorem operands_subset (c : Chain) : c.operands ⊆ c.tokens := by
  refine List.cons_subset_cons _ fun t ht => ?_
  obtain ⟨x, hx, rfl⟩ := List.mem_map.1 ht
  exact List.mem_flatMap.2 ⟨x, hx, by simp⟩

theorem tokens_append {t : Token} : tokens ⟨t, before ++ after⟩ =
    tokens ⟨t, before⟩ ++ linkTokens after := by
  simp [tokens, linkTokens]

/-- A chain of one operand is its node. -/
theorem tree_nil {t : Token} : tree prec ⟨t, []⟩ = t.operand := by
  rw [tree]
  rfl

/-- The last one of the weakest operators is the root, with the chains before
    and behind it on its sides. -/
theorem tree_append {t : Token} (hb : ∀ y ∈ before, prec x.1.kind ≤ prec y.1.kind)
    (ha : ∀ y ∈ after, prec x.1.kind < prec y.1.kind) :
    tree prec ⟨t, before ++ x :: after⟩ =
      .infixOp x.1 x.1.literal (tree prec ⟨t, before⟩) (tree prec ⟨x.2, after⟩) := by
  have h := weakest_append ha hb
  rw [tree]
  split
  next hnone =>
    rw [h] at hnone
    cases hnone
  next hsome =>
    rw [h] at hsome
    cases hsome
    rfl

end Chain

/-! ### Dialects -/

namespace Dialect

/-- The dialect starts expressions as the standard one does, and goes on with
    none after a semicolon or at the end of the text. -/
structure Tuned (d : Dialect) : Prop where
  prefixForm? : d.prefixForm? = standard.prefixForm?
  semicolon : d.infixForm? .semicolon = none
  eof : d.infixForm? .eof = none

/-- The kinds that stand between operands, and bind more tightly than the lowest
    precedence. -/
def IsOperator (d : Dialect) (k : Kind) : Prop :=
  d.infixForm? k = some (d.precedence k, .operator) ∧ .lowest < d.precedence k

instance (d : Dialect) (k : Kind) : Decidable (d.IsOperator k) :=
  inferInstanceAs (Decidable (_ ∧ _))

/-- Whether an expression that is read at the precedence `q` ends before some
    tokens. -/
def EndsAt (d : Dialect) (q : Precedence) : List Token → Prop
  | [] => False
  | t :: _ => t.kind = .semicolon ∨ d.precedence t.kind ≤ q

/-- What ends before some tokens ends before links in front of them, if the
    first of these does not bind more tightly. -/
theorem EndsAt.linkTokens {d : Dialect} {q r : Precedence} {ts : List Token}
    {links : List (Token × Token)} (hts : d.EndsAt q ts) (hq : q < r)
    (h : ∀ x ∈ links.head?, d.precedence x.1.kind ≤ r) :
    d.EndsAt r (Chain.linkTokens links ++ ts) := by
  cases links with
  | nil =>
    cases ts with
    | nil => cases hts
    | cons t ts => exact hts.imp_right fun ht => Nat.le_of_lt (Nat.lt_of_le_of_lt ht hq)
  | cons x xs => exact .inr (h x rfl)

theorem tuned_standard : standard.Tuned := ⟨rfl, rfl, rfl⟩

variable {d : Dialect} {k : Kind}

/-- A client may change how any kind binds, but for a semicolon and the end of the
    text. -/
theorem Tuned.setInfix (h : d.Tuned) (hs : k ≠ .semicolon) (he : k ≠ .eof) (q : Precedence)
    (f : InfixForm) : (d.setInfix k q f).Tuned :=
  ⟨h.prefixForm?, (if_neg hs.symm).trans h.semicolon, (if_neg he.symm).trans h.eof⟩

theorem Tuned.ne_semicolon (h : d.Tuned) (hk : d.IsOperator k) : k ≠ .semicolon := by
  rintro rfl
  cases h.semicolon.symm.trans hk.1

end Dialect

/-! ### Parsers at a chain -/

namespace Parser

/-- The parser reads the dialect `d`, and the tokens from the current one on are
    `ts`. -/
structure Sees (p : Parser) (d : Dialect) (ts : List Token) : Prop where
  proper : p.Proper
  dialect : p.dialect = d
  ahead : p.ahead = ts

variable {p : Parser} {d : Dialect} {t u : Token} {ts : List Token} {q : Precedence}

theorem Sees.current (h : p.Sees d (t :: ts)) : p.current = t := by
  rw [Parser.current, h.ahead]
  rfl

theorem Sees.peek (h : p.Sees d (t :: u :: ts)) : p.peek = u := by
  rw [Parser.peek, h.ahead]
  rfl

/-- A token before another one is not the end of the text. -/
theorem Sees.advance (h : p.Sees d (t :: ts)) (hts : ts ≠ []) : p.advance.Sees d ts := by
  have hend : ¬p.atEnd := by
    obtain ⟨us, hus, heof⟩ := h.proper.ahead
    rw [h.ahead] at hus
    rcases us with _ | ⟨v, vs⟩
    · exact absurd (List.cons.inj hus).2 hts
    · have ht := heof v List.mem_cons_self
      rw [← (List.cons.inj hus).1] at ht
      simpa [atEnd, h.current] using ht
  refine ⟨h.proper.advance, p.later_advance.dialect.trans h.dialect, ?_⟩
  rw [ahead_advance hend, h.ahead]
  rfl

theorem Sees.enter (h : p.Sees d ts) : p.enter.Sees d ts :=
  ⟨⟨h.proper.ahead, h.proper.infixForm?⟩, h.dialect, h.ahead⟩

/-- The level of nesting is of no account for moving on. -/
theorem leave_iterate_advance_enter (n : Nat) (p : Parser) :
    (advance^[n] p.enter).leave = advance^[n] p := by
  have h : Function.Commute enter advance := by
    intro p
    rw [advance, advance, apply_ite enter]
    rfl
  rw [← (h.iterate_right n).eq]
  rfl

theorem reports_iterate_advance (n : Nat) (p : Parser) :
    (advance^[n] p).reports = p.reports := by
  induction n generalizing p with
  | zero => rfl
  | succ n ih => rw [Function.iterate_succ_apply, ih, reports_advance]

/-- An expression ends before tokens that do not bind more tightly. -/
theorem Sees.continuation?_eq_none (h : p.Sees d (t :: ts)) (hts : d.EndsAt q ts) :
    p.continuation? q = none := by
  rcases ts with _ | ⟨u, us⟩
  · cases hts
  rw [continuation?, h.peek, h.dialect]
  rcases hts with hu | hu
  · exact if_pos hu
  split
  · rfl
  rw [Dialect.precedence] at hu
  rcases hf : d.infixForm? u.kind with _ | ⟨r, f⟩
  · rfl
  · rw [hf] at hu
    have hr : ¬q < r := Nat.not_lt_of_le hu
    simp [Option.filter, hr]

/-- An operator that binds more tightly continues it. -/
theorem Sees.continuation?_eq_some (h : p.Sees d (t :: u :: ts)) (hd : d.Tuned)
    (hu : d.IsOperator u.kind) (hq : q < d.precedence u.kind) :
    p.continuation? q = some (d.precedence u.kind, .operator) := by
  simp [continuation?, h.peek, h.dialect, hd.ne_semicolon hu, hu.1, Option.filter, hq]

/-- Along a chain, two steps lead from one operand to the next one. -/
theorem Sees.pass {c : Chain} (h : p.Sees d (c.tokens ++ ts)) :
    (Parser.advance^[2 * c.links.length] p).Sees d (c.last :: ts) := by
  obtain ⟨a, links⟩ := c
  induction links generalizing p a with
  | nil => exact h
  | cons x xs ih =>
    have hx : p.advance.advance.Sees d ((⟨x.2, xs⟩ : Chain).tokens ++ ts) :=
      (h.advance (List.cons_ne_nil _ _)).advance (List.cons_ne_nil _ _)
    exact ih x.2 hx

end Parser

/-! ### Reading a chain -/

/-- The dialect has the links of a chain as such: operators, and operands that
    are written as tokens are. -/
def Dialect.Links (d : Dialect) (x : Token × Token) : Prop :=
  d.IsOperator x.1.kind ∧ x.2.IsOperand ∧ x.2.Spelled

namespace Form

variable {expr : Precedence → Action Expr} {d : Dialect} {p : Parser} {t : Token}
  {ts : List Token} {q : Precedence}

/-- An operand is read as its node, with no token passed. -/
theorem start_operand (hd : d.Tuned) (hp : p.Sees d (t :: ts)) (ht : t.IsOperand)
    (hs : t.Spelled) : start expr p = (some t.operand, p) := by
  rw [start, current_bind, ask_bind, hp.dialect, hd.prefixForm?, hp.current]
  rcases ht with hk | hk | hk | ⟨hk, hle⟩ <;> rw [Token.operand, hk]
  · change identifier p = _
    rw [identifier, current_bind, hp.current]
    rfl
  · change boolean p = _
    rw [boolean, current_bind, hp.current, hk]
    rfl
  · change boolean p = _
    rw [boolean, current_bind, hp.current, hk]
    rfl
  · change integer p = _
    rw [integer, current_bind, hp.current, hs.value?_eq hk, if_pos hle]
    rfl

theorem infixOf_operator {r : Precedence} {right : Expr} {s : Parser} (left : Expr)
    (hp : p.Sees d (t :: ts)) (h : expr r p.advance = (some right, s)) :
    infixOf expr left r .operator p = (some (.infixOp t t.literal left right), s) := by
  rw [infixOf, infixOp, current_bind, hp.current, advance_bind, bind_of_eq h]
  rfl

/-- What a reader of expressions makes of the chains whose operators all bind more
    tightly than `q`. -/
def ReadsChains (d : Dialect) (expr : Precedence → Action Expr) (q : Precedence) : Prop :=
  ∀ ⦃p : Parser⦄ ⦃c : Chain⦄ ⦃ts : List Token⦄, p.Sees d (c.tokens ++ ts) →
    c.first.IsOperand ∧ c.first.Spelled → (∀ x ∈ c.links, d.Links x) →
    (∀ x ∈ c.links, q < d.precedence x.1.kind) → d.EndsAt q ts →
    expr q p = (some (c.tree d.precedence), Parser.advance^[2 * c.links.length] p)

/-- The loop goes from the tree of what was read so far to the tree of all, if the
    operators in it bind at least as tightly as the one that comes next. -/
theorem extend_links (hf : ∀ q, Forward (expr q)) (hd : d.Tuned)
    (hexpr : ∀ r, q < r → ReadsChains d expr r) (a : Token) {links : List (Token × Token)} :
    ∀ (before : List (Token × Token)) {p : Parser} {t : Token} {ts : List Token},
      p.Sees d ((⟨t, links⟩ : Chain).tokens ++ ts) → (∀ x ∈ links, d.Links x) →
      (∀ x ∈ links, q < d.precedence x.1.kind) → d.EndsAt q ts →
      (∀ y ∈ before, ∀ x ∈ links.head?, d.precedence x.1.kind ≤ d.precedence y.1.kind) →
      extend expr q (Chain.tree d.precedence ⟨a, before⟩) p =
        (some (Chain.tree d.precedence ⟨a, before ++ links⟩),
          Parser.advance^[2 * links.length] p) := by
  induction hN : links.length using Nat.strongRecOn generalizing links with
  | ind N ih =>
  intro before p t ts hp hlinks hq hts hbefore
  subst hN
  rcases links with _ | ⟨⟨o, b⟩, links⟩
  · rw [extend_of_none (hp.continuation?_eq_none hts), List.append_nil]
    rfl
  obtain ⟨⟨ho, hb⟩, hlinks⟩ := List.forall_mem_cons.1 hlinks
  obtain ⟨hqo, hq⟩ := List.forall_mem_cons.1 hq
  change p.Sees d (t :: o :: ((⟨b, links⟩ : Chain).tokens ++ ts)) at hp
  have hc := hp.continuation?_eq_some hd ho hqo
  have hp' := hp.advance (List.cons_ne_nil _ _)
  -- The operand behind `o` ends before the first operator that does not bind more
  -- tightly than `o`. So `o` is the root of all that was read then.
  obtain ⟨tight, rest, rfl, htight, hrest⟩ :=
    Chain.exists_append d.precedence (d.precedence o.kind) links
  obtain ⟨hlinks, hlinks'⟩ := List.forall_mem_append.1 hlinks
  have hq' := (List.forall_mem_append.1 hq).2
  rw [Chain.tokens_append, List.append_assoc] at hp hp'
  have hp'' := hp'.advance (List.append_ne_nil_of_left_ne_nil (List.cons_ne_nil _ _) _)
  have hright := hexpr _ hqo hp'' hb hlinks htight (hts.linkTokens hqo hrest)
  have hinfix := infixOf_operator (Chain.tree d.precedence ⟨a, before⟩) hp' hright
  have hroot : ∀ y ∈ before ++ (o, b) :: tight, d.precedence o.kind ≤ d.precedence y.1.kind := by
    intro y hy
    rcases List.mem_append.1 hy with hy | hy
    · exact hbefore y hy (o, b) rfl
    rcases List.mem_cons.1 hy with rfl | hy
    · exact Nat.le_refl _
    · exact Nat.le_of_lt (htight y hy)
  have hlt : rest.length < ((o, b) :: (tight ++ rest)).length := by
    rw [List.length_cons, List.length_append]
    omega
  rw [extend_of_some hf hp.proper hc, bind_of_eq hinfix,
    ← Chain.tree_append (x := (o, b)) (fun y hy => hbefore y hy (o, b) rfl) htight,
    ih rest.length hlt rfl _ hp''.pass hlinks' hq' hts
      fun y hy x hx => Nat.le_trans (hrest x hx) (hroot y hy),
    List.append_assoc, List.cons_append]
  refine Prod.ext rfl ?_
  change Parser.advance^[_] (Parser.advance^[_] (Parser.advance^[2] p)) = _
  rw [← Function.iterate_add_apply, ← Function.iterate_add_apply]
  congr 1
  simp only [List.length_cons, List.length_append]
  omega

end Form

/-- No precedence is above that of a call. -/
theorem Precedence.rank_le_call (q : Precedence) : q.rank ≤ call.rank := by cases q <;> decide

/-- Each operand is read at the precedence of the operator before it, which is
    greater than the one around it. So as many levels of nesting are enough as
    there are precedences. -/
theorem readsChains_expressionWithin {d : Dialect} (hd : d.Tuned) : ∀ {n : Nat} {q : Precedence},
    Precedence.call.rank < n + q.rank → Form.ReadsChains d (expressionWithin n) q
  | 0, q, hn => absurd q.rank_le_call (by omega)
  | n + 1, q, hn => by
    intro p c ts hp hfirst hlinks hq hts
    have hlevels : ∀ r, q < r → Form.ReadsChains d (expressionWithin n) r := fun r hr =>
      readsChains_expressionWithin hd (by have := Precedence.lt_iff.1 hr; omega)
    have hextend := Form.extend_links (forward_expressionWithin n) hd hlevels c.first []
      hp.enter hlinks hq hts (fun _ hy => absurd hy List.not_mem_nil)
    rw [Chain.tree_nil] at hextend
    rw [expressionWithin, nested, Form.expression,
      bind_of_eq (Form.start_operand hd hp.enter hfirst.1 hfirst.2), hextend]
    exact Prod.ext rfl (p.leave_iterate_advance_enter _)

/-! ### Chains in a text -/

namespace Parser

/-- The commands that move a parser on, or that let a kind of token stand between
    operands. A semicolon and the end of the text never do. -/
def Command.Tunes : Command → Prop
  | .advance => True
  | .setInfix k _ f => f = .operator ∧ k ≠ .semicolon ∧ k ≠ .eof
  | _ => False

/-- By induction on the commands, each of which leaves the dialect tuned and the
    depth as it was. -/
theorem tuned_run : ∀ {commands : List Command} {p : Parser}, (∀ c ∈ commands, c.Tunes) →
    p.dialect.Tuned → (p.run commands).dialect.Tuned ∧ (p.run commands).depth = p.depth
  | [], _, _, hp => ⟨hp, rfl⟩
  | c :: commands, p, hc, hp => by
    obtain ⟨hc, hcommands⟩ := List.forall_mem_cons.1 hc
    have hexec : (p.exec c).2.dialect.Tuned ∧ (p.exec c).2.depth = p.depth := by
      cases c with
      | advance =>
        have h := p.later_advance
        exact ⟨h.dialect ▸ hp, h.depth⟩
      | setInfix k q f => exact ⟨hp.setInfix hc.2.1 hc.2.2 q f, rfl⟩
      | _ => exact hc.elim
    obtain ⟨hd, hdepth⟩ := tuned_run hcommands hexec.1
    exact ⟨hd, hdepth.trans hexec.2⟩

/-- Whatever precedences a client has given to the kinds of token: an expression at
    a chain is read as the tree of the chain, up to its last operand, and without
    a report. -/
theorem expression_chain (source : String) (commands : List Command)
    (hcommands : ∀ c ∈ commands, c.Tunes) (c : Chain) (t : Token) (rest : List Token) :
    let p := (ofString source).run commands
    p.ahead = c.tokens ++ t :: rest → (∀ a ∈ c.operands, a.IsOperand) →
    (∀ o ∈ c.operators, p.dialect.IsOperator o.kind) →
    (t.kind = .eof ∨ t.kind = .semicolon ∨ p.dialect.precedence t.kind = .lowest) →
    let q := advance^[2 * c.links.length] p
    expression .lowest p = (some (c.tree p.dialect.precedence), q) ∧
      q.current = c.last ∧ q.reports = p.reports := by
  intro p hahead hoperands hoperators ht q
  obtain ⟨hd, hdepth⟩ := tuned_run (p := ofString source) hcommands Dialect.tuned_standard
  have hamong := among_run (among_ofString source) (Token.getLast?_tokenize source) commands
  have hp : p.Sees p.dialect (c.tokens ++ t :: rest) := ⟨hamong.proper hd.eof, rfl, hahead⟩
  have hspelled : ∀ a ∈ c.operands, a.IsOperand ∧ a.Spelled := by
    intro a ha
    have hmem : a ∈ p.ahead := hahead ▸ List.mem_append_left _ (c.operands_subset ha)
    rw [hamong.ahead] at hmem
    exact ⟨hoperands a ha, (hoperands a ha).spelled (List.mem_of_mem_drop hmem)⟩
  have hlinks : ∀ x ∈ c.links, p.dialect.Links x := by
    intro x hx
    exact ⟨hoperators _ (List.mem_map_of_mem hx),
      hspelled _ (List.mem_cons_of_mem _ (List.mem_map_of_mem hx))⟩
  refine ⟨?_, hp.pass.current, reports_iterate_advance _ p⟩
  refine readsChains_expressionWithin hd ?_ hp (hspelled _ List.mem_cons_self) hlinks
    (fun x hx => (hlinks x hx).1.2) ?_
  · -- No command has left the parser inside an expression, so there are more
    -- levels of nesting left than precedences.
    rw [levels, hdepth]
    change Precedence.call.rank < maxDepth
    decide
  · -- What follows the chain does not continue it: at the end of the text because
    -- no command has made it an operator.
    rcases ht with ht | ht | ht
    · refine .inr ?_
      rw [ht, Dialect.precedence, hd.eof]
      exact Nat.le_refl _
    · exact .inl ht
    · exact .inr (ht ▸ Nat.le_refl _)

/-- Here `==` binds more tightly than `-`, and `!` stands between operands, where
    it binds as `-` does. -/
theorem expression_chain_bang :
    let p := (ofString "a - b == c ! 7; d").run
      [.setInfix .eq .product .operator, .setInfix .bang .sum .operator]
    (expression .lowest p).1 = some
        (.infixOp ⟨.bang, "!"⟩ "!"
          (.infixOp ⟨.minus, "-"⟩ "-" (.ident ⟨⟨.ident, "a"⟩, "a"⟩)
            (.infixOp ⟨.eq, "=="⟩ "==" (.ident ⟨⟨.ident, "b"⟩, "b"⟩)
              (.ident ⟨⟨.ident, "c"⟩, "c"⟩)))
          (.int ⟨.int, "7"⟩ 7)) ∧
      (expression .lowest p).2.current = ⟨.int, "7"⟩ ∧
      (expression .lowest p).2.reports = #[] := by
  intro p
  obtain ⟨h, hcurrent, hreports⟩ := expression_chain "a - b == c ! 7; d"
    [.setInfix .eq .product .operator, .setInfix .bang .sum .operator] (by simp [Command.Tunes])
    ⟨⟨.ident, "a"⟩, [(⟨.minus, "-"⟩, ⟨.ident, "b"⟩), (⟨.eq, "=="⟩, ⟨.ident, "c"⟩),
      (⟨.bang, "!"⟩, ⟨.int, "7"⟩)]⟩ ⟨.semicolon, ";"⟩ [⟨.ident, "d"⟩, .eof]
    (by decide +kernel) (by decide +kernel) (by decide +kernel) (.inr (.inl rfl))
  rw [h]
  refine ⟨congrArg some ?_, hcurrent, hreports⟩
  cbv

end Parser

end ScriptFront

import ScriptFront.Proofs.Recovery

/-!
# The order of reports

Reports come in the order of the text. Each one has the place of the token that
it blames (`stepwise_placed`), and places never go back. Before the end, a
token is blamed at most twice: for not being the one that was expected, and then
for itself (`Parser.steady_ready`).

Nor are there more reports than there is text. A token that is passed pays for
the report that was made while it was the current one; only at the end of the
text, which is never passed, are there reports that nobody pays for. They are
made by the forms that are still open there, one by each, and as each is one
level of nesting further out, `maxDepth` bounds them
(`Parser.meets_expressionWithin_spent`).
-/

namespace ScriptFront

open ScriptFront.Action

/-! ### Places -/

namespace Parser

variable {p q : Parser} {source : String}

theorem current_advance (h : ¬p.atEnd) : p.advance.current = p.peek := by
  rw [current, ahead_advance h]
  rfl

/-- Before the end of the text the place goes up by one. -/
theorem index_advance (h : ¬p.atEnd) : p.advance.index = p.index + 1 := by
  rw [advance, if_neg h]

theorem index_advance_of_atEnd (h : p.atEnd) : p.advance.index = p.index := by
  rw [advance, if_pos h]

theorem reports_advance (p : Parser) : p.advance.reports = p.reports := by
  rw [advance]
  split <;> rfl

theorem index_advance_leave (p : Parser) : p.leave.advance.index = p.advance.index := by
  rw [advance, advance]
  change (if p.atEnd then p.leave else _).index = _
  split <;> rfl

theorem index_advance_record (r : Report) : (p.record r).advance.index = p.advance.index := by
  rw [advance, advance]
  change (if p.atEnd then p.record r else _).index = _
  split <;> rfl

/-- The parser stands among the tokens of a text, and what it has reported is
    blamed on the tokens at the places of the reports. -/
structure Placed (source : String) (p : Parser) : Prop where
  among : p.Among (Token.tokenize source)
  reports : ∀ r ∈ p.reports.toList,
    (Token.tokenize source)[r.index]? = some r.diagnostic.token

/-- Moving forward without a report keeps the reports where they are. -/
theorem Placed.later (h : p.Placed source) (hq : p.Later q)
    (hr : q.reports = p.reports) : q.Placed source :=
  ⟨h.among.later (Token.getLast?_tokenize source) hq, hr ▸ h.reports⟩

theorem Placed.advance (h : p.Placed source) : p.advance.Placed source :=
  h.later p.later_advance p.reports_advance

theorem Placed.record (h : p.Placed source) {r : Report}
    (hr : (Token.tokenize source)[r.index]? = some r.diagnostic.token) :
    (p.record r).Placed source := by
  refine ⟨⟨h.among.lt, h.among.ahead⟩, ?_⟩
  intro s hs
  rw [Parser.record, Array.toList_push, List.mem_append, List.mem_singleton] at hs
  rcases hs with hs | rfl
  · exact h.reports s hs
  · exact hr

theorem Placed.blameCurrent (h : p.Placed source) (cause : Cause) :
    (p.blameCurrent cause).Placed source :=
  h.record h.among.current

/-- The next token is blamed at the place after the current one. -/
theorem Placed.blamePeek (h : p.Placed source) (cause : Cause) :
    (p.blamePeek cause).Placed source := by
  refine h.record (r := ⟨⟨cause, p.peek⟩, p.advance.index, p.depth⟩) ?_
  by_cases hend : p.atEnd
  -- The token after the end is the end again.
  · obtain ⟨hc, hlast⟩ := h.among.of_atEnd hend
    have hpeek : p.peek = .eof := by
      have hnone : (Token.tokenize source)[p.index + 1]? = none :=
        List.getElem?_eq_none (Nat.le_of_eq hlast.symm)
      rw [h.among.peek, hnone]
      rfl
    have hplace := h.among.current
    rwa [hc, ← hpeek, ← index_advance_of_atEnd hend] at hplace
  · have hplace := h.advance.among.current
    rwa [current_advance hend] at hplace

end Parser

/-- All steps of actions place their reports. -/
theorem stepwise_placed (source : String) :
    Stepwise fun x => ∀ p : Parser, p.Placed source → (x p).2.Placed source where
  pure _ _ h := h
  bind {_ _ x _ _ _} hx hf p h := by
    have hq := hx p h
    rw [bind_apply]
    rcases hr : x p with ⟨_ | a, q⟩ <;> rw [hr] at hq
    · exact hq
    · exact hf a q hq
  ask _ _ h := h
  advance _ h := h.advance
  expect k p h := by
    rw [expect]
    split
    · exact h.advance
    · exact h.blamePeek _
  refuse cause _ h := h.blameCurrent cause
  total hx p h := hx p h
  nested hx p h := by
    have hq := hx p.enter ⟨⟨h.among.lt, h.among.ahead⟩, h.reports⟩
    exact ⟨⟨hq.among.lt, hq.among.ahead⟩, hq.reports⟩

/-- Every report of a parse has the place of the token that it blames. -/
theorem placed_parse (source : String) : (parse source).2.Placed source :=
  (stepwise_placed source).compositional.program (Parser.ofString source)
    ⟨Parser.among_ofString source, fun _ hr => absurd hr List.not_mem_nil⟩

/-! ### Order -/

namespace Report

/-- Whether the report blames a token for not being the one that was expected. -/
def unexpected (r : Report) : Bool := r.diagnostic.cause.isUnexpected

/-- Whether a report `s` may be made after `r`, in a text that ends at the place
    `n`: not at an earlier place, and at the same one only if that is the end, or
    if the token was not expected first and is blamed for itself then. -/
def Precedes (n : Nat) (r s : Report) : Prop :=
  r.index < s.index ∨ r.index = s.index ∧ (s.index = n ∨ r.unexpected = true ∧ s.unexpected = false)

/-- Whether after the report the token at the place `i` may still be blamed for
    itself. -/
def LeavesOpen (n i : Nat) (r : Report) : Prop :=
  r.index < i ∨ r.index = i ∧ (i = n ∨ r.unexpected = true)

theorem LeavesOpen.mono {n i j : Nat} {r : Report} (h : r.LeavesOpen n i) (hij : i ≤ j) :
    r.LeavesOpen n j := by
  rcases Nat.lt_or_eq_of_le hij with hlt | rfl
  · rcases h with h | ⟨h, -⟩ <;> exact .inl (by omega)
  · exact h

end Report

namespace Parser

variable {p : Parser} {n i : Nat} {r : Report}

/-- The reports are in order, in a text that ends at the place `n`, and after all
    of them the token at the place `i` may still be blamed for itself. -/
structure Ready (n i : Nat) (p : Parser) : Prop where
  plain : p.Plain
  ends : p.index + p.ahead.length = n + 1
  ordered : p.reports.toList.Pairwise (Report.Precedes n)
  leavesOpen : ∀ r ∈ p.reports.toList, r.LeavesOpen n i

/-- What may be blamed at one place may be blamed at a later one. -/
theorem Ready.mono {j : Nat} (h : p.Ready n i) (hij : i ≤ j) : p.Ready n j :=
  { h with leavesOpen := fun r hr => (h.leavesOpen r hr).mono hij }

/-- The end of the text has the last place. -/
theorem Ready.index_of_atEnd (h : p.Ready n i) (hend : p.atEnd) : p.index = n := by
  have hn := h.ends
  rw [h.plain.ahead_of_atEnd hend] at hn
  exact Nat.succ.inj hn

theorem index_le_advance (p : Parser) : p.index ≤ p.advance.index := by
  rw [Parser.advance]
  split
  · exact Nat.le_refl _
  · exact Nat.le_succ _

theorem Ready.advance (h : p.Ready n i) : p.advance.Ready n i :=
  ⟨h.plain.advance, p.later_advance.index.trans h.ends, p.reports_advance ▸ h.ordered,
    p.reports_advance ▸ h.leavesOpen⟩

/-- One report more, which may come after all that there are. -/
theorem Ready.record {j : Nat} (h : p.Ready n i) (hij : i ≤ j)
    (hr : ∀ s ∈ p.reports.toList, s.Precedes n r) (hj : r.LeavesOpen n j) :
    (p.record r).Ready n j := by
  refine ⟨h.plain.record r, h.ends, ?_, ?_⟩
  · rw [Parser.record, Array.toList_push, List.pairwise_append]
    refine ⟨h.ordered, List.pairwise_singleton _ _, fun s hs t ht => ?_⟩
    rw [List.mem_singleton.1 ht]
    exact hr s hs
  · intro s hs
    rw [Parser.record, Array.toList_push, List.mem_append, List.mem_singleton] at hs
    rcases hs with hs | rfl
    · exact (h.leavesOpen s hs).mono hij
    · exact hj

/-- The current token is blamed for itself, and is then done with. -/
theorem Ready.blameCurrent (h : p.Ready n p.index) {cause : Cause}
    (hc : cause.isUnexpected = false) : (p.blameCurrent cause).Ready n p.advance.index := by
  refine h.record (index_le_advance p) (fun s hs => ?_) ?_
  · rcases h.leavesOpen s hs with hs | ⟨hs, hn | hu⟩
    · exact .inl hs
    · exact .inr ⟨hs, .inl hn⟩
    · exact .inr ⟨hs, .inr ⟨hu, hc⟩⟩
  · by_cases hend : p.atEnd
    · rw [index_advance_of_atEnd hend]
      exact .inr ⟨rfl, .inl (h.index_of_atEnd hend)⟩
    · rw [index_advance hend]
      exact .inl (Nat.lt_succ_self _)

/-- The next token is blamed for being unexpected, and may still be blamed for
    itself. -/
theorem Ready.blamePeek (h : p.Ready n p.index) (k : Kind) :
    (p.blamePeek (.unexpectedToken k p.peek.kind)).Ready n p.advance.index := by
  refine h.record (index_le_advance p) (fun s hs => ?_) (.inr ⟨rfl, .inr rfl⟩)
  have hle : s.index ≤ p.index := by
    rcases h.leavesOpen s hs with hs | ⟨hs, -⟩
    · exact Nat.le_of_lt hs
    · exact Nat.le_of_eq hs
  by_cases hend : p.atEnd
  -- At the end all places are allowed, and none is behind it.
  · have hadv := index_advance_of_atEnd hend
    rcases Nat.lt_or_eq_of_le hle with hlt | heq
    · exact .inl (hadv ▸ hlt)
    · exact .inr ⟨heq.trans hadv.symm, .inl (hadv.trans (h.index_of_atEnd hend))⟩
  · exact .inl (Nat.lt_of_le_of_lt hle (index_advance hend ▸ Nat.lt_succ_self _))

/-- Where something was given up, the next token may be blamed for itself. -/
theorem steady_ready (n : Nat) :
    SteadyDiscipline (fun p => p.Ready n p.index) (fun p => p.Ready n p.index)
      fun p => p.Ready n p.advance.index where
  plain_fresh h := h.plain
  plain_done h := h.plain
  settle h _ := h
  move {p} h := h.advance.mono (index_le_advance p)
  pass {p} h _ := h.advance.mono (index_le_advance p)
  refuse {p _} h hc := by
    rw [Parser.blameCurrent, index_advance_record]
    exact h.blameCurrent hc
  mismatch {p} k h := by
    rw [Parser.blamePeek, index_advance_record]
    exact h.blamePeek k
  weaken {p} h := h.mono (index_le_advance p)
  recover h := h.advance
  skip {p} h _ := h.advance.mono (index_le_advance p.advance)
  enter h := { h with plain := h.plain.enter }
  leave_done h := { h with plain := h.plain.leave }
  leave_undone {p} h := by
    rw [index_advance_leave]
    exact { h with plain := h.plain.leave }

theorem ready_ofString (source : String) :
    (ofString source).Ready ((Token.tokenize source).length - 1) (ofString source).index := by
  have hlt := (among_ofString source).lt
  refine ⟨plain_ofString source, ?_, .nil, fun _ hr => absurd hr List.not_mem_nil⟩
  rw [(among_ofString source).ahead, List.length_drop]
  omega

end Parser

/-- Before the end of the text, there are two reports at most at one place, and
    the first of two is that the token was not expected. -/
theorem Report.sublist_of_pairwise {n i : Nat} {rs : List Report}
    (h : rs.Pairwise (Precedes n)) (hi : i ≠ n) :
    ((rs.filter (·.index = i)).map unexpected).Sublist [true, false] := by
  have hpair : ((rs.filter (·.index = i)).map unexpected).Pairwise
      fun a b => a = true ∧ b = false := by
    refine List.pairwise_map.2 ((h.filter _).imp_of_mem fun {r s} hr hs hrs => ?_)
    have hr : r.index = i := of_decide_eq_true (List.mem_filter.1 hr).2
    have hs : s.index = i := of_decide_eq_true (List.mem_filter.1 hs).2
    rcases hrs with hlt | ⟨-, hn | hu⟩
    · exact absurd hlt (by omega)
    · exact absurd (hs.symm.trans hn) hi
    · exact hu
  generalize (rs.filter (·.index = i)).map unexpected = us at hpair
  rcases us with _ | ⟨a, _ | ⟨b, _ | ⟨c, us⟩⟩⟩
  · exact List.nil_sublist _
  · cases a <;> decide
  · obtain ⟨rfl, rfl⟩ := List.pairwise_pair.1 hpair
    exact List.Sublist.refl _
  -- Of three, the one in the middle would have to be both.
  · simp only [List.pairwise_cons, List.mem_cons, forall_eq_or_imp] at hpair
    exact absurd (hpair.1.1.2.symm.trans hpair.2.1.1.1) Bool.false_ne_true

/-! ### The number of reports -/

namespace Parser

variable {p : Parser} {b c e : Nat}

/-- The reports that were made and the tokens that are ahead, counted together. -/
def balance (p : Parser) : Nat := p.reports.size + p.ahead.length

theorem balance_record (r : Report) : (p.record r).balance = p.balance + 1 := by
  rw [balance, balance, record, Array.size_push]
  exact Nat.add_right_comm ..

/-- A token that is passed pays for one report. -/
theorem balance_advance (h : ¬p.atEnd) : p.advance.balance + 1 = p.balance := by
  have hlt := length_tail_lt h
  rw [balance, balance, ahead_advance h, reports_advance]
  rw [List.length_tail] at hlt ⊢
  omega

/-- The balance has risen above `b` by no more than `e` at the end of the text,
    and by no more than `c` before it. -/
structure Spent (b e c : Nat) (p : Parser) : Prop where
  plain : p.Plain
  le : p.balance ≤ b + if p.atEnd then e else c

theorem Spent.mono {b' e' c' : Nat} (h : p.Spent b e c) (he : p.atEnd → b + e ≤ b' + e')
    (hc : ¬p.atEnd → b + c ≤ b' + c') : p.Spent b' e' c' := by
  refine ⟨h.plain, Nat.le_trans h.le ?_⟩
  split
  next hend => exact he hend
  next hend => exact hc hend

theorem Spent.record (h : p.Spent b e c) (r : Report) : (p.record r).Spent b (e + 1) (c + 1) := by
  refine ⟨h.plain.record r, ?_⟩
  rw [balance_record]
  refine Nat.le_trans (Nat.succ_le_succ h.le) ?_
  change _ ≤ b + if p.atEnd then e + 1 else c + 1
  split <;> omega

/-- Past a token there is nothing to pay for any more. -/
theorem Spent.advance (h : p.Spent b e 1) : p.advance.Spent b e 0 := by
  by_cases hend : p.atEnd
  · rw [Parser.advance, if_pos hend]
    exact h.mono (fun _ => Nat.le_refl _) fun hne => absurd hend hne
  · refine ⟨h.plain.advance, ?_⟩
    have hle := h.le
    rw [if_neg hend, ← balance_advance hend] at hle
    exact Nat.le_add_right_of_le (Nat.le_of_succ_le_succ hle)

theorem Spent.move (h : p.Spent b e 0) : p.advance.Spent b e 0 :=
  Spent.advance (h.mono (fun _ => Nat.le_refl _) fun _ => Nat.le_succ _)

/-- Giving up costs one report, which the token that is passed next pays for, if
    there is one. -/
theorem discipline_spent (b e : Nat) :
    Discipline (Spent b e 0) (Spent b e 0) (Spent b (e + 1) 1) where
  plain_fresh h := h.plain
  plain_done h := h.plain
  settle h _ := h
  move h := h.move
  pass h _ := h.move
  refuse h _ := h.record _
  mismatch _ h := h.record _

/-- At the end of the text, one report more may have been made before the action
    as well as after it. -/
theorem meets_spent_succ {α : Type} {x : Action α} {e : Nat} (hforward : Forward x)
    (hx : ∀ b, Meets (Spent b e 0) x (Spent b e 0) (Spent b (e + 1) 1)) (b : Nat) :
    Meets (Spent b (e + 1) 0) x (Spent b (e + 1) 0) (Spent b (e + 2) 1) := by
  intro p hp
  by_cases hend : p.atEnd
  · have hq := hx (b + 1) p (hp.mono (fun _ => by omega) fun hne => absurd hend hne)
    -- The parser is at the end afterwards, too.
    have hqend := hp.plain.atEnd_of_later (hforward p) hend
    rcases hr : x p with ⟨_ | a, q⟩ <;> rw [hr] at hq hqend
    · exact hq.mono (fun _ => by omega) fun hne => absurd hqend hne
    · exact hq.mono (fun _ => by omega) fun hne => absurd hqend hne
  · have hq := hx b p (hp.mono (fun h => absurd h hend) fun _ => Nat.le_refl _)
    rcases hr : x p with ⟨_ | a, q⟩ <;> rw [hr] at hq
    · exact hq.mono (fun _ => by omega) fun _ => by omega
    · exact hq.mono (fun _ => by omega) fun _ => by omega

/-- A row of statements starts no statement at the end of the text, so that
    nothing but the last statement makes reports there. -/
theorem spent_stmts {expr : Precedence → Action Expr} {n : Nat}
    (hexpr : ∀ q, Meets (Spent b n 0) (expr q) (Spent b n 0) (Spent b (n + 1) 1))
    (stop : List Kind) (hp : p.Spent b (n + 1) 0) :
    (Form.stmts expr stop p).2.Spent b (n + 1) 0 := by
  have hstmt : Meets (Spent b n 0) (Form.stmt expr) (Spent b (n + 1) 1) (Spent b (n + 1) 1) := by
    have hd := (discipline_spent b n).braces
    refine hd.stmt (fun q => (hexpr q).weaken fun p hp => ?_) fun p hp _ => ?_
    · exact hp.mono (fun _ => by omega) fun _ => by omega
    · exact hp.advance.mono (fun _ => Nat.le_refl _) fun _ => by omega
  refine Discipline.stmts (fun p hp hend => ?_) hstmt (fun p hp => hp.advance) stop hp
  exact hp.mono (fun h => absurd h hend) fun _ => Nat.le_refl _

/-- By induction on the levels of nesting that are left: at the end of the text
    each level may add a report. -/
theorem meets_expressionWithin_spent : ∀ n b q,
    Meets (Spent b n 0) (expressionWithin n q) (Spent b n 0) (Spent b (n + 1) 1)
  | 0, b, _ => fun _ hp => (discipline_spent b 0).refuse hp rfl
  | n + 1, b, q => by
    have hd := discipline_spent b (n + 1)
    have hexpr q := meets_spent_succ (forward_expressionWithin n q)
      (fun b => meets_expressionWithin_spent n b q) b
    have hblock := hd.block (forward_expressionWithin n) fun _ =>
      spent_stmts (fun q => meets_expressionWithin_spent n b q) [.rbrace]
    exact (hd.braces.expression hexpr hblock q).nested (fun _ h => ⟨h.plain.enter, h.le⟩)
      (fun _ h => ⟨h.plain.leave, h.le⟩) fun _ h => ⟨h.plain.leave, h.le⟩

end Parser

/-- Reports have places in the text, which never go back, with the tokens that
    they blame. Before the end of the text a token is blamed at most twice: for
    not being the one that was expected, and then for itself. And there are at
    most as many reports as tokens, but for `maxDepth` of them. -/
theorem reports_in_order (source : String) :
    ∃ rs : List Report, rs.map Report.diagnostic = (parse source).2.diagnostics ∧
      (∀ r ∈ rs, (Token.tokenize source)[r.index]? = some r.diagnostic.token) ∧
      rs.Pairwise (fun r s => r.index ≤ s.index) ∧
      (∀ i, i + 1 < (Token.tokenize source).length →
        ((rs.filter (·.index = i)).map fun r => r.diagnostic.cause.isUnexpected).Sublist
          [true, false]) ∧
      rs.length ≤ (Token.tokenize source).length + maxDepth := by
  have hready := (Parser.steady_ready _).program (Parser.ready_ofString source) rfl
  have hend : (Parser.ofString source).program.2.atEnd := by
    rw [Parser.atEnd, (Parser.among_ofString source).program.1]
    rfl
  refine ⟨(parse source).2.reports.toList, rfl, (placed_parse source).reports, ?_, ?_, ?_⟩
  · refine hready.ordered.imp fun h => ?_
    rcases h with h | ⟨h, -⟩ <;> omega
  · exact fun i hi => Report.sublist_of_pairwise hready.ordered (by omega)
  · let b := (Token.tokenize source).length
    have hstart : (Parser.ofString source).Spent b (maxDepth + 1) 0 :=
      ⟨Parser.plain_ofString source, Nat.le_add_right_of_le (Nat.le_of_eq (Nat.zero_add _))⟩
    have hspent : (Parser.ofString source).program.2.Spent b (maxDepth + 1) 0 := by
      rw [Parser.program_eq rfl]
      exact Parser.spent_stmts (Parser.meets_expressionWithin_spent maxDepth b) [] hstart
    -- Where the text is read, one token is ahead, its end. All else in the balance
    -- are reports.
    have hle := hspent.le
    rw [if_pos hend, Parser.balance, hspent.plain.ahead_of_atEnd hend] at hle
    exact Nat.le_of_succ_le_succ hle

end ScriptFront

import ScriptFront.Proofs.Progress

/-!
# Loops

The forms have three loops: over statements, over the items of a list, and over
the operators that continue an expression. In the definitions their turns are
bounded by the number of tokens ahead. Here they have no bound (`Loops`), and
come to an end nevertheless, as every turn passes a token. As that is not so at
the end of the text, where a parser stays, it takes a parser that has an end
ahead of it, and a language in which the end continues no expression
(`Parser.Proper`).

Where the loop comes to an end, the bounded one does, for any bound that is not
below the number of tokens ahead (`loops_repeatedUpTo`, `loops_extendUpTo`,
`loops_stmtsUpTo`). As a loop has one outcome only, all such bounds are alike
(`extendUpTo_congr`), and the definitions can be read as if there were none
(`repeated_of_eq`, `extend_of_some`, `stmts_of_not_stop`).
-/

namespace ScriptFront

/-- From a state, the loop with these turns comes to an end, with this outcome. A
    turn leads to another state or to the outcome. -/
inductive Loops {σ ρ : Type} (turn : σ → σ ⊕ ρ) : σ → ρ → Prop
  | exit {s : σ} {r : ρ} : turn s = .inr r → Loops turn s r
  | next {s s' : σ} {r : ρ} : turn s = .inl s' → Loops turn s' r → Loops turn s r

/-- A loop has one outcome only. -/
theorem Loops.unique {σ ρ : Type} {turn : σ → σ ⊕ ρ} {s : σ} {r r' : ρ} (h : Loops turn s r)
    (h' : Loops turn s r') : r = r' := by
  induction h with
  | exit he =>
    cases h' with
    | exit he' => exact Sum.inr.inj (he.symm.trans he')
    | next hn' => cases he.symm.trans hn'
  | next hn _ ih =>
    cases h' with
    | exit he' => cases hn.symm.trans he'
    | next hn' hl' => exact ih (Sum.inl.inj (hn.symm.trans hn') ▸ hl')

namespace Parser

/-- The tokens ahead end with the end of the text, which is not among the
    others and continues no expression. -/
structure Proper (p : Parser) : Prop where
  ahead : ∃ ts : List Token, p.ahead = ts ++ [.eof] ∧ ∀ t ∈ ts, t.kind ≠ .eof
  infixForm? : p.dialect.infixForm? .eof = none

variable {p q : Parser}

/-- A parser with fewer tokens ahead is proper too, as long as some are left. -/
theorem Proper.of_suffix (hp : p.Proper) (hd : q.dialect = p.dialect) (h : q.ahead <:+ p.ahead)
    (hne : q.ahead ≠ []) : q.Proper := by
  obtain ⟨⟨ts, hts, heof⟩, heof'⟩ := hp
  refine ⟨?_, by rw [hd, heof']⟩
  rcases List.suffix_concat_iff.1 (hts ▸ h) with hnil | ⟨us, hus, hsuf⟩
  · exact absurd hnil hne
  · exact ⟨us, hus, fun t ht => heof t (hsuf.subset ht)⟩

theorem Proper.getLast? (hp : p.Proper) : p.ahead.getLast? = some .eof := by
  obtain ⟨ts, hts, -⟩ := hp.ahead
  rw [hts, List.getLast?_concat]

theorem Proper.later (hp : p.Proper) (h : p.Later q) : q.Proper :=
  hp.of_suffix h.dialect h.ahead (h.ends hp.getLast?)

theorem Proper.advance (hp : p.Proper) : p.advance.Proper := hp.later p.later_advance

theorem Proper.not_atEnd (hp : p.Proper) (h : p.peek.kind ≠ .eof) : ¬p.atEnd := by
  obtain ⟨⟨_ | ⟨t, ts⟩, hts, heof⟩, -⟩ := hp
  · simp [peek, hts, Token.eof] at h
  · simpa [atEnd, current, hts] using heof t

theorem length_pos_of_getLast? (h : p.ahead.getLast? = some .eof) : 0 < p.ahead.length := by
  refine List.length_pos_iff.2 fun hnil => ?_
  rw [hnil] at h
  cases h

theorem length_advance_lt (h : ¬p.atEnd) : p.advance.ahead.length < p.ahead.length := by
  rw [ahead_advance h]
  exact length_tail_lt h

/-- After a token that is not the end, a later parser has passed it once it
    moves on. -/
theorem Later.length_advance_lt (h : p.Later q) (hp : ¬p.atEnd) :
    q.advance.ahead.length < p.ahead.length := by
  have hle := h.ahead.length_le
  by_cases hq : q.atEnd
  -- At the end `q` stays where it is, but `p` was not at the end yet: one token
  -- at least was passed before.
  · have hne : q.ahead ≠ p.ahead := by
      intro he
      simp only [atEnd, current, he] at hq hp
      exact hp hq
    have hlt := Nat.lt_of_le_of_ne hle fun hl => hne (h.ahead.eq_of_length hl)
    simpa [Parser.advance, hq] using hlt
  · exact Nat.lt_of_lt_of_le (Parser.length_advance_lt hq) hle

end Parser

/-! ### Items -/

namespace Action

variable {α : Type} {k : Kind} {item : Action α} {s : Parser}

/-- A turn of the loop over items, each of which stands after a token of kind
    `k`. -/
def itemTurn (k : Kind) (item : Action α) :
    List α × Parser → (List α × Parser) ⊕ (Option (List α) × Parser)
  | (xs, p) =>
    if p.peek.kind = k then
      match item p.advance with
      | (some x, q) => .inl (xs ++ [x], q)
      | (none, q) => .inr (none, q)
    else .inr (some xs, p)

/-- By recursion on the bound: a turn passes the token of kind `k` at least, so
    that fewer are ahead than the bound that is left. -/
theorem loops_repeatedUpTo (h : Forward item) (hk : k ≠ .eof) : ∀ {n : Nat} (xs : List α)
    {s : Parser}, s.Proper → s.ahead.length ≤ n →
    Loops (itemTurn k item) (xs, s) ((repeatedUpTo k item n s).map (Option.map (xs ++ ·)) id)
  | 0, _, _, hs, hn => by
    have hpos := Parser.length_pos_of_getLast? hs.getLast?
    omega
  | n + 1, xs, s, hs, hn => by
    simp only [repeatedUpTo, bind_apply, peekIs, ask]
    by_cases hp : s.peek.kind = k
    -- A token is passed, so that what is left after the item is within the bound of
    -- the next turn.
    · have hlt := Parser.length_advance_lt (hs.not_atEnd (hp ▸ hk))
      simp only [hp, beq_self_eq_true, if_true, bind_apply, advance, update]
      rcases hx : item s.advance with ⟨_ | x, r⟩
      · exact .exit (by simp [itemTurn, hp, hx])
      · have hr := h.later hx
        have hle := hr.ahead.length_le
        have hturn : itemTurn k item (xs, s) = .inl (xs ++ [x], r) := by simp [itemTurn, hp, hx]
        have hloop := loops_repeatedUpTo h hk (xs ++ [x]) (hs.advance.later hr) (n := n) (by omega)
        refine .next hturn ?_
        convert hloop using 1
        change Prod.map _ id ((repeatedUpTo k item n >>= fun ys => pure (x :: ys)) r) = _
        rw [bind_apply]
        rcases repeatedUpTo k item n r with ⟨_ | ys, t⟩ <;> simp [pure_apply]
    · exact .exit (by simp [itemTurn, hp, pure_apply])

theorem repeatedUpTo_congr (h : Forward item) (hk : k ≠ .eof) {n m : Nat} (hs : s.Proper)
    (hn : s.ahead.length ≤ n) (hm : s.ahead.length ≤ m) :
    repeatedUpTo k item n s = repeatedUpTo k item m s := by
  simpa using (loops_repeatedUpTo h hk [] hs hn).unique (loops_repeatedUpTo h hk [] hs hm)

/-- Where no token of kind `k` follows, there are no more items. -/
theorem repeated_of_ne (hk : s.peek.kind ≠ k) : repeated k item s = (some [], s) := by
  rw [repeated]
  cases s.ahead.length with
  | zero => rfl
  | succ n => simp [repeatedUpTo, bind_apply, peekIs, ask, hk, pure_apply]

/-- Where a token of kind `k` follows, an item is read and then those after it,
    in a loop with a bound of its own. -/
theorem repeated_of_eq (h : Forward item) (hs : s.Proper) (hne : k ≠ .eof)
    (hk : s.peek.kind = k) : repeated k item s = (do
      let x ← item
      let xs ← repeated k item
      pure (x :: xs)) s.advance := by
  have hlt := Parser.length_advance_lt (hs.not_atEnd (hk ▸ hne))
  obtain ⟨n, hn⟩ : ∃ n, s.ahead.length = n + 1 := ⟨s.ahead.length - 1, by omega⟩
  simp only [repeated, hn, repeatedUpTo, bind_apply, peekIs, ask, hk, beq_self_eq_true, if_true,
    advance, update]
  rcases hx : item s.advance with ⟨_ | a, r⟩
  · rfl
  · have hr := h.later hx
    have hle := hr.ahead.length_le
    simp only [repeatedUpTo_congr h hne (hs.advance.later hr) (n := n) (m := r.ahead.length)
      (by omega) (Nat.le_refl _)]

end Action

namespace Form

open ScriptFront.Action

variable {expr : Precedence → Action Expr} {p : Precedence} {left : Expr} {s : Parser}
  {stop : List Kind} {n m : Nat} (h : ∀ q, Forward (expr q))

/-! ### Operators -/

/-- A turn of the loop over operators, and over what else continues an
    expression. -/
def operatorTurn (expr : Precedence → Action Expr) (p : Precedence) :
    Expr × Parser → (Expr × Parser) ⊕ (Option Expr × Parser)
  | (left, s) =>
    match s.continuation? p with
    | none => .inr (some left, s)
    | some (q, form) =>
      match infixOf expr left q form s.advance with
      | (some e, r) => .inl (e, r)
      | (none, r) => .inr (none, r)

/-- The end of the text continues no expression. -/
theorem peek_ne_eof {f : Precedence × InfixForm} (hs : s.Proper) (h : s.continuation? p = some f) :
    s.peek.kind ≠ .eof := by
  intro he
  simp [Parser.continuation?, he, hs.infixForm?] at h

include h in
/-- By recursion on the bound: a turn passes the token that continues the
    expression. -/
theorem loops_extendUpTo : ∀ {n : Nat} (left : Expr) {s : Parser}, s.Proper →
    s.ahead.length ≤ n → Loops (operatorTurn expr p) (left, s) (extendUpTo expr p n left s)
  | 0, _, _, hs, hn => by
    have hpos := Parser.length_pos_of_getLast? hs.getLast?
    omega
  | n + 1, left, s, hs, hn => by
    simp only [extendUpTo, bind_apply, ask]
    rcases hc : s.continuation? p with _ | ⟨q, f⟩
    · exact .exit (by simp [operatorTurn, hc, pure_apply])
    · have hlt := Parser.length_advance_lt (hs.not_atEnd (peek_ne_eof hs hc))
      simp only [bind_apply, advance, update]
      rcases hx : infixOf expr left q f s.advance with ⟨_ | e, r⟩
      · exact .exit (by simp [operatorTurn, hc, hx])
      · have hr := (forward_infixOf h left q f).later hx
        have hle := hr.ahead.length_le
        have hturn : operatorTurn expr p (left, s) = .inl (e, r) := by simp [operatorTurn, hc, hx]
        exact .next hturn (loops_extendUpTo e (hs.advance.later hr) (by omega))

include h in
/-- Bounds that are not below the number of tokens ahead are alike for the loop
    over operators. -/
theorem extendUpTo_congr (hs : s.Proper) (hn : s.ahead.length ≤ n) (hm : s.ahead.length ≤ m) :
    extendUpTo expr p n left s = extendUpTo expr p m left s :=
  (loops_extendUpTo h left hs hn).unique (loops_extendUpTo h left hs hm)

theorem extend_of_none (hc : s.continuation? p = none) :
    extend expr p left s = (some left, s) := by
  rw [extend]
  cases s.ahead.length with
  | zero => rfl
  | succ n => simp only [extendUpTo, bind_apply, ask, hc, pure_apply]

include h in
/-- Where a continuation follows, it is read, and then what goes on from there. -/
theorem extend_of_some {q : Precedence} {f : InfixForm} (hs : s.Proper)
    (hc : s.continuation? p = some (q, f)) :
    extend expr p left s = (infixOf expr left q f >>= extend expr p) s.advance := by
  have hlt := Parser.length_advance_lt (hs.not_atEnd (peek_ne_eof hs hc))
  obtain ⟨n, hn⟩ : ∃ n, s.ahead.length = n + 1 := ⟨s.ahead.length - 1, by omega⟩
  simp only [extend, hn, extendUpTo, bind_apply, ask, hc, advance, update]
  rcases hx : infixOf expr left q f s.advance with ⟨_ | e, r⟩
  · rfl
  · have hr := (forward_infixOf h left q f).later hx
    have hle := hr.ahead.length_le
    exact extendUpTo_congr h (hs.advance.later hr) (by omega) (Nat.le_refl _)

/-! ### Statements -/

/-- A turn of the loop over statements. -/
def stmtTurn (expr : Precedence → Action Expr) (stop : List Kind) :
    List Stmt × Parser → (List Stmt × Parser) ⊕ (List Stmt × Parser)
  | (ss, s) =>
    if s.atEnd || stop.contains s.current.kind then .inr (ss, s)
    else .inl (ss ++ (stmt expr s).1.toList, (stmt expr s).2.advance)

include h in
/-- By recursion on the bound: after each statement a token is passed, even if
    none was in it. -/
theorem loops_stmtsUpTo : ∀ {n : Nat} (ss : List Stmt) {s : Parser},
    s.ahead.getLast? = some .eof → s.ahead.length ≤ n → Loops (stmtTurn expr stop) (ss, s)
      (ss ++ (stmtsUpTo expr stop n s).1, (stmtsUpTo expr stop n s).2)
  | 0, _, _, hs, hn => by
    have hpos := Parser.length_pos_of_getLast? hs
    omega
  | n + 1, ss, s, hl, hn => by
    rw [stmtsUpTo]
    by_cases hstop : s.atEnd || stop.contains s.current.kind
    · exact .exit (by simp only [stmtTurn, hstop, if_true, List.append_nil])
    have hs : ¬s.atEnd := by
      intro he
      simp [he] at hstop
    -- The statement may stop at its first token; the step after it passes that
    -- token then.
    have hf := forward_stmt h s
    have hlt := hf.length_advance_lt hs
    have hloop := loops_stmtsUpTo (ss ++ (stmt expr s).1.toList)
      ((hf.trans (Parser.later_advance _)).getLast? hl) (n := n) (by omega)
    refine .next (by rw [stmtTurn, if_neg hstop]) ?_
    rw [if_neg hstop]
    simpa only [List.append_assoc] using hloop

include h in
/-- Bounds that are not below the number of tokens ahead are alike for the loop
    over statements. -/
theorem stmtsUpTo_congr (hl : s.ahead.getLast? = some .eof) (hn : s.ahead.length ≤ n)
    (hm : s.ahead.length ≤ m) : stmtsUpTo expr stop n s = stmtsUpTo expr stop m s :=
  (loops_stmtsUpTo h [] hl hn).unique (loops_stmtsUpTo h [] hl hm)

/-- At the end of the text and at a token of one of the kinds `stop` there are
    no more statements. -/
theorem stmts_of_stop (hs : s.atEnd ∨ s.current.kind ∈ stop) :
    stmts expr stop s = ([], s) := by
  rw [stmts]
  cases s.ahead.length with
  | zero => rfl
  | succ n => rcases hs with hs | hs <;> simp [stmtsUpTo, hs]

include h in
/-- Anywhere else a statement is read, a token is passed, and the statements
    after it are read. -/
theorem stmts_of_not_stop (hl : s.ahead.getLast? = some .eof) (hs : ¬s.atEnd)
    (hstop : s.current.kind ∉ stop) : stmts expr stop s =
      ((stmt expr s).1.toList ++ (stmts expr stop (stmt expr s).2.advance).1,
        (stmts expr stop (stmt expr s).2.advance).2) := by
  have hf := forward_stmt h s
  have hlt := hf.length_advance_lt hs
  have hf' := hf.trans (Parser.later_advance _)
  obtain ⟨n, hn⟩ : ∃ n, s.ahead.length = n + 1 := ⟨s.ahead.length - 1, by omega⟩
  simp only [stmts, hn, stmtsUpTo, hs, hstop, List.contains_eq_mem, decide_false, Bool.or_self,
    Bool.false_eq_true, if_false, stmtsUpTo_congr h (m := (stmt expr s).2.advance.ahead.length)
    (hf'.getLast? hl) (n := n) (by omega) (Nat.le_refl _)]

end Form

end ScriptFront

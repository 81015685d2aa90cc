import ScriptFront.Proofs.ReportOrder

/-!
# Braces

Nobody counts braces: a block is read statement by statement, up to a closing
brace that stands where a statement should start. Whether that is the brace that
closes the block depends on what was made of the braces before it.

A brace is accepted as the one that opens a block, or as the one that closes it.
Any other one comes to be the current token only where an expression should
start; it is blamed for itself then (`Report.blamesBrace`) and passed over, and
whatever block it would have opened or closed, the parser knows nothing of it. So
a block ends where the braces are balanced once those are struck out
(`Parser.block_ends`), and at its own brace if there are none. An error of another
kind never makes it end elsewhere.

The invariant is the number of braces that are open, counted without those that
were blamed so far (`Token.openBraces`): where the parser is in `l` blocks, from
the one that is read on, it has risen by `l`, and at no place since has it come
back to what it was (`Parser.InBlock`). The end of the text ends all blocks at
once, so that there the number of blocks says nothing.
-/

namespace ScriptFront

/-- Whether a report blames a brace for itself. -/
def Report.blamesBrace (r : Report) : Bool :=
  !r.unexpected && (r.diagnostic.token.kind == .lbrace || r.diagnostic.token.kind == .rbrace)

namespace Token

/-- The tokens of a text, but with the braces that some reports blame for
    themselves as illegal tokens. -/
def strike (rs : List Report) (ts : List Token) : List Token :=
  ts.mapIdx fun i t =>
    if rs.any fun r => r.blamesBrace && r.index == i then { t with kind := .illegal } else t

/-- Whether from the place `i` up to the place `j`, these included, as many braces
    are closed as are opened. -/
def BalancedUpTo (ts : List Token) (i j : Nat) : Prop :=
  countKind .rbrace ((ts.take (j + 1)).drop i) = countKind .lbrace ((ts.take (j + 1)).drop i)

/-! ### Open braces -/

/-- The number of braces that are opened before the place `k` and not closed. -/
def braceLevel (ts : List Token) (k : Nat) : Int :=
  countKind .lbrace (ts.take k) - countKind .rbrace (ts.take k)

/-- What a token adds to the number of open braces. -/
def braceStep (t : Token) : Int :=
  if t.kind = .lbrace then 1 else if t.kind = .rbrace then -1 else 0

variable {ts us : List Token} {rs : List Report} {r : Report} {t : Token} {i j k : Nat}

/-- A token adds to the number of open braces what it opens and takes off what
    it closes. -/
theorem braceLevel_succ (h : ts[k]? = some t) :
    braceLevel ts (k + 1) = braceLevel ts k + t.braceStep := by
  rw [braceLevel, braceLevel, List.take_add_one, h, countKind_append, countKind_append,
    Option.toList_some, countKind_cons, countKind_cons, braceStep]
  by_cases ho : t.kind = .lbrace
  · simp [ho]
    omega
  by_cases hc : t.kind = .rbrace
  · simp [hc]
    omega
  · simp [ho, hc]

theorem braceLevel_congr (h : ∀ i < k, ts[i]? = us[i]?) : braceLevel ts k = braceLevel us k := by
  have htake : ts.take k = us.take k := by
    refine List.ext_getElem? fun i => ?_
    rw [List.getElem?_take, List.getElem?_take]
    split
    next hi => exact h i hi
    next => rfl
  rw [braceLevel, braceLevel, htake]

/-- As many braces are closed as are opened where their number is the same
    before and after. -/
theorem balancedUpTo_iff (hij : i ≤ j + 1) :
    BalancedUpTo ts i j ↔ braceLevel ts (j + 1) = braceLevel ts i := by
  have hsplit := List.take_append_drop i (ts.take (j + 1))
  rw [List.take_take, Nat.min_eq_left hij] at hsplit
  rw [BalancedUpTo, braceLevel, braceLevel, ← hsplit, countKind_append, countKind_append, hsplit]
  omega

/-! ### Struck braces -/

/-- The places of the tokens stay when braces are struck out. -/
theorem getElem?_strike : (strike rs ts)[i]? = ts[i]?.map fun t =>
    if rs.any fun r => r.blamesBrace && r.index == i then { t with kind := .illegal } else t :=
  List.getElem?_mapIdx ..

theorem strike_of_not_blamesBrace (h : ∀ r ∈ rs, r.blamesBrace = false) : strike rs ts = ts := by
  refine List.ext_getElem? fun i => ?_
  have hany : (rs.any fun r => r.blamesBrace && r.index == i) = false := by
    rw [List.any_eq_false]
    intro r hr
    simp [h r hr]
  simp [getElem?_strike, hany]

/-- The number of open braces before the place `k`, where the braces that `rs` blame
    do not count. -/
def openBraces (rs : List Report) (ts : List Token) (k : Nat) : Int := braceLevel (strike rs ts) k

/-- A report more makes a difference only if it blames a brace, and after that
    brace. -/
theorem openBraces_concat (h : r.blamesBrace = false ∨ k ≤ r.index) :
    openBraces (rs ++ [r]) ts k = openBraces rs ts k := by
  refine braceLevel_congr fun i hi => ?_
  rcases h with h | h
  · simp [getElem?_strike, h]
  · have hne : r.index ≠ i := by omega
    simp [getElem?_strike, hne]

/-- A brace that was struck out, or a token that is no brace, opens and closes
    nothing. -/
theorem openBraces_succ (h : ts[k]? = some t)
    (ht : t.braceStep = 0 ∨ ∃ r ∈ rs, r.blamesBrace = true ∧ r.index = k) :
    openBraces rs ts (k + 1) = openBraces rs ts k := by
  have hk : (strike rs ts)[k]? = _ := getElem?_strike
  rw [h, Option.map_some] at hk
  rw [openBraces, braceLevel_succ hk]
  split
  next => exact Int.add_zero _
  next hany =>
    rcases ht with ht | ⟨r, hr, hb, hi⟩
    · rw [ht, Int.add_zero]
      rfl
    · exact absurd (List.any_eq_true.2 ⟨r, hr, by simp [hb, hi]⟩) hany

/-- A token that comes after all braces that were struck out counts as it is. -/
theorem openBraces_succ_of_lt (h : ts[k]? = some t)
    (hr : ∀ r ∈ rs, r.blamesBrace = true → r.index < k) :
    openBraces rs ts (k + 1) = openBraces rs ts k + t.braceStep := by
  refine braceLevel_succ ?_
  have hany : (rs.any fun r => r.blamesBrace && r.index == k) = false := by
    rw [List.any_eq_false]
    intro r hmem hb
    rw [Bool.and_eq_true, beq_iff_eq] at hb
    exact absurd hb.2 (Nat.ne_of_lt (hr r hmem hb.1))
  rw [getElem?_strike, h, hany]
  rfl

end Token

namespace Parser

open Token

variable {source : String} {o p q : Parser} {rs : List Report} {r : Report} {l c : Int} {k : Nat}

/-- The parser has come from the opening brace at which `o` stands, and has
    accepted the tokens before the place `k`. Between the two the braces have never
    been balanced, and `l` of them are open there, unless the text is at its end.
    The braces that the reports `rs` blame do not count; these are the reports that
    were made since. -/
structure InBlock (source : String) (o : Parser) (rs : List Report) (l : Int) (k : Nat)
    (p : Parser) : Prop where
  plain : p.Plain
  among : p.Among (tokenize source)
  lt : o.index < k
  lt_of_atEnd : p.atEnd → o.index < p.index
  reports : p.reports.toList = o.reports.toList ++ rs
  unbalanced : ∀ j, o.index < j → j ≤ k →
    openBraces rs (tokenize source) o.index < openBraces rs (tokenize source) j
  level : p.atEnd ∨ (∀ r ∈ rs, r.blamesBrace = true → r.index < k) ∧
    openBraces rs (tokenize source) k = openBraces rs (tokenize source) o.index + l

namespace InBlock

/-- The current token is accepted, which opens `c` braces. -/
theorem accept (h : InBlock source o rs l p.index p)
    (hc : openBraces rs (tokenize source) (p.index + 1) =
      openBraces rs (tokenize source) p.index + c)
    (hend : p.atEnd → c = 0) (hpos : ¬p.atEnd → 1 ≤ l + c) :
    InBlock source o rs (l + c) (p.index + 1) p := by
  have hlevel : p.atEnd ∨ openBraces rs (tokenize source) p.index =
      openBraces rs (tokenize source) o.index + l := h.level.imp_right And.right
  refine { h with
    lt := Nat.lt_succ_of_lt h.lt
    unbalanced := fun j hj hjk => ?_
    level := h.level.imp_right fun hl =>
      ⟨fun r hr hb => Nat.lt_succ_of_lt (hl.1 r hr hb), by rw [hc, hl.2, Int.add_assoc]⟩ }
  rcases Nat.lt_or_eq_of_le hjk with hjk | rfl
  · exact h.unbalanced j hj (Nat.le_of_lt_succ hjk)
  · have hbefore := h.unbalanced p.index h.lt (Nat.le_refl _)
    by_cases he : p.atEnd
    · rw [hc, hend he]
      omega
    · have hl := hlevel.resolve_left he
      have := hpos he
      omega

/-- A token that is no brace is accepted. -/
theorem settle (h : InBlock source o rs l p.index p) (hl : 1 ≤ l)
    (hp : p.current.braceStep = 0) : InBlock source o rs l (p.index + 1) p := by
  have hc : openBraces rs (tokenize source) (p.index + 1) =
      openBraces rs (tokenize source) p.index + 0 := by
    rw [openBraces_succ h.among.current (.inl hp), Int.add_zero]
  have hq := h.accept hc (fun _ => rfl) (by omega)
  rwa [Int.add_zero] at hq

theorem move (h : InBlock source o rs l (p.index + 1) p) :
    InBlock source o rs l p.advance.index p.advance := by
  by_cases hend : p.atEnd
  -- The parser stays where it is, at a token that is no longer accepted.
  · rw [Parser.advance, if_pos hend]
    exact { h with
      lt := h.lt_of_atEnd hend
      unbalanced := fun j hj hjk => h.unbalanced j hj (Nat.le_succ_of_le hjk)
      level := .inl hend }
  · rw [index_advance hend]
    exact {
      plain := h.plain.advance
      among := h.among.later (getLast?_tokenize source) p.later_advance
      lt := h.lt
      lt_of_atEnd := fun _ => index_advance hend ▸ h.lt
      reports := p.reports_advance ▸ h.reports
      unbalanced := h.unbalanced
      level := .inr (h.level.resolve_left hend) }

/-- The token after an accepted one opens a block, in those that the parser is
    in. -/
theorem opens (h : InBlock source o rs l (p.index + 1) p) (hl : 0 ≤ l)
    (hp : p.peek.kind = .lbrace) :
    InBlock source o rs (l + 1) (p.advance.index + 1) p.advance := by
  have hend : ¬p.atEnd := fun hend => by
    rw [peek, h.plain.ahead_of_atEnd hend] at hp
    cases hp
  have hcurrent := current_advance hend
  have hq := h.move
  have hqend : ¬p.advance.atEnd := by simp [atEnd, hcurrent, hp]
  have hstep := openBraces_succ_of_lt hq.among.current (hq.level.resolve_left hqend).1
  rw [hcurrent, braceStep, if_pos hp] at hstep
  exact hq.accept hstep (fun he => absurd he hqend) fun _ => by omega

/-- The current token closes the innermost block. -/
theorem closes (h : InBlock source o rs (l + 1) p.index p) (hl : 1 ≤ l)
    (hp : p.current.kind = .rbrace) : InBlock source o rs l (p.index + 1) p := by
  have hend : ¬p.atEnd := by simp [atEnd, hp]
  have hstep := openBraces_succ_of_lt h.among.current (h.level.resolve_left hend).1
  rw [braceStep, if_neg (by simp [hp]), if_pos hp] at hstep
  have hq := h.accept hstep (fun he => absurd he hend) fun _ => by omega
  rwa [Int.add_neg_cancel_right] at hq

/-- At the end of the text the parser is in as many blocks as one likes. -/
theorem ends (h : InBlock source o rs l p.index p) (hl : 1 ≤ l) (m : Int) (hp : p.atEnd) :
    InBlock source o rs m (p.index + 1) p := by
  have hstep : p.current.braceStep = 0 := by
    rw [(h.among.of_atEnd hp).1]
    rfl
  exact { h.settle hl hstep with level := .inl hp }

/-- The current token is blamed for itself, which strikes it out if it is a
    brace. -/
theorem refuse (h : InBlock source o rs l p.index p) (hr : r.unexpected = false)
    (htoken : r.diagnostic.token = p.current) (hindex : r.index = p.index) :
    InBlock source o (rs ++ [r]) l (p.index + 1) (p.record r) := by
  have hbefore {j : Nat} (hj : j ≤ p.index) :
      openBraces (rs ++ [r]) (tokenize source) j = openBraces rs (tokenize source) j :=
    openBraces_concat (.inr (hindex ▸ hj))
  have hstep : openBraces (rs ++ [r]) (tokenize source) (p.index + 1) =
      openBraces rs (tokenize source) p.index := by
    rw [openBraces_succ h.among.current ?_, hbefore (Nat.le_refl _)]
    by_cases hbrace : p.current.kind = .lbrace ∨ p.current.kind = .rbrace
    · refine .inr ⟨r, List.mem_append_right _ (List.mem_singleton_self r), ?_, hindex⟩
      simp [Report.blamesBrace, hr, htoken, hbrace]
    · rw [not_or] at hbrace
      exact .inl (by rw [braceStep, if_neg hbrace.1, if_neg hbrace.2])
  refine {
    plain := h.plain.record r
    among := ⟨h.among.lt, h.among.ahead⟩
    lt := Nat.lt_succ_of_lt h.lt
    lt_of_atEnd := h.lt_of_atEnd
    reports := by simp [Parser.record, h.reports]
    unbalanced := fun j hj hjk => ?_
    level := h.level.imp_right fun hl => ⟨fun s hs hb => ?_, ?_⟩ }
  · -- Behind the blamed token as many braces are open as before it, which is the
    -- last place that was known not to be balanced.
    rw [hbefore (Nat.le_of_lt h.lt)]
    rcases Nat.lt_or_eq_of_le hjk with hjk | rfl
    · rw [hbefore (Nat.le_of_lt_succ hjk)]
      exact h.unbalanced j hj (Nat.le_of_lt_succ hjk)
    · rw [hstep]
      exact h.unbalanced _ h.lt (Nat.le_refl _)
  · rcases List.mem_append.1 hs with hs | hs
    · exact Nat.lt_succ_of_lt (hl.1 s hs hb)
    · rw [List.mem_singleton.1 hs, hindex]
      exact Nat.lt_succ_self _
  · rw [hstep, hbefore (Nat.le_of_lt h.lt), hl.2]

/-- A report that does not blame a brace for itself strikes out nothing. -/
theorem record (h : InBlock source o rs l k p) (hr : r.blamesBrace = false) :
    InBlock source o (rs ++ [r]) l k (p.record r) where
  plain := h.plain.record r
  among := ⟨h.among.lt, h.among.ahead⟩
  lt := h.lt
  lt_of_atEnd := h.lt_of_atEnd
  reports := by simp [Parser.record, h.reports]
  unbalanced j hj hjk := by
    rw [openBraces_concat (.inl hr), openBraces_concat (.inl hr)]
    exact h.unbalanced j hj hjk
  level := by
    rw [openBraces_concat (.inl hr), openBraces_concat (.inl hr)]
    refine h.level.imp_right fun hl => ⟨fun s hs hb => ?_, hl.2⟩
    rcases List.mem_append.1 hs with hs | hs
    · exact hl.1 s hs hb
    · rw [List.mem_singleton.1 hs, hr] at hb
      cases hb

theorem enter (h : InBlock source o rs l p.index p) : InBlock source o rs l p.enter.index p.enter :=
  { h with plain := h.plain.enter, among := ⟨h.among.lt, h.among.ahead⟩ }

theorem leave (h : InBlock source o rs l (p.index + 1) p) :
    InBlock source o rs l (p.leave.index + 1) p.leave :=
  { h with plain := h.plain.leave, among := ⟨h.among.lt, h.among.ahead⟩ }

end InBlock

/-! ### Reading -/

/-- The parser is in `l` blocks, and has not looked at its current token. -/
def Fresh (source : String) (o : Parser) (l : Int) (p : Parser) : Prop :=
  ∃ rs, InBlock source o rs l p.index p

/-- The parser is in `l` blocks, and has accepted its current token, or blamed it. -/
def Done (source : String) (o : Parser) (l : Int) (p : Parser) : Prop :=
  ∃ rs, InBlock source o rs l (p.index + 1) p

theorem braceStep_of_ordinary {t : Token} (h : t.ordinary = true) : t.braceStep = 0 := by
  simp only [ordinary, Bool.and_eq_true, bne_iff_ne] at h
  rw [braceStep, if_neg h.1.2, if_neg h.2]

theorem Done.move (h : Done source o l p) : Fresh source o l p.advance :=
  h.imp fun _ => InBlock.move

theorem Fresh.settle (h : Fresh source o l p) (hl : 1 ≤ l) (hp : p.current.ordinary = true) :
    Done source o l p :=
  h.imp fun _ h => h.settle hl (braceStep_of_ordinary hp)

theorem Done.pass (h : Done source o l p) (hl : 1 ≤ l) (hp : p.peek.ordinary = true) :
    Done source o l p.advance := by
  by_cases hend : p.atEnd
  · rwa [Parser.advance, if_pos hend]
  · exact h.move.settle hl (by rwa [current_advance hend])

/-- Inside of a block, every token is accounted for by the braces that are open. -/
theorem braceDiscipline (source : String) (o : Parser) (hl : 1 ≤ l) :
    BraceDiscipline (Fresh source o l) (Done source o l) (Done source o (l + 1))
      (Done source o l) where
  plain_fresh h := h.choose_spec.plain
  plain_done h := h.choose_spec.plain
  settle h := h.settle hl
  move h := h.move
  pass h := h.pass hl
  opens h hp := h.imp fun _ h => h.opens (by omega) hp
  refuse h hcause := ⟨_, h.choose_spec.refuse hcause rfl rfl⟩
  mismatch _ h := ⟨_, h.choose_spec.record rfl⟩

variable {expr : Precedence → Action Expr}

/-- A row of statements ends in as many blocks as it starts in. -/
theorem Fresh.stmts (hl : 1 ≤ l)
    (hexpr : ∀ q, Action.Meets (Fresh source o l) (expr q) (Done source o l) (Done source o l))
    (stop : List Kind) (h : Fresh source o l p) :
    Fresh source o l (Form.stmts expr stop p).2 := by
  have hstmt := (braceDiscipline source o hl).stmt hexpr fun _ hp hs =>
    hp.pass hl (ordinary_of_kind hs (by decide))
  exact Discipline.stmts (fun _ hp _ => hp) hstmt (fun _ hp => hp.move) stop h

/-- A block is one further in than what is around it, until its closing brace, or
    the end of the text, makes up for that. -/
theorem meets_block (hl : 1 ≤ l) (hforward : ∀ q, Action.Forward (expr q))
    (hexpr : ∀ q, Action.Meets (Fresh source o (l + 1)) (expr q) (Done source o (l + 1))
      (Done source o (l + 1))) :
    Action.Meets (Done source o (l + 1)) (Action.total (Form.block expr)) (Done source o l)
      (Done source o l) := by
  intro p hp
  change Done source o l (Form.stmts expr [.rbrace] p.advance).2
  obtain ⟨rs, hq⟩ := hp.move.stmts (by omega) hexpr [.rbrace]
  refine ⟨rs, ?_⟩
  rcases Form.stops_stmts hforward [.rbrace] hp.move.choose_spec.plain.getLast? with hs | hs
  · exact hq.ends (by omega) l hs
  · exact hq.closes hl (List.mem_singleton.1 hs)

/-- However many blocks an expression stands in, afterwards it is in as many, also
    if it was given up. -/
theorem meets_expressionWithin_block : ∀ n {l}, 1 ≤ l → ∀ q,
    Action.Meets (Fresh source o l) (expressionWithin n q) (Done source o l) (Done source o l)
  | 0, _, hl, _ => fun _ hp => (braceDiscipline source o hl).refuse hp rfl
  | n + 1, l, hl, q => by
    have hblock : Action.Meets (Done source o (l + 1))
        (Action.total (Form.block (expressionWithin n))) (Done source o l) (Done source o l) :=
      meets_block hl (forward_expressionWithin n) (meets_expressionWithin_block n (by omega))
    have hform := (braceDiscipline source o hl).expression (meets_expressionWithin_block n hl)
      hblock q
    exact hform.nested (fun _ hp => hp.imp fun _ => InBlock.enter)
      (fun _ hp => hp.imp fun _ => InBlock.leave) fun _ hp => hp.imp fun _ => InBlock.leave

/-- At its opening brace a parser is in one block, and has accepted nothing. -/
theorem inBlock_start (ho : o.Among (tokenize source)) (hd : o.dialect = .standard)
    (hc : o.current.kind = .lbrace) : InBlock source o [] 1 (o.index + 1) o := by
  have hend : ¬o.atEnd := by simp [atEnd, hc]
  have hstep : openBraces [] (tokenize source) (o.index + 1) =
      openBraces [] (tokenize source) o.index + 1 := by
    rw [openBraces_succ_of_lt ho.current fun _ hr => absurd hr List.not_mem_nil, braceStep,
      if_pos hc]
  refine {
    plain := ⟨hd, ho.proper (by rw [hd]; rfl)⟩
    among := ho
    lt := Nat.lt_succ_self _
    lt_of_atEnd := fun h => absurd h hend
    reports := (List.append_nil _).symm
    unbalanced := fun j hj hjk => ?_
    level := .inr ⟨fun _ hr => absurd hr List.not_mem_nil, hstep⟩ }
  obtain rfl : j = o.index + 1 := Nat.le_antisymm hjk hj
  omega

/-! ### Where a block ends -/

/-- Whether the parser stands where a block ends whose opening brace is at the place
    `i`: at the first brace up to which the braces from there on are balanced, or at
    the end of the text if there is none. -/
def EndsBlock (ts : List Token) (i : Nat) (p : Parser) : Prop :=
  (p.current.kind = .rbrace ∧ i < p.index ∧ BalancedUpTo ts i p.index ∧
      ∀ j, i < j → j < p.index → ¬BalancedUpTo ts i j) ∨
    p.current = .eof ∧ ∀ j, i < j → j < ts.length → ¬BalancedUpTo ts i j

/-- Since the opening brace the braces have been balanced nowhere. -/
theorem InBlock.not_balancedUpTo {j : Nat} (h : InBlock source o rs l k p) (hj : o.index < j)
    (hjk : j < k) : ¬BalancedUpTo (strike rs (tokenize source)) o.index j := by
  rw [balancedUpTo_iff (Nat.le_of_lt (Nat.lt_succ_of_lt hj))]
  exact Int.ne_of_gt (h.unbalanced (j + 1) (Nat.lt_succ_of_lt hj) hjk)

/-- A brace that closes the one block that is open is the first up to which the
    braces are balanced. -/
theorem InBlock.endsBlock_of_rbrace (h : InBlock source o rs 1 p.index p)
    (hp : p.current.kind = .rbrace) :
    EndsBlock (strike rs (tokenize source)) o.index p := by
  have hend : ¬p.atEnd := by simp [atEnd, hp]
  have hlevel := h.level.resolve_left hend
  have hstep := openBraces_succ_of_lt h.among.current hlevel.1
  rw [hlevel.2, braceStep, if_neg (by simp [hp]), if_pos hp, Int.add_neg_cancel_right] at hstep
  refine .inl ⟨hp, h.lt, ?_, fun j => h.not_balancedUpTo⟩
  exact (balancedUpTo_iff (Nat.le_succ_of_le (Nat.le_of_lt h.lt))).2 hstep

/-- At the end of the text there is no such brace. -/
theorem InBlock.endsBlock_of_atEnd (h : InBlock source o rs 1 p.index p) (hp : p.atEnd) :
    EndsBlock (strike rs (tokenize source)) o.index p := by
  obtain ⟨hc, hlen⟩ := h.among.of_atEnd hp
  refine .inr ⟨hc, fun j hj hlt => (h.ends (Int.le_refl 1) 1 hp).not_balancedUpTo hj ?_⟩
  rw [strike, List.length_mapIdx, ← hlen] at hlt
  exact hlt

/-- A block ends at the brace that closes it, or at the end of the text if none does,
    when the braces that were blamed for themselves inside of it are struck out; so
    it does as the text stands, if there are none, whatever else was wrong. -/
theorem block_ends {source : String} {p : Parser} (hp : p.Among (tokenize source))
    (hd : p.dialect = .standard) (hc : p.current.kind = .lbrace) :
    ∃ rs, p.block.2.reports.toList = p.reports.toList ++ rs ∧
      p.block.2.Among (tokenize source) ∧
      EndsBlock (strike rs (tokenize source)) p.index p.block.2 ∧
      ((∀ r ∈ rs, r.blamesBrace = false) → EndsBlock (tokenize source) p.index p.block.2) := by
  have hstart : Done source p 1 p := ⟨[], inBlock_start hp hd hc⟩
  obtain ⟨rs, hq⟩ := hstart.move.stmts (Int.le_refl 1)
    (fun q s hs => meets_expressionWithin_block s.levels (Int.le_refl 1) q s hs) [.rbrace]
  have hends : EndsBlock (strike rs (tokenize source)) p.index p.block.2 := by
    have hlast := hstart.move.choose_spec.plain.getLast?
    rcases Form.stops_stmts forward_expression [.rbrace] hlast with hs | hs
    · exact hq.endsBlock_of_atEnd hs
    · exact hq.endsBlock_of_rbrace (List.mem_singleton.1 hs)
  refine ⟨rs, hq.reports, hq.among, hends, fun h => ?_⟩
  rwa [strike_of_not_blamesBrace h] at hends

/-- A block that ends before its own brace: the second opening brace stands where a
    statement should start, so the first closing one is taken for the end. -/
theorem block_ends_let :
    let source := "fn() { let { x } y }"
    let p := (ofString source).run [.advance, .advance, .advance]
    p.index = 3 ∧ p.block.2.index = 7 ∧ ∃ rs, p.block.2.reports.toList = p.reports.toList ++ rs ∧
      EndsBlock (strike rs (tokenize source)) 3 p.block.2 ∧
      ¬EndsBlock (tokenize source) 3 p.block.2 := by
  intro source p
  have hp : p.Among (tokenize source) :=
    among_run (among_ofString source) (getLast?_tokenize source) _
  have hindex : p.index = 3 := by decide +kernel
  have hend : p.block.2.index = 7 := by decide +kernel
  have hplain : p.Plain := (plain_ofString source).advance.advance.advance
  obtain ⟨rs, hrs, -, hends, -⟩ := block_ends hp hplain.dialect (by decide +kernel)
  refine ⟨hindex, hend, rs, hrs, hindex ▸ hends, ?_⟩
  rintro (⟨-, -, hbalanced, -⟩ | ⟨hc, -⟩)
  · rw [hend] at hbalanced
    exact absurd hbalanced (by unfold BalancedUpTo; decide +kernel)
  · exact absurd hc (by decide +kernel)

/-- A block may go on after its own brace: a return without a value passes the
    closing brace, which is blamed for not being an expression, and so are the
    tokens up to the next block then. -/
theorem not_endsBlock_return :
    ¬∀ (source : String) (p : Parser), p.Among (tokenize source) → p.dialect = .standard →
      p.current.kind = .lbrace → EndsBlock (tokenize source) p.index p.block.2 := by
  intro h
  let source := "if (a) { return } else { x }"
  let p := (ofString source).run [.advance, .advance, .advance, .advance]
  have hp : p.Among (tokenize source) :=
    among_run (among_ofString source) (getLast?_tokenize source) _
  have hindex : p.index = 4 := by decide +kernel
  have hend : p.block.2.index = 10 := by decide +kernel
  have hplain : p.Plain := (plain_ofString source).advance.advance.advance.advance
  have hends := h source p hp hplain.dialect (by decide +kernel)
  rw [hindex] at hends
  rcases hends with ⟨-, -, -, hfirst⟩ | ⟨hc, -⟩
  · exact hfirst 6 (by decide) (by rw [hend]; decide) (by unfold BalancedUpTo; decide +kernel)
  · exact absurd hc (by decide +kernel)

end Parser

end ScriptFront

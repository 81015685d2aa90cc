import ScriptFront.Proofs.Reading

/-!
# Completeness

What the grammar derives is read with the tree of its derivation, without a
report, as long as its nesting is at most `maxDepth`; if it is greater, a report
says so. The induction on a derivation puts together what is known of each form
(`Derives.isRead`).

An operand on the left is not read by a reader of its own, but by the one that
goes on with the operator. So for an expression the induction says more than
that it is read: reading from its first token on is the same as going on, after
its last token, from its tree (`ReadsExpr`). That holds at a precedence `q` for
an expression that a reader at `q` does not leave early (`Level.ReadAt`), before
tokens that do not take its last part away (`Level.Ends`).
-/

namespace ScriptFront

open ScriptFront.Action

/-! ### The induction -/

/-- Whether an expression of level `l` can end before the tokens `rest`. -/
def Level.Ends (l : Level) (rest : List Token) : Prop :=
  l.Holds rest ∧ ∀ t ∈ rest.head?, t.kind ≠ .kwElse

/-- What can end where weaker operators do can end where its own do. -/
theorem Level.Ends.mono {l : Level} {q : Precedence} {rest : List Token}
    (h : (operator q).Ends rest) (hl : l.AtLeast q) : l.Ends rest :=
  ⟨h.1.mono hl, h.2⟩

/-- What is read of an expression, up to the tokens `rest` after it. -/
def ReadsExpr (ts : List Token) (e : Expr) (l : Level) (n : Nat) : Prop :=
  ∀ (m : Nat) (q : Precedence) (p : Parser) (d : Nat) (rs : Array Report) (rest : List Token),
    l.ReadAt q → l.Ends rest → p.Before d rs (ts ++ rest) →
    (n ≤ m + 1 → ∃ r : Parser, r.Past d rs rest ∧
      Form.expression (expressionWithin m) q p = Form.extend (expressionWithin m) q e r) ∧
    (¬n ≤ m + 1 → (Form.expression (expressionWithin m) q p).2.TooDeep)

/-- What is read of the tokens `ts` that stand for a phrase. -/
def Phrase.IsRead (ts : List Token) (n : Nat) : Phrase → Prop
  | expr e l => ReadsExpr ts e l n
  | args es => ∀ (m : Nat) (p : Parser) (d : Nat) (rs : Array Report) (c : Token)
      (rest : List Token), c.kind = .rparen → p.Past d rs (ts ++ c :: rest) →
      Reads (n ≤ m) (parenthesised (Form.argument (expressionWithin m)) p) (some es)
        (·.Past d rs rest)
  | moreArgs es => ∀ (m : Nat) (p : Parser) (d : Nat) (rs : Array Report) (c : Token)
      (rest : List Token), c.kind = .rparen → p.Past d rs (ts ++ c :: rest) →
      Reads (n ≤ m) (repeated .comma (Form.argument (expressionWithin m)) p) (some es)
        (·.Past d rs (c :: rest))
  | block b => ∀ (m : Nat) (p : Parser) (d : Nat) (rs : Array Report) (rest : List Token),
      p.Before d rs (ts ++ rest) →
      Reads (n ≤ m) (total (Form.block (expressionWithin m)) p) (some b) (·.Past d rs rest)
  | stmt s => ∀ (m : Nat) (p : Parser) (d : Nat) (rs : Array Report) (rest : List Token),
      (Level.operator .lowest).Ends rest → p.Before d rs (ts ++ rest) →
      Reads (n ≤ m) (Form.stmt (expressionWithin m) p) (some s)
        (·.Past d rs (Form.afterSemicolon rest))
  | body ss => ∀ (m : Nat) (stop : List Kind) (p : Parser) (d : Nat) (rs : Array Report)
      (rest : List Token), stop ⊆ [.rbrace] → (∀ t ∈ rest.head?, t.kind ∈ stop) →
      p.Before d rs (ts ++ rest) →
      Reads (n ≤ m) (Form.stmts (expressionWithin m) stop p) ss (·.Before d rs rest)

variable {ts us rest : List Token} {e : Expr} {l : Level} {n m d : Nat} {q : Precedence}
  {p : Parser} {rs : Array Report}

/-- An expression that consists of one form is read if the form is. -/
theorem ReadsExpr.of_start
    (h : ∀ (m : Nat) (p : Parser) (d : Nat) (rs : Array Report) (rest : List Token),
      l.Ends rest → p.Before d rs (ts ++ rest) →
      Reads (n ≤ m + 1) (Form.start (expressionWithin m) p) (some e) (·.Past d rs rest)) :
    ReadsExpr ts e l n := by
  intro m q p d rs rest _ hr hp
  have hs := h m p d rs rest hr hp
  refine ⟨fun hn => ?_, fun hn => ?_⟩
  · obtain ⟨r, hr, hpast⟩ := hs.eq hn
    exact ⟨r, hpast, bind_of_eq hr _⟩
  · exact (hs.deep hn).later (later_bind _ p (Form.forward_extend (forward_expressionWithin m) q))

/-- An expression that goes on from `e` by a form is read if `e` and the form
    are. -/
theorem ReadsExpr.of_infixOf {o : Token} {f : InfixForm} {e' : Expr} {k : Precedence} {n' : Nat}
    (he : ReadsExpr ts e l n) (hl : l.AtLeast k)
    (hf : Dialect.standard.infixForm? o.kind = some (k, f)) (hk : k ≠ .prefixOp)
    (h : ∀ (m : Nat) (p : Parser) (d : Nat) (rs : Array Report) (rest : List Token),
      (Level.operator k).Ends rest → p.Before d rs (o :: us ++ rest) →
      Reads (n' ≤ m) (Form.infixOf (expressionWithin m) e k f p) (some e') (·.Past d rs rest)) :
    ReadsExpr (ts ++ o :: us) e' (.operator k) (max n (n' + 1)) := by
  intro m q p d rs rest hq hr hp
  have hqk := hq.lt hk
  have ho : o.kind.continues? = some k := by rw [← Dialect.standard_infixForm?_map, hf]; rfl
  have hm : max n (n' + 1) ≤ m + 1 ↔ n ≤ m + 1 ∧ n' ≤ m := by omega
  have hfwd := forward_expressionWithin m
  rw [List.append_assoc] at hp
  -- `e` is read up to the token `o`. That token takes nothing away from `e`, as
  -- the level of `e` is at least its precedence.
  obtain ⟨hfit, hdeep⟩ := he m q p d rs (o :: us ++ rest) (hl.readAt hqk)
    ⟨by
      rintro t ⟨⟩ k' hk'
      rwa [Option.some.inj (hk'.symm.trans ho)], by
      rintro t ⟨⟩ h
      simp [h, Dialect.standard] at hf⟩ hp
  rw [hm]
  by_cases hn : n ≤ m + 1
  -- Then the loop turns once, and goes on from `e'`.
  · obtain ⟨r, hpast, heq⟩ := hfit hn
    have hi := h m r.advance d rs rest hr hpast.advance
    rw [heq, Form.extend_of_some hfwd hpast.toProper (hpast.continuation?_eq_some hf hqk)]
    refine ⟨fun hn' => ?_, fun hn' => ?_⟩
    · obtain ⟨r', hr', hpast'⟩ := hi.eq hn'.2
      exact ⟨r', hpast', bind_of_eq hr' _⟩
    · have hd := hi.deep fun h' => hn' ⟨hn, h'⟩
      exact hd.later (later_bind _ _ (Form.forward_extend hfwd q))
  · exact ⟨fun hn' => absurd hn'.1 hn, fun _ => hdeep hn⟩

/-- An expression is read at a precedence that it is read at as a whole, up to
    tokens that do not continue it there. -/
theorem ReadsExpr.reads (he : ReadsExpr ts e l n) (hn : 0 < n) (hq : q ≤ .prefixOp)
    (hl : l.ReadAt q) (hr : (Level.operator q).Ends rest) (hp : p.Before d rs (ts ++ rest)) :
    Reads (n ≤ m) (expressionWithin m q p) (some e) (·.Past d rs rest) := by
  cases m with
  | zero => exact ⟨fun h => absurd h (by omega), fun _ => p.tooDeep_blameCurrent⟩
  | succ m =>
    -- After the last token of `e`, the loop has nothing to go on with.
    obtain ⟨hfit, hdeep⟩ := he m q p.enter (d + 1) rs rest hl (hr.mono (hl.atLeast hq)) hp.enter
    refine ⟨fun h => ?_, fun h => hdeep h⟩
    obtain ⟨r, hpast, heq⟩ := hfit h
    have hc := hpast.continuation?_eq_none hr.1
    rw [expressionWithin, nested, heq, Form.extend_of_none hc]
    exact ⟨rfl, hpast.leave⟩

/-- A closing parenthesis or a comma ends every expression. -/
theorem Level.ends_of_kind {t : Token} (ht : t.kind = .rparen ∨ t.kind = .comma) :
    l.Ends (t :: ts) := by
  rcases ht with ht | ht <;>
    exact ⟨holds_of_none (by simp [ht, Kind.continues?, Kind.operator?]), by simp [ht]⟩

/-- An argument can end before a comma, and before the closing parenthesis. -/
theorem Level.ends_moreArgs {c : Token} {es : List Expr} (h : Derives ts (.moreArgs es) n)
    (hc : c.kind = .rparen) : l.Ends (ts ++ c :: rest) := by
  cases ts with
  | nil => exact ends_of_kind (.inl hc)
  | cons t ts => exact ends_of_kind (.inr (h.head?_moreArgs t rfl))

theorem Level.readAt_lowest (h : Derives ts (.expr e l) n) : l.ReadAt .lowest := by
  cases h with
  | infixOp _ _ ho => exact .inr (Kind.lowest_lt_of_continues (Kind.continues?_of_operator ho))
  | prefixOp | call => exact .inr (by decide)
  | _ => trivial

/-- An expression that stands alone, up to a token that continues none. -/
theorem ReadsExpr.reads_lowest (he : ReadsExpr ts e l n) (h : Derives ts (.expr e l) n)
    (hr : (Level.operator .lowest).Ends rest) (hp : p.Before d rs (ts ++ rest)) :
    Reads (n ≤ m) (expressionWithin m .lowest p) (some e) (·.Past d rs rest) :=
  he.reads h.nesting_pos (by decide) (Level.readAt_lowest h) hr hp

/-! ### Expressions -/

variable {o c i s : Token} {vs : List Token} {e' : Expr} {l' : Level} {a b : Block} {n' k : Nat}

theorem ReadsExpr.group (ho : o.kind = .lparen) (h : Derives ts (.expr e l) n)
    (he : ReadsExpr ts e l n) (hc : c.kind = .rparen) :
    ReadsExpr (o :: ts ++ [c]) e .closed (n + 1) := by
  refine .of_start fun m p d rs rest _ hp => ?_
  rw [List.append_assoc] at hp
  have hr := he.reads_lowest h (m := m) (Level.ends_of_kind (.inl hc)) hp.advance
  exact (Form.reads_group hp ho hr hc).congr (by omega)

/-- The condition and the first block of a choice, with what is read of its
    second block. -/
theorem ReadsExpr.cond {b? : Option Block} (hi : i.kind = .kwIf) (ho : o.kind = .lparen)
    (h : Derives ts (.expr e l) n) (he : ReadsExpr ts e l n) (hc : c.kind = .rparen)
    (ha : Derives us (.block a) n') (hra : (Phrase.block a).IsRead us n')
    (hb : ∀ (m : Nat) (p : Parser) (d : Nat) (rs : Array Report) (rest : List Token),
      Level.closed.Ends rest → p.Past d rs (vs ++ rest) →
      Reads (k ≤ m) (Form.alternative (expressionWithin m) p) (some b?) (·.Past d rs rest)) :
    ReadsExpr (i :: o :: ts ++ c :: us ++ vs) (.cond i e a b?) .closed
      (max (max n n') k + 1) := by
  refine .of_start fun m p d rs rest hrest hp => ?_
  obtain ⟨t, us', rfl, ht⟩ := ha.opens_block
  have hp' : p.Before d rs (i :: o :: (ts ++ c :: t :: (us' ++ (vs ++ rest)))) := by
    simpa using hp
  have hr := he.reads_lowest h (m := m) (Level.ends_of_kind (.inl hc)) hp'.advance.advance
  exact (Form.reads_cond (forward_expressionWithin m) hp' hi ho hr hc ht
    (fun q hq => hra m q d rs (vs ++ rest) hq) fun q hq => hb m q d rs rest hrest hq).congr
    (by omega)

/-- A function is read from its parameters and its block. -/
theorem ReadsExpr.func {ps : List Ident} (hi : i.kind = .kwFn) (ho : o.kind = .lparen)
    (hps : Derives.Params ts ps) (hc : c.kind = .rparen) (hb : Derives us (.block b) n)
    (hrb : (Phrase.block b).IsRead us n) :
    ReadsExpr (i :: o :: ts ++ c :: us) (.func i ps b) .closed (n + 1) := by
  refine .of_start fun m p d rs rest _ hp => ?_
  obtain ⟨t, us', rfl, ht⟩ := hb.opens_block
  have hp' : p.Before d rs (i :: o :: (ts ++ c :: t :: (us' ++ rest))) := by simpa using hp
  exact (Form.reads_func hp' hi ho (Form.reads_params hps hc hp'.advance.past) ht
    fun q hq => hrb m q d rs rest hq).congr (by omega)

theorem ReadsExpr.prefixOp (ho : o.kind = .bang ∨ o.kind = .minus) (h : Derives ts (.expr e l) n)
    (he : ReadsExpr ts e l n) (hl : l.AtLeast .prefixOp) :
    ReadsExpr (o :: ts) (.prefixOp o o.literal e) (.operator .prefixOp) (n + 1) := by
  refine .of_start fun m p d rs rest hrest hp => ?_
  have hr := he.reads h.nesting_pos (m := m) (Nat.le_refl _) hl.readAt_prefixOp hrest hp.advance
  exact (Form.reads_prefixOp hp ho hr).congr (by omega)

/-- The operand on the left is read first, and the operator goes on from it. -/
theorem ReadsExpr.infixOp {r : Precedence} (he : ReadsExpr ts e l n) (hl : l.AtLeast r)
    (ho : o.kind.operator? = some r) (h' : Derives us (.expr e' l') n')
    (he' : ReadsExpr us e' l' n') (hl' : l'.Above r) :
    ReadsExpr (ts ++ o :: us) (.infixOp o o.literal e e') (.operator r) (max n (n' + 1)) := by
  have hr := Kind.operator_lt_prefixOp ho
  have hne : r ≠ .prefixOp := by
    rintro rfl
    exact absurd hr (by decide)
  refine he.of_infixOf hl (Dialect.standard_infixForm?_operator.2 ho) hne
    fun m p d rs rest hrest hp => ?_
  exact Form.reads_infixOp hp
    (he'.reads h'.nesting_pos (Nat.le_of_lt hr) hl'.readAt hrest hp.advance)

/-- What is called is read first, and the arguments go on from it. -/
theorem ReadsExpr.call {es : List Expr} (he : ReadsExpr ts e l n) (hl : l.AtLeast .call)
    (ho : o.kind = .lparen) (hes : (Phrase.args es).IsRead us n') (hc : c.kind = .rparen) :
    ReadsExpr (ts ++ o :: us ++ [c]) (.call o e es) (.operator .call) (max n (n' + 1)) := by
  rw [List.append_assoc, List.cons_append]
  refine he.of_infixOf hl (Dialect.standard_infixForm?_call.2 ⟨ho, rfl⟩)
    (by decide) fun m p d rs rest _ hp => ?_
  have hp' : p.Before d rs (o :: (us ++ c :: rest)) := by simpa using hp
  exact Form.reads_call hp' (hes m p d rs c rest hc hp'.past)

/-! ### Arguments -/

theorem Phrase.isRead_args {es : List Expr} (h : Derives ts (.expr e l) n)
    (he : ReadsExpr ts e l n) (hes : Derives us (.moreArgs es) n')
    (hres : (Phrase.moreArgs es).IsRead us n') :
    (Phrase.args (e :: es)).IsRead (ts ++ us) (max n n') := by
  intro m p d rs c rest hc hp
  obtain ⟨t, ts', rfl, ht⟩ := h.opens
  have hp' : p.Past d rs (t :: (ts' ++ (us ++ c :: rest))) := by simpa using hp
  have hr := he.reads_lowest h (m := m) (Level.ends_moreArgs hes hc) hp'.advance
  exact (Form.reads_parenthesised_cons (Form.forward_argument (forward_expressionWithin m)) hp'
    (by rintro hk; simp [hk, Kind.opens] at ht) hr
    (fun q hq => hres m q d rs c rest hc hq) hc).congr Nat.max_le.symm

theorem Phrase.isRead_moreArgs {es : List Expr} (hs : s.kind = .comma)
    (h : Derives ts (.expr e l) n) (he : ReadsExpr ts e l n) (hes : Derives us (.moreArgs es) n')
    (hres : (Phrase.moreArgs es).IsRead us n') :
    (Phrase.moreArgs (e :: es)).IsRead (s :: ts ++ us) (max n n') := by
  intro m p d rs c rest hc hp
  have hp' : p.Past d rs (s :: (ts ++ (us ++ c :: rest))) := by simpa using hp
  have hr := he.reads_lowest h (m := m) (Level.ends_moreArgs hes hc) hp'.advance_past.advance
  exact (Form.reads_repeated_cons (Form.forward_argument (forward_expressionWithin m)) hp' hs hr
    fun q hq => hres m q d rs c rest hc hq).congr Nat.max_le.symm

/-! ### Statements -/

/-- A block is read if its statements are. -/
theorem Phrase.isRead_block {ss : List Stmt} (hss : (Phrase.body ss).IsRead ts n)
    (hc : c.kind = .rbrace) :
    (Phrase.block (.mk o ss)).IsRead (o :: ts ++ [c]) n := by
  intro m p d rs rest hp
  have hp' : p.Before d rs (o :: (ts ++ c :: rest)) := by simpa using hp
  exact Form.reads_block hp' (hss m [.rbrace] _ d rs (c :: rest) (List.Subset.refl _)
    (by simp [hc]) hp'.advance)

theorem Phrase.isRead_noStmts : (Phrase.body []).IsRead [] 0 := by
  intro m stop p d rs rest _ hrest hp
  rw [List.nil_append] at hp
  have hs : p.atEnd ∨ p.current.kind ∈ stop := by
    cases rest with
    | nil => exact .inl (hp.atEnd_iff.2 rfl)
    | cons t ts => exact .inr (hp.current ▸ hrest t rfl)
  rw [Form.stmts_of_stop hs]
  exact (Reads.of_fit (P := (·.Before d rs rest)) rfl hp).congr (by simp)

/-- A statement and the statements after it. Between them stands what a
    statement may end before, and no more than a semicolon of it is passed. -/
theorem Phrase.isRead_stmts {st : Stmt} {ss : List Stmt} (h : Derives ts (.stmt st) n)
    (hst : (Phrase.stmt st).IsRead ts n) (hss : (Phrase.body ss).IsRead us n')
    (hvs : ∀ rest : List Token, (∀ t ∈ rest.head?, t.kind = .rbrace) →
      (Level.operator .lowest).Ends (vs ++ rest) ∧
        Form.afterSemicolon (vs ++ rest) = us ++ rest) :
    (Phrase.body (st :: ss)).IsRead (ts ++ vs) (max n n') := by
  intro m stop p d rs rest hstop hrest hp
  -- A statement does not start with what the body stops at.
  obtain ⟨t, ts', rfl, ht⟩ := h.starts
  obtain ⟨hends, hafter⟩ := hvs rest fun t ht => by simpa using hstop (hrest t ht)
  rw [List.append_assoc] at hp
  have hr := hst m p d rs (vs ++ rest) hends hp
  rw [hafter] at hr
  refine (Form.reads_stmts_cons (forward_expressionWithin m) hp (fun hk => ?_) hr
    fun q hq => hss m stop q d rs rest hstop hrest hq).congr Nat.max_le.symm
  have hk' : t.kind = .rbrace := by simpa using hstop hk
  simp [hk', Kind.starts, Kind.opens] at ht

/-- What stands between two statements without a semicolon. -/
theorem Derives.between {ss : List Stmt} (hss : Derives us (.body ss) n)
    (hus : ∀ t ∈ us.head?, t.kind.continues? = none)
    (hrest : us = [] → ∀ t ∈ rest.head?, t.kind = .rbrace) :
    (Level.operator .lowest).Ends (us ++ rest) ∧ Form.afterSemicolon (us ++ rest) = us ++ rest := by
  have hkind : ∀ t ∈ (us ++ rest).head?,
      t.kind ≠ .kwElse ∧ t.kind.continues? = none ∧ t.kind ≠ .semicolon := by
    intro t ht
    cases us with
    | nil => simp [hrest rfl t ht, Kind.continues?, Kind.operator?]
    | cons u us =>
      have hs := hss.starts_head? t ht
      refine ⟨?_, hus t ht, ?_⟩ <;> rintro hk <;> simp [hk, Kind.starts, Kind.opens] at hs
  exact ⟨⟨Level.holds_of_none fun t ht => (hkind t ht).2.1, fun t ht => (hkind t ht).1⟩,
    Form.afterSemicolon_of_ne fun t ht => (hkind t ht).2.2⟩

/-! ### All phrases -/

/-- By induction on the derivation, with one case for each rule of the grammar. -/
theorem Derives.isRead {ph : Phrase} (h : Derives ts ph n) : ph.IsRead ts n := by
  induction h with
  | ident ht =>
    exact .of_start fun m p d rs rest _ hp => (Form.reads_ident hp ht).congr (by simp)
  | int ht hv =>
    exact .of_start fun m p d rs rest _ hp => (Form.reads_int hp ht hv).congr (by simp)
  | kwTrue ht =>
    refine .of_start fun m p d rs rest _ hp => ?_
    have hr : Reads True (Form.start (expressionWithin m) p) _ (·.Past d rs rest) :=
      Form.reads_bool hp (.inl ht)
    rw [ht] at hr
    exact hr.congr (by simp)
  | kwFalse ht =>
    refine .of_start fun m p d rs rest _ hp => ?_
    have hr : Reads True (Form.start (expressionWithin m) p) _ (·.Past d rs rest) :=
      Form.reads_bool hp (.inr ht)
    rw [ht] at hr
    exact hr.congr (by simp)
  | group ho h hc ih => exact ReadsExpr.group ho h ih hc
  | cond hi ho h hc ha ih iha =>
    have hnone : ∀ (m : Nat) (p : Parser) (d : Nat) (rs : Array Report) (rest : List Token),
        Level.closed.Ends rest → p.Past d rs ([] ++ rest) →
        Reads (0 ≤ m) (Form.alternative (expressionWithin m) p) (some none) (·.Past d rs rest) := by
      intro m p d rs rest hrest hp
      exact (Form.reads_noAlternative hp hrest.2).congr (by simp)
    -- Without a second block the nesting of the rule is that of two parts only.
    simpa [Phrase.IsRead] using ReadsExpr.cond hi ho h ih hc ha iha hnone
  | condElse hi ho h hc ha hs hb ih iha ihb =>
    refine ReadsExpr.cond hi ho h ih hc ha iha fun m p d rs rest _ hp => ?_
    obtain ⟨t, us, rfl, ht⟩ := hb.opens_block
    exact Form.reads_alternative hp hs ht (ihb m _ d rs rest hp.advance_past.advance)
  | func hf ho hps hc hb ihb => exact ReadsExpr.func hf ho hps hc hb ihb
  | prefixOp ho h hl ih => exact ReadsExpr.prefixOp ho h ih hl
  | infixOp _ hl ho h' hl' ih ih' => exact ReadsExpr.infixOp ih hl ho h' ih' hl'
  | call _ hl ho _ hc ih ihes => exact ReadsExpr.call ih hl ho ihes hc
  | noArgs =>
    intro m p d rs c rest hc hp
    exact (Form.reads_parenthesised_nil hp hc).congr (by simp)
  | args h hes ih ihes => exact Phrase.isRead_args h ih hes ihes
  | noMoreArgs =>
    intro m p d rs c rest hc hp
    exact (Form.reads_repeated_nil hp (by simp [hc])).congr (by simp)
  | moreArgs hk h hes ih ihes => exact Phrase.isRead_moreArgs hk h ih hes ihes
  | block _ _ hc ih => exact Phrase.isRead_block ih hc
  | letStmt ht hx ha h ih =>
    intro m p d rs rest hrest hp
    exact Form.reads_letStmt hp ht hx ha (ih.reads_lowest h hrest hp.advance.advance.advance)
  | returnStmt ht h ih =>
    intro m p d rs rest hrest hp
    exact Form.reads_returnStmt hp ht (ih.reads_lowest h hrest hp.advance)
  | exprStmt h ih =>
    intro m p d rs rest hrest hp
    -- An expression opens with a token that starts no other statement.
    obtain ⟨t, us, ht, ho⟩ := h.opens
    obtain ⟨rfl, rfl⟩ := List.cons.inj ht
    exact Form.reads_exprStmt hp ho (ih.reads_lowest h hrest hp)
  | noStmts => exact Phrase.isRead_noStmts
  | stmtsSemicolon hs hk _ ihs ihss =>
    refine Phrase.isRead_stmts hs ihs ihss fun rest _ => ⟨?_, if_pos hk⟩
    exact ⟨Level.holds_of_none (by simp [hk, Kind.continues?, Kind.operator?]), by simp [hk]⟩
  | stmts hs hss hus ihs ihss =>
    exact Phrase.isRead_stmts hs ihs ihss fun rest hrest => hss.between hus fun _ => hrest

/-! ### Programs -/

/-- A program that the grammar derives is read, unless its nesting is too
    deep. -/
theorem Derives.reads_parse {source : String} {ss : List Stmt}
    (h : Derives (Token.tokenize source).dropLast (.body ss) n) :
    Reads (n ≤ maxDepth) (parse source) ⟨ss⟩ (·.diagnostics = []) := by
  have hp := Parser.before_ofString source
  have hr := h.isRead maxDepth [] (Parser.ofString source) 0 #[] [] (List.nil_subset _) (by simp)
    (by simpa using hp)
  rw [parse, Parser.program_eq hp.depth]
  exact ⟨fun hn => ⟨congrArg Program.mk (hr.fit hn).1, (hr.fit hn).2.diagnostics⟩, hr.deep⟩

theorem Parser.TooDeep.diagnostics (h : p.TooDeep) :
    ∃ g ∈ p.diagnostics, g.cause = .nestingTooDeep maxDepth := by
  obtain ⟨r, hr, hc⟩ := h
  exact ⟨r.diagnostic, List.mem_map_of_mem hr, hc⟩

/-- What the grammar derives with a nesting of at most `maxDepth` is read as
    the tree of its derivation, without a diagnostic; with a greater one, a
    diagnostic says that it is nested too deep. -/
theorem parse_of_derives {source : String} {ss : List Stmt}
    (h : Derives (Token.tokenize source).dropLast (.body ss) n) :
    (n ≤ maxDepth → (parse source).1 = ⟨ss⟩ ∧ (parse source).2.diagnostics = []) ∧
      (maxDepth < n →
        ∃ g ∈ (parse source).2.diagnostics, g.cause = .nestingTooDeep maxDepth) :=
  ⟨h.reads_parse.fit, fun hn => (h.reads_parse.deep (Nat.not_le_of_lt hn)).diagnostics⟩

/-- A choice on an operand, with a call in its block, is nested three deep. -/
theorem parse_of_derives_cond :
    Derives (Token.tokenize "if (!a) \x7b f(1) + b \x7d").dropLast
        (.body [.exprStmt ⟨.kwIf, "if"⟩ (some (.cond ⟨.kwIf, "if"⟩
          (.prefixOp ⟨.bang, "!"⟩ "!" (.ident ⟨⟨.ident, "a"⟩, "a"⟩))
          (.mk ⟨.lbrace, "\x7b"⟩ [.exprStmt ⟨.ident, "f"⟩ (some (.infixOp ⟨.plus, "+"⟩ "+"
            (.call ⟨.lparen, "("⟩ (.ident ⟨⟨.ident, "f"⟩, "f"⟩) [.int ⟨.int, "1"⟩ 1])
            (.ident ⟨⟨.ident, "b"⟩, "b"⟩)))]) none))]) 3 ∧
      3 ≤ maxDepth ∧ (parse "if (!a) \x7b f(1) + b \x7d").2.diagnostics = [] := by
  refine ⟨?h, by decide, ((parse_of_derives ?h).1 (by decide)).2⟩
  have ha : Derives [⟨.ident, "a"⟩] (.expr (.ident ⟨⟨.ident, "a"⟩, "a"⟩) .closed) 1 := .ident rfl
  have hb : Derives [⟨.ident, "b"⟩] (.expr (.ident ⟨⟨.ident, "b"⟩, "b"⟩) .closed) 1 := .ident rfl
  have hf : Derives [⟨.ident, "f"⟩] (.expr (.ident ⟨⟨.ident, "f"⟩, "f"⟩) .closed) 1 := .ident rfl
  have hone : Derives [⟨.int, "1"⟩] (.expr (.int ⟨.int, "1"⟩ 1) .closed) 1 :=
    .int (v := 1) rfl (by decide +kernel)
  have hcall := Derives.call (o := ⟨.lparen, "("⟩) (c := ⟨.rparen, ")"⟩) hf trivial rfl
    (.args hone .noMoreArgs) rfl
  have hsum := Derives.infixOp (o := ⟨.plus, "+"⟩) (p := .sum) hcall (by decide) rfl hb trivial
  have hblock := Derives.block (o := ⟨.lbrace, "\x7b"⟩) (c := ⟨.rbrace, "\x7d"⟩) rfl
    (.stmts (.exprStmt hsum) .noStmts (by simp)) rfl
  have hnot := Derives.prefixOp (o := ⟨.bang, "!"⟩) (.inl rfl) ha trivial
  have hcond := Derives.cond (i := ⟨.kwIf, "if"⟩) (o := ⟨.lparen, "("⟩) (c := ⟨.rparen, ")"⟩) rfl
    rfl hnot rfl hblock
  have hts : (Token.tokenize "if (!a) \x7b f(1) + b \x7d").dropLast =
      [⟨.kwIf, "if"⟩, ⟨.lparen, "("⟩, ⟨.bang, "!"⟩, ⟨.ident, "a"⟩, ⟨.rparen, ")"⟩,
        ⟨.lbrace, "\x7b"⟩, ⟨.ident, "f"⟩, ⟨.lparen, "("⟩, ⟨.int, "1"⟩, ⟨.rparen, ")"⟩,
        ⟨.plus, "+"⟩, ⟨.ident, "b"⟩, ⟨.rbrace, "\x7d"⟩] := by decide +kernel
  rw [hts]
  exact .stmts (.exprStmt hcond) .noStmts (by simp)

end ScriptFront

import ScriptFront.Proofs.Quiet

/-!
# Soundness

What is read without a report is what the grammar derives: the tokens that were
passed, in their order, are a derivation of the tree that was answered. A block
that is still open at the end of the text counts as closed there, so to the
tokens of the text one closing brace is added for each such block.

Each form is read so if the expressions in it are, by a reader that allows them
one level of nesting less. So the induction is on the levels (`sound_expressionWithin`),
and within a form on the tokens that are left.
-/

namespace ScriptFront

open ScriptFront.Action

/-- Closing braces, for the blocks that are open at the end of a text. -/
def closing (k : Nat) : List Token := List.replicate k ⟨.rbrace, "\x7d"⟩

@[simp] theorem closing_zero : closing 0 = [] := rfl

/-- The tokens `ts` begin with a phrase, nested at most `m` deep, and then go on
    with `rest`. The phrase lacks `k` closing braces. -/
def Begins (ts : List Token) (ph : Phrase) (m k : Nat) (rest : List Token) : Prop :=
  ∃ us n, ts = us ++ rest ∧ Derives (us ++ closing k) ph n ∧ n ≤ m

/-- A phrase that lacks no brace stands there as it is. -/
theorem begins_zero {ts : List Token} {ph : Phrase} {m : Nat} {rest : List Token} :
    Begins ts ph m 0 rest ↔ ∃ us n, ts = us ++ rest ∧ Derives us ph n ∧ n ≤ m := by
  simp [Begins, closing]

theorem Begins.length_le {ts : List Token} {ph : Phrase} {m k : Nat} {rest : List Token}
    (h : Begins ts ph m k rest) : rest.length ≤ ts.length := by
  obtain ⟨us, n, rfl, -⟩ := h
  simp

/-- A statement takes a token at least. -/
theorem Begins.length_lt {t : Token} {ts rest : List Token} {s : Stmt} {m k : Nat}
    (h : Begins (t :: ts) (.stmt s) m k rest) (hk : 0 < k → rest = []) :
    rest.length < (t :: ts).length := by
  rcases Nat.eq_zero_or_pos k with rfl | hpos
  · obtain ⟨us, n, hus, hd, -⟩ := begins_zero.1 h
    obtain ⟨u, us', rfl, -⟩ := hd.starts
    rw [hus, List.length_append, List.length_cons]
    omega
  · simp [hk hpos]

/-- What closes open blocks starts with a closing brace, if with anything. -/
theorem head?_closing {k : Nat} : ∀ t ∈ (closing k).head?, t.kind = .rbrace := by
  cases k with
  | zero => simp [closing]
  | succ k => simp [closing, List.replicate_succ]

/-- A statement and what follows it, with a semicolon between them or without. -/
theorem Begins.stmts {ts rest rest' : List Token} {s : Stmt} {ss : List Stmt} {m k k' : Nat}
    (h : Begins ts (.stmt s) m k rest) (hrest : (Level.operator .lowest).Holds rest)
    (hk : 0 < k → rest = []) (h' : Begins (Form.afterSemicolon rest) (.body ss) m k' rest') :
    Begins ts (.body (s :: ss)) m (k + k') rest' := by
  obtain ⟨vs, n', hvs, hd', hn'⟩ := h'
  rcases Nat.eq_zero_or_pos k with rfl | hpos
  · obtain ⟨us, n, rfl, hd, hn⟩ := begins_zero.1 h
    rw [Nat.zero_add]
    obtain heq | ⟨c, hc, heq⟩ := Form.eq_or_eq_cons_afterSemicolon rest
    · refine ⟨us ++ vs, max n n', by rw [List.append_assoc, ← hvs, heq], ?_, by omega⟩
      rw [List.append_assoc]
      refine .stmts hd hd' fun t ht => ?_
      rw [heq] at hvs
      cases vs with
      | nil => rw [head?_closing t ht]; rfl
      | cons v vs => exact hrest.continues?_eq_none t (by rw [hvs]; exact ht)
    · refine ⟨us ++ c :: vs, max n n', ?_, ?_, by omega⟩
      · rw [List.append_assoc, List.cons_append, ← hvs, ← heq]
      · simpa using Derives.stmtsSemicolon hd hc hd'
  -- A block is open at the end of the text, so that nothing follows.
  · obtain rfl := hk hpos
    obtain ⟨us, n, rfl, hd, hn⟩ := h
    obtain ⟨rfl, rfl⟩ := List.append_eq_nil_iff.1 hvs.symm
    cases k' with
    | zero =>
      have hss := hd.stmts hd' (by simp [closing])
      exact ⟨us, max n n', rfl, by simpa [closing] using hss, by omega⟩
    | succ k' => cases hd'.starts_head? _ rfl

/-- An expression at the precedence `q`, read up to a token that does not
    continue it. -/
def FoundExpr (m : Nat) (q : Precedence) (d : Nat) (rs : Array Report) (ts : List Token) (e : Expr)
    (r : Parser) : Prop :=
  ∃ l k rest, Begins ts (.expr e l) m k rest ∧ l.ReadAt q ∧ (Level.operator q).Holds rest ∧
    r.Stopped d rs k rest

/-- An expression that may go on. -/
def FoundPart (m : Nat) (q : Precedence) (d : Nat) (rs : Array Report) (ts : List Token) (e : Expr)
    (r : Parser) : Prop :=
  ∃ l k rest, Begins ts (.expr e l) m k rest ∧ l.ReadAt q ∧ l.Holds rest ∧ r.Stopped d rs k rest

/-- The first part of an expression, at whatever precedence. -/
def FoundStart (m d : Nat) (rs : Array Report) (ts : List Token) (e : Expr) (r : Parser) : Prop :=
  ∀ q, FoundPart m q d rs ts e r

/-- A block. -/
def FoundBlock (m d : Nat) (rs : Array Report) (ts : List Token) (b : Block) (r : Parser) : Prop :=
  ∃ k rest, Begins ts (.block b) m k rest ∧ r.Stopped d rs k rest

/-- The value of a statement, with the semicolon after it, if there is one. -/
def FoundValue (m d : Nat) (rs : Array Report) (ts : List Token) (v : Option Expr) (r : Parser) :
    Prop :=
  ∃ e l k rest, v = some e ∧ Begins ts (.expr e l) m k rest ∧
    (Level.operator .lowest).Holds rest ∧ (0 < k → rest = []) ∧
    r.Stopped d rs k (Form.afterSemicolon rest)

/-- A statement, with the semicolon after it, if there is one. -/
def FoundStmt (m d : Nat) (rs : Array Report) (ts : List Token) (s : Stmt) (r : Parser) : Prop :=
  ∃ k rest, Begins ts (.stmt s) m k rest ∧ (Level.operator .lowest).Holds rest ∧
    (0 < k → rest = []) ∧ r.Stopped d rs k (Form.afterSemicolon rest)

/-- What ends with a delimiter of its own may stand at any precedence. -/
theorem FoundStart.of_closed {m d k : Nat} {rs : Array Report} {ts rest : List Token} {e : Expr}
    {r : Parser} (h : Begins ts (.expr e .closed) m k rest) (hr : r.Stopped d rs k rest) :
    FoundStart m d rs ts e r :=
  fun _ => ⟨.closed, k, rest, h, trivial, Level.holds_closed, hr⟩

/-- A reader of expressions that are nested at most `m` deep reads only what the
    grammar derives, if it leaves no report. -/
def SoundReader (expr : Precedence → Action Expr) (m : Nat) : Prop :=
  ∀ (q : Precedence) (p : Parser) (d : Nat) (rs : Array Report) (ts : List Token),
    q ≤ .prefixOp → p.Before d rs ts → Ensures rs (expr q p) (FoundExpr m q d rs ts)

namespace Form

variable {expr : Precedence → Action Expr} {m : Nat} (h : ∀ q, Forward (expr q))
  (hs : SoundReader expr m) {p : Parser} {d k : Nat} {rs : Array Report} {o c i t : Token}
  {ts us vs rest : List Token} {e : Expr}

/-! ### Names, literals, groups and operators -/

theorem ensures_identifier (hp : p.Before d rs (t :: ts)) (ht : t.kind = .ident) :
    Ensures rs (identifier p) (FoundStart (m + 1) d rs (t :: ts)) := by
  rw [identifier, current_bind, hp.current]
  refine ensures_pure (.of_closed ⟨[t], 1, rfl, ?_, by omega⟩ hp.past.stopped)
  exact .ident ht

/-- An integer that is not reported has a value. -/
theorem ensures_integer (hp : p.Before d rs (t :: ts)) (ht : t.kind = .int) :
    Ensures rs (integer p) (FoundStart (m + 1) d rs (t :: ts)) := by
  rw [integer, current_bind, hp.current]
  rcases hv : Numeral.value? t.literal with _ | v
  · exact ensures_refuse hp.reports _
  · refine ensures_pure (.of_closed ⟨[t], 1, rfl, ?_, by omega⟩ hp.past.stopped)
    exact .int ht hv

theorem ensures_boolean (hp : p.Before d rs (t :: ts)) (ht : t.kind = .kwTrue ∨ t.kind = .kwFalse) :
    Ensures rs (boolean p) (FoundStart (m + 1) d rs (t :: ts)) := by
  rw [boolean, current_bind, hp.current]
  refine ensures_pure (.of_closed ⟨[t], 1, rfl, ?_, by omega⟩ hp.past.stopped)
  rcases ht with ht | ht <;> rw [ht]
  · exact .kwTrue ht
  · exact .kwFalse ht

include h hs

/-- A group is closed only if no block is open in it. -/
theorem ensures_group (hp : p.Before d rs (o :: ts)) (ho : o.kind = .lparen) :
    Ensures rs (group expr p) (FoundStart (m + 1) d rs (o :: ts)) := by
  rw [group, advance_bind]
  refine (hs .lowest _ d rs ts (by decide) hp.advance).bind hp.advance.reports ?_ (h _) fun _ =>
    forward_expect_pure _ _
  rintro e q ⟨l, k, rest, hb, -, -, hq⟩
  refine ensures_expect_bind hq (by decide) ?_ fun _ => forward_pure _
  rintro c rest r rfl rfl hc hr
  obtain ⟨us, n, rfl, hd, hn⟩ := begins_zero.1 hb
  refine ensures_pure (.of_closed (begins_zero.2 ⟨o :: us ++ [c], n + 1, by simp, ?_, by omega⟩)
    hr.past.stopped)
  exact .group ho hd hc

omit h in
/-- An operator in front takes an operand that binds as tightly. -/
theorem ensures_prefixOp (hp : p.Before d rs (o :: ts)) (ho : o.kind = .bang ∨ o.kind = .minus) :
    Ensures rs (prefixOp expr p) (FoundStart (m + 1) d rs (o :: ts)) := by
  rw [prefixOp, current_bind, hp.current, advance_bind]
  refine (hs .prefixOp _ d rs ts (Nat.le_refl _) hp.advance).bind_pure ?_
  rintro e q ⟨l, k, rest, ⟨us, n, rfl, hd, hn⟩, hl, hrest, hq⟩
  refine fun _ => ⟨.operator .prefixOp, k, rest, ⟨o :: us, n + 1, rfl, ?_, by omega⟩, .inl rfl,
    hrest, hq⟩
  exact .prefixOp ho hd (hl.atLeast (Nat.le_refl _))

/-! ### Statements -/

/-- A value that is read without a report is not missing. -/
theorem ensures_value (hp : p.Before d rs ts) :
    Ensures rs (value expr p) (FoundValue m d rs ts) := by
  have he := hs .lowest p d rs ts (by decide) hp
  have htotal : Ensures rs (total (expr .lowest) p)
      fun v r => ∃ e, v = some e ∧ FoundExpr m .lowest d rs ts e r := by
    refine ensures_total fun hr => ?_
    obtain ⟨e, q, hq, hfound⟩ := he hr
    rw [hq]
    exact ⟨e, rfl, hfound⟩
  refine htotal.bind hp.reports ?_ (forward_total (h _)) forward_valueEnd
  rintro v q ⟨e, rfl, l, k, rest, hb, -, hrest, hq⟩
  exact ensures_pure ⟨e, l, k, rest, rfl, hb, hrest, hq.eq_nil, hq.skipSemicolon⟩

theorem ensures_letStmt (hp : p.Before d rs (t :: ts)) (ht : t.kind = .kwLet) :
    Ensures rs (letStmt expr p) (FoundStmt m d rs (t :: ts)) := by
  rw [letStmt, current_bind, hp.current]
  refine ensures_expect_bind hp.past.stopped (by decide) ?_ fun _ => forward_letRest h t
  rintro i ts q - rfl hi hq
  rw [current_bind, hq.current]
  refine ensures_expect_bind hq.past.stopped (by decide) ?_ fun _ => forward_letValue h t i
  rintro o ts q' - rfl ho hq'
  rw [advance_bind]
  refine (ensures_value h hs hq'.advance).bind_pure ?_
  rintro _ r ⟨e, l, k, rest, rfl, ⟨us, n, rfl, hd, hn⟩, hrest, hk, hr⟩
  exact ⟨k, rest, ⟨t :: i :: o :: us, n, rfl, .letStmt ht hi ho hd, hn⟩, hrest, hk, hr⟩

theorem ensures_returnStmt (hp : p.Before d rs (t :: ts)) (ht : t.kind = .kwReturn) :
    Ensures rs (returnStmt expr p) (FoundStmt m d rs (t :: ts)) := by
  rw [returnStmt, current_bind, hp.current, advance_bind]
  refine (ensures_value h hs hp.advance).bind_pure ?_
  rintro _ r ⟨e, l, k, rest, rfl, ⟨us, n, rfl, hd, hn⟩, hrest, hk, hr⟩
  exact ⟨k, rest, ⟨t :: us, n, rfl, .returnStmt ht hd, hn⟩, hrest, hk, hr⟩

/-- An expression on its own is derived as a statement. -/
theorem ensures_exprStmt (hp : p.Before d rs (t :: ts)) :
    Ensures rs (exprStmt expr p) (FoundStmt m d rs (t :: ts)) := by
  rw [exprStmt, current_bind, hp.current]
  refine (ensures_value h hs hp).bind_pure ?_
  rintro _ r ⟨e, l, k, rest, rfl, ⟨us, n, hus, hd, hn⟩, hrest, hk, hr⟩
  refine ⟨k, rest, ⟨us, n, hus, ?_, hn⟩, hrest, hk, hr⟩
  -- An expression does not start with a missing brace.
  cases us with
  | nil =>
    obtain ⟨u, us, hu, ho⟩ := hd.opens
    cases k with
    | zero => cases hu
    | succ k =>
      obtain ⟨rfl, -⟩ := List.cons.inj hu
      cases ho
  | cons u us =>
    obtain ⟨rfl, rfl⟩ := List.cons.inj hus
    exact .exprStmt hd

theorem ensures_stmt (hp : p.Before d rs (t :: ts)) :
    Ensures rs (stmt expr p) (FoundStmt m d rs (t :: ts)) := by
  rw [stmt, hp.dialect, hp.current]
  rcases hf : Dialect.standard.stmtForm? t.kind with _ | f
  · rw [Dialect.stmtForm, hf]
    exact ensures_exprStmt h hs hp
  · rw [Dialect.stmtForm, hf]
    have ht := Dialect.of_standard_stmtForm? hf
    cases f with
    | letStmt => exact ensures_letStmt h hs hp ht
    | returnStmt => exact ensures_returnStmt h hs hp ht
    | exprStmt => exact ensures_exprStmt h hs hp

/-- By strong induction on the tokens that are left: a statement, and those
    after it. -/
theorem begins_stmts (stop : List Kind) : ∀ {p : Parser} {ts : List Token},
    p.Before d rs ts → (stmts expr stop p).2.reports = rs →
    ∃ k rest, Begins ts (.body (stmts expr stop p).1) m k rest ∧
      (stmts expr stop p).2.Before d rs rest ∧ (0 < k → rest = []) ∧
      ∀ t ∈ rest.head?, t.kind ∈ stop := by
  intro p ts
  induction hN : ts.length using Nat.strongRecOn generalizing p ts with
  | ind N ih =>
  intro hp hr
  subst hN
  by_cases hstop : ∀ t ∈ ts.head?, t.kind ∈ stop
  · have hs : p.atEnd ∨ p.current.kind ∈ stop := by
      cases ts with
      | nil => exact .inl (hp.atEnd_iff.2 rfl)
      | cons t ts => exact .inr (hp.current ▸ hstop t rfl)
    rw [stmts_of_stop hs]
    exact ⟨0, ts, ⟨[], 0, rfl, .noStmts, Nat.zero_le _⟩, hp, by simp, hstop⟩
  · obtain _ | ⟨t, ts⟩ := ts
    · exact absurd (by simp) hstop
    have ht : t.kind ∉ stop := by simpa using hstop
    have hseq := stmts_of_not_stop h hp.getLast? (by simp [hp.atEnd_iff]) (hp.current ▸ ht)
    rw [hseq] at hr ⊢
    -- No report is left after all statements, so none was after the first one.
    have hlater := (Parser.later_advance (stmt expr p).2).trans (later_stmts h stop _)
    obtain ⟨s, q, hq, k, rest, hb, hrest, hk, hstopped⟩ := ensures_stmt h hs hp
      (((forward_stmt h p).reports_eq hlater (hr.trans hp.reports.symm)).trans hp.reports)
    rw [hq] at hr ⊢
    have hlt : (afterSemicolon rest).length < (t :: ts).length :=
      Nat.lt_of_le_of_lt (length_afterSemicolon_le rest) (hb.length_lt hk)
    obtain ⟨k', rest', hb', hp', hk', hstop'⟩ := ih _ hlt rfl hstopped.advance hr
    -- If a block is open after the first statement, the text has ended there.
    refine ⟨k + k', rest', hb.stmts hrest hk hb', hp', fun hpos => ?_, hstop'⟩
    rcases Nat.eq_zero_or_pos k with rfl | hpos'
    · exact hk' (by simpa using hpos)
    · obtain rfl := hk hpos'
      exact List.eq_nil_of_length_eq_zero (Nat.le_zero.1 hb'.length_le)

/-! ### Blocks and what has them -/

/-- A block is derived, if need be with the closing brace that it lacks. -/
theorem ensures_block (hp : p.Before d rs (o :: ts)) (ho : o.kind = .lbrace) :
    Ensures rs (total (block expr) p) (FoundBlock m d rs (o :: ts)) := by
  refine ensures_total fun hr => ?_
  have hblock : block expr p = (.mk o (stmts expr [.rbrace] p.advance).1,
      (stmts expr [.rbrace] p.advance).2) := by
    rw [block, hp.current]
  rw [hblock] at hr ⊢
  obtain ⟨k, rest, hb, hrest, hk, hstop⟩ := begins_stmts h hs [.rbrace] hp.advance hr
  cases rest with
  | nil =>
    -- The text has ended in the block, which lacks its brace too.
    obtain ⟨us, n, rfl, hd, hn⟩ := hb
    refine ⟨k + 1, [], ⟨o :: us, n, rfl, ?_, hn⟩, .inr ⟨Nat.succ_pos k, rfl, hrest⟩⟩
    simpa [closing, List.replicate_succ'] using
      Derives.block (c := ⟨.rbrace, "\x7d"⟩) ho hd rfl
  | cons c rest =>
    obtain rfl : k = 0 := by
      refine Nat.eq_zero_of_not_pos fun hpos => ?_
      cases hk hpos
    obtain ⟨us, n, rfl, hd, hn⟩ := begins_zero.1 hb
    have hc : c.kind = .rbrace := by simpa using hstop c rfl
    exact ⟨0, rest, begins_zero.2 ⟨o :: us ++ [c], n, by simp, .block ho hd hc, hn⟩,
      hrest.past.stopped⟩

/-- The second block of a choice, if `else` follows the first one. -/
theorem ensures_alternative (hp : p.Stopped d rs k ts) :
    Ensures rs (alternative expr p) fun a r =>
      a = none ∧ r = p ∨
      k = 0 ∧ ∃ s us b, a = some b ∧ ts = s :: us ∧ s.kind = .kwElse ∧
        FoundBlock m d rs us b r := by
  rw [alternative, peekIs_bind]
  by_cases he : p.peek.kind = .kwElse
  · rw [if_pos (by simp [he]), advance_bind]
    obtain ⟨hk, s, us, rfl, rfl, hpast⟩ := hp.of_peek (by simp [he])
    refine ensures_expect_bind hpast.advance_past.stopped (by decide) ?_ fun _ =>
      forward_alternativeBlock h
    rintro o us q - rfl ho hq
    refine (ensures_block h hs hq ho).bind_pure ?_
    intro b r hb
    exact .inr ⟨hk, _, _, b, rfl, rfl, he, hb⟩
  · rw [if_neg (by simp [he])]
    exact ensures_pure (.inl ⟨rfl, rfl⟩)

/-- A choice is derived with one block or with two. -/
theorem ensures_cond (hp : p.Before d rs (i :: ts)) (hi : i.kind = .kwIf) :
    Ensures rs (cond expr p) (FoundStart (m + 1) d rs (i :: ts)) := by
  rw [cond, current_bind, hp.current]
  refine ensures_expect_bind hp.past.stopped (by decide) ?_ fun _ => forward_condRest h i
  rintro o ts p' - rfl ho hp'
  have hpe := hp'.advance
  rw [advance_bind]
  refine (hs .lowest _ d rs ts (by decide) hpe).bind hpe.reports ?_ (h _) (forward_condClose h i)
  rintro e q ⟨l, k, rest, he, -, -, hq⟩
  refine ensures_expect_bind hq (by decide) ?_ fun _ => forward_condBraces h i e
  -- As a parenthesis follows the condition, no block is open in it.
  rintro c rest q' rfl rfl hc hq'
  obtain ⟨us, n, rfl, hd, hn⟩ := begins_zero.1 he
  refine ensures_expect_bind hq'.past.stopped (by decide) ?_ fun _ => forward_condBlocks h i e
  rintro b rest q - rfl hb hq
  refine (ensures_block h hs hq hb).bind hq.reports ?_ (forward_block h) fun _ =>
    (forward_alternative h).bind_pure _
  rintro b r ⟨k, rest', hb', hr⟩
  refine (ensures_alternative h hs hr).bind_pure ?_
  rintro a r' (⟨rfl, rfl⟩ | ⟨rfl, s, ws, b', rfl, rfl, hs, k, rest', hb'', hr'⟩)
  · obtain ⟨vs, n', hvs, hd', hn'⟩ := hb'
    refine .of_closed ⟨i :: o :: us ++ c :: vs, max n n' + 1, ?_, ?_, ?_⟩ hr
    · simp [hvs]
    · simpa using Derives.cond hi ho hd hc hd'
    · omega
  -- As `else` follows the first block, it was closed.
  · obtain ⟨vs, n', hvs, hd', hn'⟩ := begins_zero.1 hb'
    obtain ⟨xs, n'', rfl, hd'', hn''⟩ := hb''
    refine .of_closed ⟨i :: o :: us ++ c :: vs ++ s :: xs, max (max n n') n'' + 1, ?_, ?_, ?_⟩ hr'
    · simp [hvs]
    · simpa using Derives.condElse hi ho hd hc hd' hs hd''
    · omega

/-! ### Functions -/

omit h hs in
theorem ensures_parameter (hp : p.Past d rs ts) :
    Ensures rs (parameter p) fun x r =>
      ∃ t us, ts = t :: us ∧ t.kind = .ident ∧ x = ⟨t, t.literal⟩ ∧ r.Past d rs us := by
  refine ensures_expect_bind hp.stopped (by decide) ?_ fun _ => (forward_ask _).bind_pure _
  rintro t us q - rfl ht hq
  rw [current_bind, hq.current]
  exact ensures_pure ⟨t, us, rfl, ht, rfl, hq.past⟩

omit h hs in
/-- By strong induction on the tokens that are left: a name after each comma. -/
theorem ensures_names : ∀ {p : Parser} {ts : List Token}, p.Past d rs ts →
    Ensures rs (repeated .comma parameter p) fun ps r =>
      ∃ us rest, ts = us ++ rest ∧ Derives.Names us ps ∧ r.Past d rs rest := by
  intro p ts
  induction hN : ts.length using Nat.strongRecOn generalizing p ts with
  | ind N ih =>
  intro hp
  subst hN
  by_cases hc : p.peek.kind = .comma
  · obtain ⟨-, c, us, rfl, rfl, hpc⟩ := hp.stopped.of_peek (by simp [hc])
    rw [repeated_of_eq forward_parameter hp.toProper (by decide) hc]
    refine (ensures_parameter hpc.advance_past).bind hpc.advance_past.reports ?_ forward_parameter
      fun _ => forward_parameter.repeated.bind_pure _
    rintro _ q ⟨t, us, rfl, ht, rfl, hq⟩
    have hlt : us.length < (p.peek :: t :: us).length := by simp only [List.length_cons]; omega
    refine (ih us.length hlt rfl hq).bind_pure ?_
    rintro ps r ⟨vs, rest, rfl, hps, hr⟩
    exact ⟨_ :: t :: vs, rest, rfl, .cons hc ht hps, hr⟩
  · rw [repeated_of_ne hc]
    exact ensures_pure ⟨[], ts, rfl, .nil, hp⟩

omit h hs in
/-- Parameters are derived up to the parenthesis that closes them. -/
theorem ensures_params (hp : p.Past d rs ts) :
    Ensures rs (parenthesised parameter p) fun ps r =>
      ∃ us c rest, ts = us ++ c :: rest ∧ Derives.Params us ps ∧ c.kind = .rparen ∧
        r.Past d rs rest := by
  rw [parenthesised, peekIs_bind]
  by_cases hc : p.peek.kind = .rparen
  · rw [if_pos (by simp [hc]), advance_bind]
    obtain ⟨-, c, us, rfl, rfl, hpc⟩ := hp.stopped.of_peek (by simp [hc])
    exact ensures_pure ⟨[], _, us, rfl, .nil, hc, hpc.advance_past⟩
  · rw [if_neg (by simp [hc])]
    refine (ensures_parameter hp).bind hp.reports ?_ forward_parameter forward_parameter.moreItems
    rintro _ q ⟨t, us, rfl, ht, rfl, hq⟩
    refine (ensures_names hq).bind hq.reports ?_ forward_parameter.repeated fun _ =>
      forward_expect_pure _ _
    rintro ps r ⟨vs, rest, rfl, hps, hr⟩
    refine ensures_expect_bind hr.stopped (by decide) ?_ fun _ => forward_pure _
    rintro c rest r' - rfl hc hr'
    exact ensures_pure ⟨t :: vs, c, rest, rfl, .cons ht hps, hc, hr'.past⟩

theorem ensures_func (hp : p.Before d rs (i :: ts)) (hi : i.kind = .kwFn) :
    Ensures rs (func expr p) (FoundStart (m + 1) d rs (i :: ts)) := by
  rw [func, current_bind, hp.current]
  refine ensures_expect_bind hp.past.stopped (by decide) ?_ fun _ => forward_funcRest h i
  rintro o ts p' - rfl ho hp'
  refine (ensures_params hp'.past).bind hp'.reports ?_ forward_parameter.parenthesised
    (forward_funcBraces h i)
  rintro ps q ⟨us, c, rest, rfl, hps, hc, hq⟩
  refine ensures_expect_bind hq.stopped (by decide) ?_ fun _ => (forward_block h).bind_pure _
  rintro b rest q' - rfl hb hq'
  refine (ensures_block h hs hq' hb).bind_pure ?_
  rintro b r ⟨k, rest', ⟨vs, n, hvs, hd, hn⟩, hr⟩
  refine .of_closed ⟨i :: o :: us ++ c :: vs, n + 1, ?_, ?_, ?_⟩ hr
  · simp [hvs]
  · simpa using Derives.func hi ho hps hc hd
  · omega

/-! ### Expressions -/

theorem ensures_start (hp : p.Before d rs ts) :
    Ensures rs (start expr p) (FoundStart (m + 1) d rs ts) := by
  rw [start, current_bind, ask_bind, hp.dialect]
  rcases hf : Dialect.standard.prefixForm? p.current.kind with _ | f
  · exact ensures_refuse hp.reports _
  have hk := Dialect.of_standard_prefixForm? hf
  cases ts with
  | nil =>
    rw [hp.current_nil] at hf
    cases hf
  | cons t ts =>
    rw [hp.current] at hk
    cases f with
    | identifier => exact ensures_identifier hp hk
    | integer => exact ensures_integer hp hk
    | boolean => exact ensures_boolean hp hk
    | operator => exact ensures_prefixOp hs hp hk
    | group => exact ensures_group h hs hp hk
    | cond => exact ensures_cond h hs hp hk
    | func => exact ensures_func h hs hp hk

/-- The arguments of a call that follow the first one. If a block in them is
    still open at the end of the text, no parenthesis closes them. -/
theorem ensures_moreArgs : ∀ {p : Parser} {k : Nat} {ts : List Token}, p.Stopped d rs k ts →
    Ensures rs (repeated .comma (argument expr) p) fun es r =>
      ∃ k' rest, r.Stopped d rs k' rest ∧
        (k' = 0 → k = 0 ∧ Begins ts (.moreArgs es) m 0 rest) := by
  intro p k ts
  induction hN : ts.length using Nat.strongRecOn generalizing p k ts with
  | ind N ih =>
  intro hp
  subst hN
  have hfwd := forward_argument h
  by_cases hc : p.peek.kind = .comma
  · obtain ⟨rfl, c, us, rfl, rfl, hpc⟩ := hp.of_peek (by simp [hc])
    have hpa := hpc.advance_past.advance
    rw [repeated_of_eq hfwd hp.toProper (by decide) hc]
    refine ((hs .lowest _ d rs us (by decide) hpa).bind (x := argument expr) (p := p.advance)
      hpc.advance.reports ?_ hfwd fun _ => hfwd.repeated.bind_pure _)
    rintro e q ⟨l, k, rest, he, -, -, hq⟩
    have hlt : rest.length < (p.peek :: us).length := Nat.lt_succ_of_le he.length_le
    refine (ih _ hlt rfl hq).bind_pure ?_
    rintro es r ⟨k', rest', hr, hes⟩
    refine ⟨k', rest', hr, fun hk' => ⟨rfl, ?_⟩⟩
    -- No block is open after the others, so none was after this one.
    obtain ⟨rfl, hrest⟩ := hes hk'
    obtain ⟨vs, n, rfl, hd, hn⟩ := begins_zero.1 he
    obtain ⟨ws, n', rfl, hd', hn'⟩ := begins_zero.1 hrest
    exact begins_zero.2 ⟨p.peek :: vs ++ ws, max n n', by simp, .moreArgs hc hd hd', by omega⟩
  · rw [repeated_of_ne hc]
    exact ensures_pure ⟨k, ts, hp, fun hk => ⟨hk, [], 0, rfl, .noMoreArgs, Nat.zero_le _⟩⟩

/-- The arguments of a call are derived up to the parenthesis that closes them,
    so no block is open in them. -/
theorem ensures_args (hp : p.Past d rs ts) :
    Ensures rs (parenthesised (argument expr) p) fun es r =>
      ∃ c rest, Begins ts (.args es) m 0 (c :: rest) ∧ c.kind = .rparen ∧ r.Past d rs rest := by
  have hfwd := forward_argument h
  rw [parenthesised, peekIs_bind]
  by_cases hc : p.peek.kind = .rparen
  · rw [if_pos (by simp [hc]), advance_bind]
    obtain ⟨-, c, us, rfl, rfl, hpc⟩ := hp.stopped.of_peek (by simp [hc])
    exact ensures_pure ⟨_, us, ⟨[], 0, rfl, .noArgs, Nat.zero_le _⟩, hc, hpc.advance_past⟩
  · rw [if_neg (by simp [hc])]
    refine ((hs .lowest _ d rs ts (by decide) hp.advance).bind (x := argument expr) (p := p)
      hp.reports ?_ hfwd hfwd.moreItems)
    rintro e q ⟨l, k, rest, he, -, -, hq⟩
    refine (ensures_moreArgs h hs hq).bind hq.reports ?_ hfwd.repeated fun _ =>
      forward_expect_pure _ _
    rintro es r ⟨k', rest', hr, hes⟩
    refine ensures_expect_bind hr (by decide) ?_ fun _ => forward_pure _
    -- The parenthesis was found, so no block is open in the arguments.
    rintro c rest' r' hk' rfl hc hr'
    obtain ⟨rfl, hrest⟩ := hes hk'
    obtain ⟨us, n, rfl, hd, hn⟩ := begins_zero.1 he
    obtain ⟨vs, n', rfl, hd', hn'⟩ := begins_zero.1 hrest
    refine ensures_pure ⟨c, rest', begins_zero.2 ⟨us ++ vs, max n n', by simp, ?_, by omega⟩, hc,
      hr'.past⟩
    exact .args hd hd'

/-- The part of an expression that an operator or a call adds. -/
theorem ensures_infixOf {l : Level} {q r : Precedence} {f : InfixForm}
    (he : Begins ts (.expr e l) (m + 1) 0 (t :: us)) (hl : l.Holds (t :: us))
    (hf : Dialect.standard.infixForm? t.kind = some (r, f)) (hr : q < r)
    (hp : p.Before d rs (t :: us)) :
    Ensures rs (infixOf expr e r f p) fun e' p' =>
      ∃ l k rest, Begins ts (.expr e' l) (m + 1) k rest ∧ l.ReadAt q ∧ l.Holds rest ∧
        p'.Stopped d rs k rest ∧ rest.length < (t :: us).length := by
  obtain ⟨vs, n, rfl, hd, hn⟩ := begins_zero.1 he
  -- The token takes nothing away from what stands before it.
  have hlr : l.AtLeast r := hl t rfl r (by rw [← Dialect.standard_infixForm?_map, hf]; rfl)
  cases f with
  | operator =>
    have ht := Dialect.standard_infixForm?_operator.1 hf
    have hr' := Kind.operator_lt_prefixOp ht
    rw [infixOf, infixOp, current_bind, hp.current, advance_bind]
    refine (hs r _ d rs us (Nat.le_of_lt hr') hp.advance).bind_pure ?_
    rintro e' p' ⟨l', k, rest, ⟨ws, n', rfl, hd', hn'⟩, hl', hrest, hp'⟩
    refine ⟨.operator r, k, rest, ⟨vs ++ t :: ws, max n (n' + 1), by simp, ?_, by omega⟩, .inr hr,
      hrest, hp', ?_⟩
    · simpa using Derives.infixOp hd hlr ht hd' (hl'.above hr')
    · simp only [List.length_cons, List.length_append]
      omega
  | call =>
    obtain ⟨ht, rfl⟩ := Dialect.standard_infixForm?_call.1 hf
    rw [infixOf, call, current_bind, hp.current]
    refine (ensures_args h hs hp.past).bind_pure ?_
    rintro es p' ⟨c, rest, hes, hc, hp'⟩
    obtain ⟨ws, n', rfl, hd', hn'⟩ := begins_zero.1 hes
    refine ⟨.operator .call, 0, rest, begins_zero.2 ⟨vs ++ t :: ws ++ [c],
      max n (n' + 1), by simp, ?_, by omega⟩, .inr hr, Level.holds_call, hp'.stopped, ?_⟩
    · exact .call hd hlr ht hd' hc
    · simp only [List.length_cons, List.length_append]
      omega

/-- By strong induction on the tokens that are left: what was read so far is the
    left part of what comes. -/
theorem ensures_extend {q : Precedence} : ∀ {l : Level} {k : Nat} {rest : List Token} {e : Expr}
    {p : Parser}, Begins ts (.expr e l) (m + 1) k rest → l.ReadAt q → l.Holds rest →
    p.Stopped d rs k rest → Ensures rs (extend expr q e p) (FoundExpr (m + 1) q d rs ts) := by
  intro l k rest e p
  induction hN : rest.length using Nat.strongRecOn generalizing l k rest e p with
  | ind N ih =>
  intro he hl hrest hp
  subst hN
  rcases hc : p.continuation? q with _ | ⟨r, f⟩
  · rw [extend_of_none hc]
    exact ensures_pure ⟨l, k, rest, he, hl, hp.holds hc, hp⟩
  · obtain ⟨rfl, t, us, rfl, hf, hr, hpt⟩ := hp.of_continuation? hc
    rw [extend_of_some h hp.toProper hc]
    refine (ensures_infixOf h hs he hrest hf hr hpt.advance).bind hpt.advance.reports ?_
      (forward_infixOf h _ _ _) (forward_extend h q)
    rintro e' p' ⟨l', k', rest', he', hl', hrest', hp', hlt⟩
    exact ih _ hlt rfl he' hl' hrest' hp'

/-- An expression is derived if those inside it are, within one level of nesting
    less. -/
theorem ensures_expression (q : Precedence) (hp : p.Before d rs ts) :
    Ensures rs (expression expr q p) (FoundExpr (m + 1) q d rs ts) := by
  refine (ensures_start h hs hp).bind hp.reports ?_ (forward_start h) (forward_extend h q)
  intro e p' he
  obtain ⟨l, k, rest, hb, hl, hrest, hp'⟩ := he q
  exact ensures_extend h hs hb hl hrest hp'

end Form

/-- By induction on the levels of nesting that are left: with none, the reader
    leaves a report. -/
theorem sound_expressionWithin : ∀ m, SoundReader (expressionWithin m) m
  | 0 => fun q p d rs ts _ hp => ensures_refuse hp.reports _
  | m + 1 => by
    intro q p d rs ts _ hp hr
    obtain ⟨e, p', hq, l, k, rest, hb, hl, hrest, hp'⟩ :=
      Form.ensures_expression (forward_expressionWithin m) (sound_expressionWithin m) q hp.enter hr
    exact ⟨e, p'.leave, by rw [expressionWithin, nested, hq], l, k, rest, hb, hl, hrest, hp'.leave⟩

/-! ### Programs -/

/-- A text that is read without a diagnostic, with a closing brace for each
    block that is open at its end, is derived by the grammar. -/
theorem exists_derives_of_parse {source : String} (h : (parse source).2.diagnostics = []) :
    ∃ k, ∃ n ≤ maxDepth, Derives ((Token.tokenize source).dropLast ++ closing k)
      (.body (parse source).1.statements) n := by
  have hp := Parser.before_ofString source
  have hr : (parse source).2.reports = #[] := by
    simpa [Parser.diagnostics] using h
  rw [parse, Parser.program_eq hp.depth] at hr ⊢
  obtain ⟨k, rest, ⟨us, n, hus, hd, hn⟩, -, -, hstop⟩ :=
    Form.begins_stmts (forward_expressionWithin maxDepth) (sound_expressionWithin maxDepth) [] hp hr
  obtain rfl : rest = [] := by
    cases rest with
    | nil => rfl
    | cons t ts => cases hstop t rfl
  rw [List.append_nil] at hus
  rw [hus]
  exact ⟨k, n, hn, hd⟩

theorem countKind_closing (k : Nat) :
    countKind .lbrace (closing k) = 0 ∧ countKind .rbrace (closing k) = k := by
  induction k with
  | zero => exact ⟨rfl, rfl⟩
  | succ k ih => simpa [closing, List.replicate_succ] using ih

theorem countKind_dropLast_tokenize {source : String} {k : Kind} (hk : k ≠ .eof) :
    countKind k (Token.tokenize source).dropLast = countKind k (Token.tokenize source) := by
  conv_rhs => rw [Token.tokenize_eq, countKind_append]
  simp [Token.eof, hk.symm]

/-- A text that is read without a diagnostic closes no more braces than it
    opens. Its tokens, with the closing braces that it lacks after them, are a
    derivation of the program that was read, nested at most `maxDepth` deep; in
    particular each of them is legal. -/
theorem derives_of_parse {source : String} (h : (parse source).2.diagnostics = []) :
    countKind .rbrace (Token.tokenize source) ≤ countKind .lbrace (Token.tokenize source) ∧
      (∃ n ≤ maxDepth, Derives ((Token.tokenize source).dropLast ++
        closing (countKind .lbrace (Token.tokenize source) -
          countKind .rbrace (Token.tokenize source)))
        (.body (parse source).1.statements) n) ∧
      ∀ t ∈ Token.tokenize source, t.legal = true := by
  obtain ⟨k, n, hn, hd⟩ := exists_derives_of_parse h
  have hbalanced := hd.balanced
  obtain ⟨hl, hr⟩ := countKind_closing k
  rw [countKind_append, countKind_append, hl, hr, countKind_dropLast_tokenize (by decide),
    countKind_dropLast_tokenize (by decide)] at hbalanced
  rw [Nat.add_zero] at hbalanced
  refine ⟨by omega, ⟨n, hn, ?_⟩, fun t ht => ?_⟩
  · rwa [hbalanced, Nat.add_sub_cancel_left]
  · rw [Token.tokenize_eq, List.mem_append, List.mem_singleton] at ht
    rcases ht with ht | rfl
    · exact List.all_eq_true.1 hd.legal t (List.mem_append_left _ ht)
    · rfl

/-- Two blocks, one in the other, that are still open at the end of the text. -/
theorem derives_of_parse_open_blocks :
    (parse "if (x) \x7b fn() \x7b 1 + 2;").2.diagnostics = [] ∧
      ∃ n ≤ maxDepth, Derives
        ((Token.tokenize "if (x) \x7b fn() \x7b 1 + 2;").dropLast ++ closing 2)
        (.body (parse "if (x) \x7b fn() \x7b 1 + 2;").1.statements) n := by
  have h : (parse "if (x) \x7b fn() \x7b 1 + 2;").2.diagnostics = [] := by decide +kernel
  have hk : countKind .lbrace (Token.tokenize "if (x) \x7b fn() \x7b 1 + 2;") -
      countKind .rbrace (Token.tokenize "if (x) \x7b fn() \x7b 1 + 2;") = 2 := by decide +kernel
  have hd := (derives_of_parse h).2.1
  rw [hk] at hd
  exact ⟨h, hd⟩

end ScriptFront

import ScriptFront.Proofs.Completeness
import ScriptFront.Proofs.ReportOrder
import ScriptFront.Proofs.Soundness
import ScriptFront.Proofs.Viable

/-!
# The first report

No report comes too late: the tokens before the one that is blamed first can
still become a program, so that nothing was wrong before it
(`first_report_viable`). Where something is blamed for being nested too deep,
this is another matter, as a deeper phrase may be the only one that goes on
from there.

What was read before the first report is known to be derived by the grammar
(`Action.Ensures`), and what the report is made in is begun. So each form that
is given up is viable up to the token that is blamed (`Blames`), by the place at
which it was given up; and as a form that has a report keeps it, whatever is
done afterwards, this goes through a form from part to part (`Blames.bind`).
-/

namespace ScriptFront

open ScriptFront.Action Phrase

/-- The number of tokens of the text that a parser reads. -/
def Parser.total (p : Parser) : Nat := p.index + p.ahead.length

/-- Of the reports besides `rs`, the first one is blamed on a token after tokens
    with `V`, among the tokens `ts` before the end of a text with `N` tokens; but
    only if it was made where a level of nesting was left. -/
def Blames (N : Nat) (rs : Array Report) (V : List Token → Prop) (ts : List Token) (p : Parser) :
    Prop :=
  ∀ r, p.reports[rs.size]? = some r → r.depth < maxDepth →
    ∃ us rest, ts = us ++ rest ∧ r.index + rest.length + 1 = N ∧ V us

section

variable {α β : Type} {p q : Parser} {N d k m : Nat} {rs : Array Report} {V V' : List Token → Prop}
  {ts us rest : List Token} {x : Action α} {f : α → Action β} {P : α → Parser → Prop}

theorem Parser.Later.total (h : p.Later q) (hN : p.total = N) : q.total = N := h.index.trans hN

theorem Parser.total_advance (hN : p.total = N) : p.advance.total = N := p.later_advance.total hN

/-- A text has as many tokens as were passed before the current one and are left
    from there, with the end of the text. -/
theorem Parser.Before.total (h : p.Before d rs ts) : p.total = p.index + ts.length + 1 := by
  rw [Parser.total, h.ahead, List.length_append]
  rfl

/-- Where no report was added there is no first one. -/
theorem blames_of_reports (h : p.reports = rs) : Blames N rs V ts p := by
  intro r hr
  rw [h, Array.getElem?_size] at hr
  cases hr

theorem Blames.congr (h : Blames N rs V ts p) (hr : q.reports = p.reports) :
    Blames N rs V ts q := by
  rw [Blames, hr]
  exact h

/-- A report that there is stays the first one. -/
theorem Blames.later (h : Blames N rs V ts p) (hp : rs.toList <+: p.reports.toList)
    (hne : p.reports ≠ rs) (hq : p.Later q) : Blames N rs V ts q := by
  have hlt : rs.size < p.reports.size := by
    refine Nat.lt_of_not_le fun hle => hne (Array.toList_inj.1 ?_)
    exact (hp.eq_of_length_le hle).symm
  intro r hr
  refine h r ?_
  obtain ⟨ss, hss⟩ := hq.reports
  rw [← Array.getElem?_toList, ← hss, List.getElem?_append_left hlt] at hr
  rwa [← Array.getElem?_toList]

/-- What holds of the tokens that were read in a part, with those read before
    it, is asked for of the whole. -/
theorem Blames.map (h : Blames N rs V us p) (pre : List Token) (hts : ts = pre ++ us)
    (hV : ∀ vs, vs <+: us → V vs → V' (pre ++ vs)) : Blames N rs V' ts p := by
  intro r hr hd
  obtain ⟨vs, rest, rfl, hN, hvs⟩ := h r hr hd
  exact ⟨pre ++ vs, rest, by rw [hts, List.append_assoc], hN, hV vs (List.prefix_append _ _) hvs⟩

/-- A report at the current token is blamed on it, after the tokens that were
    read. -/
theorem blames_blameCurrent (us : List Token) (hp : p.Before d rs rest) (hN : p.total = N)
    (cause : Cause) (hV : d < maxDepth → V us) :
    Blames N rs V (us ++ rest) (p.blameCurrent cause) := by
  intro r hr hd
  obtain rfl : ⟨⟨cause, p.current⟩, p.index, p.depth⟩ = r := by
    simpa [Parser.blameCurrent, Parser.record, ← hp.reports] using hr
  exact ⟨us, rest, rfl, hp.total.symm.trans hN, hV (hp.depth ▸ hd)⟩

theorem blames_blamePeek (hp : p.Stopped d rs k rest) (hN : p.total = N) (cause : Cause)
    (hV : d < maxDepth → V us) : Blames N rs V (us ++ rest) (p.blamePeek cause) := by
  intro r hr hd
  obtain rfl : ⟨⟨cause, p.peek⟩, p.advance.index, p.depth⟩ = r := by
    simpa [Parser.blamePeek, Parser.record, ← hp.reports] using hr
  have hdepth : p.depth = d := p.later_advance.depth.symm.trans hp.advance.depth
  exact ⟨us, rest, rfl, hp.advance.total.symm.trans (Parser.total_advance hN), hV (hdepth ▸ hd)⟩

/-- The first report is the one of the first action, or, if that has none, the
    one of the second. -/
theorem Blames.bind (hx : Blames N rs V ts (x p).2) (he : Ensures rs (x p) P) (hp : p.reports = rs)
    (hN : p.total = N) (hf : ∀ a q, P a q → q.total = N → Blames N rs V ts (f a q).2)
    (h : Forward x) (h' : ∀ a, Forward (f a)) : Blames N rs V ts ((x >>= f) p).2 := by
  by_cases hr : (x p).2.reports = rs
  · obtain ⟨a, q, hq, ha⟩ := he hr
    rw [bind_of_eq hq]
    exact hf a q ha ((h.later hq).total hN)
  -- Whether `f` is still run or not, the report of `x` is the first one.
  · exact hx.later (hp ▸ (h p).reports) hr (later_bind x p h')

/-- If the token that has to follow `us` does not, it is blamed. -/
theorem blames_expect {kind : Kind} (hp : p.Stopped d rs k rest) (hN : p.total = N)
    (hV : d < maxDepth → V us) : Blames N rs V (us ++ rest) (expect kind p).2 := by
  rw [expect]
  split
  · exact blames_of_reports hp.advance.reports
  · exact blames_blamePeek hp hN _ hV

/-- The same where that token is the last one of a form. -/
theorem blames_expect_pure {kind : Kind} (us : List Token) (hts : ts = us ++ rest)
    (hp : p.Stopped d rs k rest) (hN : p.total = N) (hV : d < maxDepth → V us) (g : Unit → β) :
    Blames N rs V ts ((expect kind >>= fun a => pure (g a)) p).2 := by
  rw [snd_bind_pure, hts]
  exact blames_expect hp hN hV

/-- If the token that has to follow `us` does, the rest of the form is done from
    there. -/
theorem blames_expect_bind {kind : Kind} {f : Unit → Action β} (us : List Token)
    (hts : ts = us ++ rest) (hp : p.Stopped d rs k rest) (hne : kind ≠ .eof) (hN : p.total = N)
    (hV : d < maxDepth → V us)
    (hf : ∀ t ws q, k = 0 → rest = t :: ws → t.kind = kind → q.Before d rs (t :: ws) →
      q.total = N → Blames N rs V ts (f () q).2)
    (h : ∀ a, Forward (f a)) : Blames N rs V ts ((expect kind >>= f) p).2 := by
  refine Blames.bind (hts ▸ blames_expect hp hN hV) (ensures_expect hp hne) hp.reports hN ?_
    (forward_expect kind) h
  rintro - q ⟨hzero, t, ws, hrest, ht, hq⟩ hNq
  exact hf t ws q hzero hrest ht hq hNq

/-- What lacks nothing but closing braces is viable. -/
theorem viable_of_closing {P : Phrase → Prop} {ph : Phrase} {n : Nat}
    (hd : Derives (us ++ closing k) ph n) (hP : P ph) (hn : n ≤ m) : Viable P m us := by
  refine ⟨closing k, ph, n, fun v hv => ?_, hd, hP, hn⟩
  obtain ⟨-, rfl⟩ := List.mem_replicate.1 hv
  exact .fixed rfl

section

variable {c : Token} {e : Expr} {l : Level} {q : Precedence} {n : Nat} {ws : List Token}
  (hd : Derives (us ++ closing k) (.expr e l) n) (hl : l.ReadAt q) (hn : n ≤ m)
  (hws : 0 < k → ws = []) (h : Viable IsMoreArgs m ws)

include hd hl hn hws h

/-- The first argument, and what was read of the others. If a block is open in
    it, nothing was. -/
theorem viable_args_of_closing : Viable IsArgs m (us ++ ws) := by
  rcases Nat.eq_zero_or_pos k with rfl | hpos
  · rw [closing_zero, List.append_nil] at hd
    exact h.args hd hn
  · rw [hws hpos, List.append_nil]
    exact (viable_of_closing hd ⟨e, l, rfl, hl⟩ hn).firstArg

/-- The argument after a comma, and what was read of those after it. -/
theorem viable_moreArgs_of_closing (hc : c.kind = .comma) :
    Viable IsMoreArgs m (c :: us ++ ws) := by
  rcases Nat.eq_zero_or_pos k with rfl | hpos
  · rw [closing_zero, List.append_nil] at hd
    exact h.moreArgs hc hd hn
  · rw [hws hpos, List.append_nil]
    exact (viable_of_closing hd ⟨e, l, rfl, hl⟩ hn).nextArg hc

end

end

/-- A reader of expressions that are nested at most `m` deep, as many levels as
    are left, gives up only where what it has read of the expression is viable. -/
def ViableReader (expr : Precedence → Action Expr) (m : Nat) : Prop :=
  ∀ (q : Precedence) (p : Parser) (N d : Nat) (rs : Array Report) (ts : List Token),
    d + m = maxDepth → q ≤ .prefixOp → p.Before d rs ts → p.total = N →
    Blames N rs (Viable (IsExprAt q) m) ts (expr q p).2

namespace Form

variable {expr : Precedence → Action Expr} {N m d k : Nat} (h : ∀ q, Forward (expr q))
  (hs : SoundReader expr m) (hv : ViableReader expr m) (hm : d + m = maxDepth) {p : Parser}
  {q : Precedence} {rs : Array Report} {o c i t : Token} {ts us vs rest : List Token} {e : Expr}

include hv hm

/-! ### Statements -/

/-- A value is blamed as the expression in it is. -/
theorem blames_value (hp : p.Before d rs ts) (hN : p.total = N) :
    Blames N rs (Viable (IsExprAt .lowest) m) ts (value expr p).2 := by
  refine (hv .lowest p N d rs ts hm (by decide) hp hN).congr ?_
  change (skipSemicolon (expr .lowest p).2).reports = _
  rw [skipSemicolon]
  split
  · exact Parser.reports_advance _
  · rfl

theorem blames_returnStmt (hp : p.Before d rs (t :: ts)) (ht : t.kind = .kwReturn)
    (hN : p.total = N) : Blames N rs (Viable IsStmt m) (t :: ts) (returnStmt expr p).2 := by
  rw [returnStmt, current_bind, hp.current, advance_bind, snd_bind_pure]
  exact (blames_value hv hm hp.advance (Parser.total_advance hN)).map [t] rfl
    fun us _ hus => hus.returnStmt ht

theorem blames_exprStmt (hp : p.Before d rs ts) (hN : p.total = N) :
    Blames N rs (Viable IsStmt m) ts (exprStmt expr p).2 := by
  rw [exprStmt, current_bind, snd_bind_pure]
  exact (blames_value hv hm hp hN).map [] rfl fun us _ hus => hus.exprStmt

include h

theorem blames_letStmt (hp : p.Before d rs (t :: ts)) (ht : t.kind = .kwLet) (hN : p.total = N) :
    Blames N rs (Viable IsStmt m) (t :: ts) (letStmt expr p).2 := by
  rw [letStmt, current_bind, hp.current]
  refine blames_expect_bind [t] rfl hp.past.stopped (by decide) hN
    (fun hd => viable_let ht (by omega)) ?_ fun _ => forward_letRest h t
  rintro i ts q - rfl hi hq hNq
  rw [current_bind, hq.current]
  refine blames_expect_bind [t, i] rfl hq.past.stopped (by decide) hNq
    (fun hd => viable_let_name ht hi (by omega)) ?_ fun _ => forward_letValue h t i
  rintro o ts q' - rfl ho hq' hNq'
  rw [advance_bind, snd_bind_pure]
  exact (blames_value hv hm hq'.advance (Parser.total_advance hNq')).map [t, i, o] rfl
    fun us _ hus => hus.letStmt ht hi ho

theorem blames_stmt (hp : p.Before d rs (t :: ts)) (hN : p.total = N) :
    Blames N rs (Viable IsStmt m) (t :: ts) (stmt expr p).2 := by
  rw [stmt, hp.dialect, hp.current]
  rcases hf : Dialect.standard.stmtForm? t.kind with _ | f
  · rw [Dialect.stmtForm, hf]
    exact blames_exprStmt hv hm hp hN
  · rw [Dialect.stmtForm, hf]
    have ht := Dialect.of_standard_stmtForm? hf
    cases f with
    | letStmt => exact blames_letStmt h hv hm hp ht hN
    | returnStmt => exact blames_returnStmt hv hm hp ht hN
    | exprStmt => exact ht.elim

include hs

/-- A row of statements goes on after a fault, but the first one is blamed where
    the row up to it is viable. -/
theorem blames_stmts (stop : List Kind) : ∀ {p : Parser} {ts : List Token},
    p.Before d rs ts → p.total = N →
    Blames N rs (Viable IsBody m) ts (stmts expr stop p).2 := by
  intro p ts
  induction hL : ts.length using Nat.strongRecOn generalizing p ts with
  | ind L ih =>
  intro hp hN
  subst hL
  by_cases hstop : p.atEnd ∨ p.current.kind ∈ stop
  · rw [stmts_of_stop hstop]
    exact blames_of_reports hp.reports
  rw [not_or] at hstop
  obtain _ | ⟨t, ts⟩ := ts
  · exact absurd (hp.atEnd_iff.2 rfl) hstop.1
  rw [stmts_of_not_stop h hp.getLast? hstop.1 hstop.2]
  have hblames : Blames N rs (Viable IsBody m) (t :: ts) (stmt expr p).2 :=
    (blames_stmt h hv hm hp hN).map [] rfl fun us _ hus => hus.firstStmt
  have hlater := (Parser.later_advance (stmt expr p).2).trans (later_stmts h stop _)
  by_cases hr : (stmt expr p).2.reports = rs
  case neg => exact hblames.later (hp.reports ▸ (forward_stmt h p).reports) hr hlater
  -- The first statement is read, and the others come after it.
  obtain ⟨s, q, hq, k, rest, hb, hrest, hk, hstopped⟩ := ensures_stmt h hs hp hr
  have hlt : (afterSemicolon rest).length < (t :: ts).length :=
    Nat.lt_of_le_of_lt (length_afterSemicolon_le rest) (hb.length_lt hk)
  have hNq := Parser.total_advance (((forward_stmt h).later hq).total hN)
  rw [hq]
  have hrec := ih _ hlt rfl hstopped.advance hNq
  rcases Nat.eq_zero_or_pos k with rfl | hpos
  -- If a block is open in it, the text has ended there.
  case inr =>
    obtain rfl := hk hpos
    rw [stmts_of_stop (.inl (hstopped.advance.atEnd_iff.2 rfl))]
    exact blames_of_reports hstopped.advance.reports
  obtain ⟨us, n, hus, hd, hn⟩ := begins_zero.1 hb
  obtain heq | ⟨c, hc, heq⟩ := eq_or_eq_cons_afterSemicolon rest
  · rw [heq] at hrec
    refine hrec.map us hus fun vs hvs hviable => hviable.stmts hd hn fun u hu => ?_
    obtain ⟨ws, rfl⟩ := hvs
    refine hrest.continues?_eq_none u ?_
    rw [List.head?_append, hu]
    rfl
  · refine hrec.map (us ++ [c]) ?_ fun vs _ hviable => hviable.stmtsSemicolon hd hn hc
    rw [← List.append_cons, ← heq, hus]

/-! ### Blocks and what has them -/

theorem blames_block (hp : p.Before d rs (o :: ts)) (ho : o.kind = .lbrace) (hN : p.total = N) :
    Blames N rs (Viable IsBlock m) (o :: ts) (total (block expr) p).2 :=
  (blames_stmts h hs hv hm [.rbrace] hp.advance (Parser.total_advance hN)).map [o] rfl
    fun _ _ hus => hus.block ho

/-- The second block of a choice, up to where it is given up. No block is open
    before it. -/
theorem blames_alternative (hp : p.Stopped d rs k ts) (hN : p.total = N) :
    Blames N rs (fun us => k = 0 ∧ ∃ s vs, us = s :: vs ∧ s.kind = .kwElse ∧ Viable IsBlock m vs)
      ts (alternative expr p).2 := by
  rw [alternative, peekIs_bind]
  by_cases he : p.peek.kind = .kwElse
  case neg =>
    rw [if_neg (by simp [he])]
    exact blames_of_reports hp.reports
  rw [if_pos (by simp [he]), advance_bind]
  obtain ⟨hk, s, _, rfl, rfl, hpast⟩ := hp.of_peek (by simp [he])
  refine blames_expect_bind [p.peek] rfl hpast.advance_past.stopped (by decide)
    (Parser.total_advance hN) (fun _ => ⟨hk, _, _, rfl, he, viable_block_nil⟩) ?_ fun _ =>
    forward_alternativeBlock h
  rintro o _ q - rfl ho hq hNq
  rw [snd_bind_pure]
  exact (blames_block h hs hv hm hq ho hNq).map [p.peek] rfl fun vs _ hvs =>
    ⟨hk, _, _, rfl, he, hvs⟩

/-- A choice may be given up at each of its parentheses and braces, in its
    condition and in its blocks. -/
theorem blames_cond (hp : p.Before d rs (i :: ts)) (hi : i.kind = .kwIf) (hN : p.total = N) :
    Blames N rs (Viable (IsExprAt q) (m + 1)) (i :: ts) (cond expr p).2 := by
  rw [cond, current_bind, hp.current]
  refine blames_expect_bind [i] rfl hp.past.stopped (by decide) hN
    (fun hd => viable_if hi (by omega)) ?_ fun _ => forward_condRest h i
  rintro o ts p' - rfl ho hp' hN'
  rw [advance_bind]
  have hpe := hp'.advance
  have hNe := Parser.total_advance hN'
  have hcondition : Blames N rs (Viable (IsExprAt q) (m + 1)) (i :: o :: ts)
      (expr .lowest p'.advance).2 :=
    (hv .lowest _ N d rs ts hm (by decide) hpe hNe).map [i, o] rfl fun us _ hus =>
      hus.condition hi ho
  refine hcondition.bind (hs .lowest _ d rs ts (by decide) hpe) hpe.reports hNe ?_ (h _)
    (forward_condClose h i)
  rintro e q' ⟨l, k, rest, ⟨us, n, rfl, hd, hn⟩, hl, -, hq⟩ hNq
  refine blames_expect_bind (i :: o :: us) rfl hq (by decide) hNq
    (fun _ => (viable_of_closing hd ⟨e, l, rfl, hl⟩ hn).condition hi ho) ?_ fun _ =>
    forward_condBraces h i e
  -- As a parenthesis follows the condition, no block is open in it.
  rintro c rest q' rfl rfl hc hq' hNq'
  rw [closing_zero, List.append_nil] at hd
  refine blames_expect_bind (i :: o :: us ++ [c]) (by simp) hq'.past.stopped (by decide) hNq'
    (fun _ => by simpa using viable_block_nil.consequence hi ho hd hn hc) ?_ fun _ =>
    forward_condBlocks h i e
  rintro b rest r - rfl hb hr hNr
  have hconsequence : Blames N rs (Viable (IsExprAt q) (m + 1)) (i :: (o :: us ++ c :: b :: rest))
      (total (block expr) r).2 :=
    (blames_block h hs hv hm hr hb hNr).map (i :: o :: us ++ [c]) (by simp) fun vs _ hvs =>
      hvs.consequence hi ho hd hn hc
  refine hconsequence.bind (ensures_block h hs hr hb) hr.reports hNr ?_ (forward_block h) fun _ =>
    (forward_alternative h).bind_pure _
  rintro _ r' ⟨k, rest', ⟨vs, n', hvs, hd', hn'⟩, hr'⟩ hNr'
  rw [snd_bind_pure]
  refine (blames_alternative h hs hv hm hr' hNr').map (i :: o :: us ++ c :: vs) (by simp [hvs]) ?_
  rintro _ - ⟨rfl, s, ws, rfl, hs, hws⟩
  rw [closing_zero, List.append_nil] at hd'
  exact hws.alternative hi ho hd hn hc hd' hn' hs

/-! ### Functions -/

omit h hs hv hm in
/-- Of a parameter nothing is read before it is blamed. -/
theorem blames_parameter (hp : p.Past d rs ts) (hN : p.total = N) :
    Blames N rs (· = []) ts (parameter p).2 :=
  blames_expect_bind [] rfl hp.stopped (by decide) hN (fun _ => rfl)
    (fun _ _ _ _ _ _ hq _ => blames_of_reports hq.reports) fun _ => (forward_ask _).bind_pure _

omit h hs hv hm in
/-- By strong induction on the tokens that are left: a name after each comma. -/
theorem blames_names : ∀ {p : Parser} {ts : List Token}, p.Past d rs ts → p.total = N →
    Blames N rs ViableNames ts (repeated .comma parameter p).2 := by
  intro p ts
  induction hL : ts.length using Nat.strongRecOn generalizing p ts with
  | ind L ih =>
  intro hp hN
  subst hL
  by_cases hc : p.peek.kind = .comma
  case neg =>
    rw [repeated_of_ne hc]
    exact blames_of_reports hp.reports
  obtain ⟨-, c, us, rfl, rfl, hpc⟩ := hp.stopped.of_peek (by simp [hc])
  have hpa := hpc.advance_past
  have hNa := Parser.total_advance hN
  rw [repeated_of_eq forward_parameter hp.toProper (by decide) hc]
  have hname : Blames N rs ViableNames (p.peek :: us) (parameter p.advance).2 := by
    refine (blames_parameter hpa hNa).map [p.peek] rfl ?_
    rintro _ - rfl
    exact viable_names_comma hc
  refine hname.bind (ensures_parameter hpa) hpa.reports hNa ?_ forward_parameter fun _ =>
    forward_parameter.repeated.bind_pure _
  rintro _ q ⟨t, us, rfl, ht, rfl, hq⟩ hNq
  have hlt : us.length < (p.peek :: t :: us).length := by simp only [List.length_cons]; omega
  rw [snd_bind_pure]
  exact (ih us.length hlt rfl hq hNq).map [p.peek, t] rfl fun vs _ hvs => hvs.cons hc ht

omit h hs hv hm in
theorem blames_params (hp : p.Past d rs ts) (hN : p.total = N) :
    Blames N rs ViableParams ts (parenthesised parameter p).2 := by
  rw [parenthesised, peekIs_bind]
  by_cases hc : p.peek.kind = .rparen
  · rw [if_pos (by simp [hc]), advance_bind]
    exact blames_of_reports hp.advance.reports
  rw [if_neg (by simp [hc])]
  have hname : Blames N rs ViableParams ts (parameter p).2 := by
    refine (blames_parameter hp hN).map [] rfl ?_
    rintro _ - rfl
    exact viable_params_nil
  refine hname.bind (ensures_parameter hp) hp.reports hN ?_ forward_parameter
    forward_parameter.moreItems
  rintro _ q ⟨t, us, rfl, ht, rfl, hq⟩ hNq
  have hnames : Blames N rs ViableParams (t :: us) (repeated .comma parameter q).2 :=
    (blames_names hq hNq).map [t] rfl fun vs _ hvs => hvs.params ht
  refine hnames.bind (ensures_names hq) hq.reports hNq ?_ forward_parameter.repeated fun _ =>
    forward_expect_pure _ _
  rintro ps r ⟨vs, rest, rfl, hps, hr⟩ hNr
  exact blames_expect_pure (t :: vs) rfl hr.stopped hNr
    (fun _ => ⟨[], _, by simp, by simpa using .cons ht hps⟩) _

/-- A function may be given up at its parameters, at its braces and in its block. -/
theorem blames_func (hp : p.Before d rs (i :: ts)) (hi : i.kind = .kwFn) (hN : p.total = N) :
    Blames N rs (Viable (IsExprAt q) (m + 1)) (i :: ts) (func expr p).2 := by
  rw [func, current_bind, hp.current]
  refine blames_expect_bind [i] rfl hp.past.stopped (by decide) hN (fun _ => viable_fn hi) ?_
    fun _ => forward_funcRest h i
  rintro o ts p' - rfl ho hp' hN'
  have hparams : Blames N rs (Viable (IsExprAt q) (m + 1)) (i :: o :: ts)
      (parenthesised parameter p').2 :=
    (blames_params hp'.past hN').map [i, o] rfl fun us _ hus => hus.func hi ho
  refine hparams.bind (ensures_params hp'.past) hp'.reports hN' ?_ forward_parameter.parenthesised
    (forward_funcBraces h i)
  rintro ps q' ⟨us, c, rest, rfl, hps, hc, hq⟩ hNq
  refine blames_expect_bind (i :: o :: us ++ [c]) (by simp) hq.stopped (by decide) hNq
    (fun _ => by simpa using viable_block_nil.func hi ho hps hc) ?_ fun _ =>
    (forward_block h).bind_pure _
  rintro b rest r - rfl hb hr hNr
  rw [snd_bind_pure]
  exact (blames_block h hs hv hm hr hb hNr).map (i :: o :: us ++ [c]) (by simp) fun vs _ hvs =>
    hvs.func hi ho hps hc

/-! ### Expressions -/

omit h hs hv hm in
/-- Where an expression is refused, any expression could still stand, if a level
    of nesting is left. -/
theorem blames_refuse {α : Type} (cause : Cause) (hp : p.Before d rs ts) (hN : p.total = N)
    (hm : d < maxDepth → 0 < m) :
    Blames N rs (Viable (IsExprAt q) m) ts ((refuse cause : Action α) p).2 :=
  blames_blameCurrent [] hp hN cause fun hd => viable_expr_nil (hm hd)

theorem blames_group (hp : p.Before d rs (o :: ts)) (ho : o.kind = .lparen) (hN : p.total = N) :
    Blames N rs (Viable (IsExprAt q) (m + 1)) (o :: ts) (group expr p).2 := by
  rw [group, advance_bind]
  have hpe := hp.advance
  have hNe := Parser.total_advance hN
  have hinner : Blames N rs (Viable (IsExprAt q) (m + 1)) (o :: ts) (expr .lowest p.advance).2 :=
    (hv .lowest _ N d rs ts hm (by decide) hpe hNe).map [o] rfl fun us _ hus => hus.group ho
  refine hinner.bind (hs .lowest _ d rs ts (by decide) hpe) hpe.reports hNe ?_ (h _) fun _ =>
    forward_expect_pure _ _
  rintro e q' ⟨l, k, rest, ⟨us, n, rfl, hd, hn⟩, hl, -, hq⟩ hNq
  exact blames_expect_pure (o :: us) rfl hq hNq
    (fun _ => (viable_of_closing hd ⟨e, l, rfl, hl⟩ hn).group ho) _

/-- The first part of an expression. -/
theorem blames_start (hp : p.Before d rs ts) (hN : p.total = N) :
    Blames N rs (Viable (IsExprAt q) (m + 1)) ts (start expr p).2 := by
  have hrefuse (cause : Cause) := blames_refuse (α := Expr) (m := m + 1) (q := q) cause hp hN
    fun _ => Nat.succ_pos m
  rw [start, current_bind, ask_bind, hp.dialect]
  rcases hf : Dialect.standard.prefixForm? p.current.kind with _ | f
  · exact hrefuse _
  have hk := Dialect.of_standard_prefixForm? hf
  cases ts with
  | nil =>
    rw [hp.current_nil] at hf
    cases hf
  | cons t ts =>
    rw [hp.current] at hk
    cases f with
    | identifier => exact blames_of_reports hp.reports
    | integer =>
      change Blames N rs _ _ (integer p).2
      rw [integer, current_bind]
      rcases Numeral.value? p.current.literal with _ | n
      · exact hrefuse _
      · exact blames_of_reports hp.reports
    | boolean => exact blames_of_reports hp.reports
    | operator =>
      change Blames N rs _ _ (prefixOp expr p).2
      rw [prefixOp, current_bind, advance_bind, snd_bind_pure]
      exact (hv .prefixOp _ N d rs ts hm (Nat.le_refl _) hp.advance (Parser.total_advance hN)).map
        [t] rfl fun us _ hus => hus.prefixOp hk
    | group => exact blames_group h hs hv hm hp hk hN
    | cond => exact blames_cond h hs hv hm hp hk hN
    | func => exact blames_func h hs hv hm hp hk hN

/-! ### Arguments -/

/-- The arguments that follow the first one, up to where one is given up. -/
theorem blames_moreArgs : ∀ {p : Parser} {k : Nat} {ts : List Token}, p.Stopped d rs k ts →
    p.total = N →
    Blames N rs (Viable IsMoreArgs m) ts (repeated .comma (argument expr) p).2 := by
  intro p k ts
  induction hL : ts.length using Nat.strongRecOn generalizing p k ts with
  | ind L ih =>
  intro hp hN
  subst hL
  have hfwd := forward_argument h
  by_cases hc : p.peek.kind = .comma
  case neg =>
    rw [repeated_of_ne hc]
    exact blames_of_reports hp.reports
  obtain ⟨rfl, c, us, rfl, rfl, hpc⟩ := hp.of_peek (by simp [hc])
  have hpa := hpc.advance_past.advance
  have hNa := Parser.total_advance hN
  rw [repeated_of_eq hfwd hp.toProper (by decide) hc]
  have harg := (hv .lowest _ N d rs us hm (by decide) hpa (Parser.total_advance hNa)).map
    [p.peek] rfl fun vs _ hvs => hvs.nextArg hc
  refine Blames.bind (x := argument expr) (p := p.advance) harg
    (hs .lowest _ d rs us (by decide) hpa) hpc.advance.reports hNa ?_ hfwd fun _ =>
    hfwd.repeated.bind_pure _
  rintro e q ⟨l, k, rest, he, hl, -, hq⟩ hNq
  have hlt : rest.length < (p.peek :: us).length := Nat.lt_succ_of_le he.length_le
  obtain ⟨vs, n, rfl, hd, hn⟩ := he
  rw [snd_bind_pure]
  -- If a block is open in this argument, the text has ended there.
  exact (ih _ hlt rfl hq hNq).map (p.peek :: vs) rfl fun ws hws hviable =>
    viable_moreArgs_of_closing hd hl hn (fun hk => List.prefix_nil.1 (hq.eq_nil hk ▸ hws))
      hviable hc

omit hv hm in
/-- What was read of the arguments is viable even if a block in them is open at
    the end of the text. -/
theorem ensures_viable_moreArgs : ∀ {p : Parser} {k : Nat} {ts : List Token},
    p.Stopped d rs k ts → Ensures rs (repeated .comma (argument expr) p) fun _ r =>
      ∃ us k rest, ts = us ++ rest ∧ Viable IsMoreArgs m us ∧ r.Stopped d rs k rest := by
  intro p k ts
  induction hL : ts.length using Nat.strongRecOn generalizing p k ts with
  | ind L ih =>
  intro hp
  subst hL
  have hfwd := forward_argument h
  by_cases hc : p.peek.kind = .comma
  case neg =>
    rw [repeated_of_ne hc]
    exact ensures_pure ⟨[], k, ts, rfl, viable_moreArgs_nil, hp⟩
  obtain ⟨rfl, c, us, rfl, rfl, hpc⟩ := hp.of_peek (by simp [hc])
  rw [repeated_of_eq hfwd hp.toProper (by decide) hc]
  refine ((hs .lowest _ d rs us (by decide) hpc.advance_past.advance).bind (x := argument expr)
    (p := p.advance) hpc.advance.reports ?_ hfwd fun _ => hfwd.repeated.bind_pure _)
  rintro e q ⟨l, k, rest, he, hl, -, hq⟩
  have hlt : rest.length < (p.peek :: us).length := Nat.lt_succ_of_le he.length_le
  obtain ⟨vs, n, rfl, hd, hn⟩ := he
  refine (ih _ hlt rfl hq).bind_pure ?_
  rintro es r ⟨ws, k', rest', rfl, hws, hr⟩
  exact ⟨p.peek :: vs ++ ws, k', rest', by simp, viable_moreArgs_of_closing hd hl hn
    (fun hk => (List.append_eq_nil_iff.1 (hq.eq_nil hk)).1) hws hc, hr⟩

theorem blames_args (hp : p.Past d rs ts) (hN : p.total = N) :
    Blames N rs (Viable IsArgs m) ts (parenthesised (argument expr) p).2 := by
  have hfwd := forward_argument h
  rw [parenthesised, peekIs_bind]
  by_cases hc : p.peek.kind = .rparen
  · rw [if_pos (by simp [hc]), advance_bind]
    exact blames_of_reports hp.advance.reports
  rw [if_neg (by simp [hc])]
  have harg := (hv .lowest _ N d rs ts hm (by decide) hp.advance (Parser.total_advance hN)).map
    [] rfl fun vs _ hvs => hvs.firstArg
  refine Blames.bind (x := argument expr) (p := p) harg (hs .lowest _ d rs ts (by decide)
    hp.advance) hp.reports hN ?_ hfwd hfwd.moreItems
  rintro e q ⟨l, k, rest, ⟨us, n, rfl, hd, hn⟩, hl, -, hq⟩ hNq
  -- Whatever is given up from here on is given up behind a first argument. If a
  -- block is still open in it, the text is at its end, and nothing comes behind.
  have hrest : ∀ vs, vs <+: rest → Viable IsMoreArgs m vs → Viable IsArgs m (us ++ vs) :=
    fun vs hvs hviable => viable_args_of_closing hd hl hn
      (fun hk => List.prefix_nil.1 (hq.eq_nil hk ▸ hvs)) hviable
  have hmore : Blames N rs (Viable IsArgs m) (us ++ rest)
      (repeated .comma (argument expr) q).2 :=
    (blames_moreArgs h hs hv hm hq hNq).map us rfl hrest
  refine hmore.bind (ensures_viable_moreArgs h hs hq) hq.reports hNq ?_ hfwd.repeated fun _ =>
    forward_expect_pure _ _
  rintro es r ⟨vs, k', rest', rfl, hvs, hr⟩ hNr
  exact blames_expect_pure (us ++ vs) (by simp) hr hNr
    (fun _ => hrest vs (List.prefix_append _ _) hvs) _

/-! ### Expressions that go on -/

theorem blames_infixOf {l : Level} {r : Precedence} {f : InfixForm}
    (he : Begins ts (.expr e l) (m + 1) 0 (t :: us)) (hl : l.Holds (t :: us))
    (hf : Dialect.standard.infixForm? t.kind = some (r, f)) (hr : q < r)
    (hp : p.Before d rs (t :: us)) (hN : p.total = N) :
    Blames N rs (Viable (IsExprAt q) (m + 1)) ts (infixOf expr e r f p).2 := by
  obtain ⟨vs, n, rfl, hd, hn⟩ := begins_zero.1 he
  have hlr : l.AtLeast r := hl t rfl r (by rw [← Dialect.standard_infixForm?_map, hf]; rfl)
  cases f with
  | operator =>
    have ht := Dialect.standard_infixForm?_operator.1 hf
    have hr' := Kind.operator_lt_prefixOp ht
    rw [infixOf, infixOp, current_bind, advance_bind, snd_bind_pure]
    exact (hv r _ N d rs us hm (Nat.le_of_lt hr') hp.advance (Parser.total_advance hN)).map
      (vs ++ [t]) (by simp) fun ws _ hws => hws.infixOp hd hn hlr ht hr
  | call =>
    obtain ⟨ht, rfl⟩ := Dialect.standard_infixForm?_call.1 hf
    rw [infixOf, call, current_bind, snd_bind_pure]
    exact (blames_args h hs hv hm hp.past hN).map (vs ++ [t]) (by simp) fun ws _ hws =>
      hws.call hd hn hlr ht hr

/-- By strong induction on the tokens that are left, as expressions are read. -/
theorem blames_extend : ∀ {l : Level} {k : Nat} {rest : List Token} {e : Expr} {p : Parser},
    Begins ts (.expr e l) (m + 1) k rest → l.ReadAt q → l.Holds rest → p.Stopped d rs k rest →
    p.total = N → Blames N rs (Viable (IsExprAt q) (m + 1)) ts (extend expr q e p).2 := by
  intro l k rest e p
  induction hL : rest.length using Nat.strongRecOn generalizing l k rest e p with
  | ind L ih =>
  intro he hl hrest hp hN
  subst hL
  rcases hc : p.continuation? q with _ | ⟨r, f⟩
  · rw [extend_of_none hc]
    exact blames_of_reports hp.reports
  obtain ⟨rfl, t, us, rfl, hf, hr, hpt⟩ := hp.of_continuation? hc
  have hpa := hpt.advance
  have hNa := Parser.total_advance hN
  rw [extend_of_some h hp.toProper hc]
  refine (blames_infixOf h hs hv hm he hrest hf hr hpa hNa).bind
    (ensures_infixOf h hs he hrest hf hr hpa) hpa.reports hNa ?_ (forward_infixOf h _ _ _)
    (forward_extend h q)
  rintro e' p' ⟨l', k', rest', he', hl', hrest', hp', hlt⟩ hN'
  exact ih _ hlt rfl he' hl' hrest' hp' hN'

/-- An expression is viable where it is given up if those inside it are, within
    one level of nesting less. -/
theorem blames_expression (q : Precedence) (hp : p.Before d rs ts) (hN : p.total = N) :
    Blames N rs (Viable (IsExprAt q) (m + 1)) ts (expression expr q p).2 := by
  refine (blames_start h hs hv hm hp hN).bind (ensures_start h hs hp) hp.reports hN ?_
    (forward_start h) (forward_extend h q)
  intro e p' he hN'
  obtain ⟨l, k, rest, hb, hl, hrest, hp'⟩ := he q
  exact blames_extend h hs hv hm hb hl hrest hp' hN'

end Form

/-- By induction on the levels of nesting that are left: with none, no report
    counts. -/
theorem viable_expressionWithin : ∀ m, ViableReader (expressionWithin m) m
  | 0 => fun q p N d rs ts hm _ hp hN =>
    Form.blames_refuse _ hp hN fun hd => absurd hm (Nat.ne_of_lt hd)
  | m + 1 => by
    intro q p N d rs ts hm _ hp hN
    exact (Form.blames_expression (forward_expressionWithin m) (sound_expressionWithin m)
      (viable_expressionWithin m) (by omega) q hp.enter hN).congr rfl

/-! ### Programs -/

/-- The token that is blamed first is the one at the place of the report; and
    if a level of nesting was left there, some text begins with the tokens before
    it and is read without a diagnostic. -/
theorem first_report_viable {source : String} {r : Report}
    (h : (parse source).2.reports[0]? = some r) (hdepth : r.depth < maxDepth) :
    (Token.tokenize source)[r.index]? = some r.diagnostic.token ∧
      ∃ other, (Token.tokenize source).take r.index <+: Token.tokenize other ∧
        (parse other).2.diagnostics = [] := by
  refine ⟨(placed_parse source).reports r (List.mem_of_getElem? (by simpa using h)), ?_⟩
  have hp := Parser.before_ofString source
  have hblames := Form.blames_stmts (forward_expressionWithin maxDepth)
    (sound_expressionWithin maxDepth) (viable_expressionWithin maxDepth) (Nat.zero_add _) [] hp rfl
  rw [parse, Parser.program_eq hp.depth] at h
  obtain ⟨us, rest, hts, hN, vs, _, n, hvs, hd, ⟨ss, rfl⟩, hn⟩ := hblames r h hdepth
  -- The report blames the token after `us`, and `vs` completes a program there.
  have hindex : r.index = us.length := by
    rw [hp.total, hts, List.length_append] at hN
    change r.index + rest.length + 1 = 0 + (us.length + rest.length) + 1 at hN
    omega
  have htake : (Token.tokenize source).take r.index = us := by
    rw [Token.tokenize_eq, hts, hindex, List.append_assoc, List.take_left]
  have hspelled : ∀ t ∈ us ++ vs, t.Spelled := by
    refine List.forall_mem_append.2 ⟨fun t ht => ?_, hvs⟩
    have hmem : t ∈ (Token.tokenize source).dropLast := hts ▸ List.mem_append_left rest ht
    exact Token.spelled_of_legal hmem (List.all_eq_true.1 hd.legal t (List.mem_append_left vs ht))
  have hother := Token.tokenize_spaced hspelled
  have hdrop : (Token.tokenize (Token.spaced (us ++ vs))).dropLast = us ++ vs := by
    rw [hother, List.dropLast_concat]
  refine ⟨Token.spaced (us ++ vs), ?_, ((hdrop ▸ hd).reads_parse.fit hn).2⟩
  rw [htake, hother, List.append_assoc]
  exact List.prefix_append _ _

/-- An operand is missing in a group, in a list of arguments. -/
theorem first_report_viable_operand :
    (parse "let y = f(1, (2 + );").2.reports[0]? =
        some ⟨⟨.noExpression .rparen, ⟨.rparen, ")"⟩⟩, 10, 4⟩ ∧
      4 < maxDepth ∧ (Token.tokenize "let y = f(1, (2 + );")[10]? = some ⟨.rparen, ")"⟩ ∧
      ∃ other, (Token.tokenize "let y = f(1, (2 + );").take 10 <+: Token.tokenize other ∧
        (parse other).2.diagnostics = [] := by
  have h : (parse "let y = f(1, (2 + );").2.reports[0]? =
      some ⟨⟨.noExpression .rparen, ⟨.rparen, ")"⟩⟩, 10, 4⟩ := by decide +kernel
  exact ⟨h, by decide, first_report_viable h (by decide)⟩

end ScriptFront

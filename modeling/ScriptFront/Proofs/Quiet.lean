import ScriptFront.Proofs.Window

/-!
# Quiet runs

What is known of an action that leaves no report. Such an action has not given
up, as giving up is always reported; so it has answered, and each of its parts
has, without a report as well (`Ensures.bind`).

Where blocks are still open at the end of the text, a parser that has read them
is at the end, and not at the last token before something. `Parser.Stopped`
covers both.
-/

namespace ScriptFront

namespace Parser

variable {p q r : Parser} {d k : Nat} {rs : Array Report} {t : Token} {ts rest : List Token}

/-! ### Reports -/

/-- If no report was added in the end, none was added on the way. -/
theorem Later.reports_eq (h : p.Later q) (h' : q.Later r) (hr : r.reports = p.reports) :
    q.reports = p.reports := by
  have hqr := h'.reports
  rw [hr] at hqr
  exact Array.toList_inj.1 (h.reports.eq_of_length_le hqr.length_le).symm

theorem reports_blameCurrent_ne (cause : Cause) : (p.blameCurrent cause).reports ≠ p.reports := by
  intro h
  simpa [blameCurrent, record] using congrArg Array.size h

theorem reports_blamePeek_ne (cause : Cause) : (p.blamePeek cause).reports ≠ p.reports := by
  intro h
  simpa [blamePeek, record] using congrArg Array.size h

/-! ### Where a parser stops -/

/-- The parser is at the last token before `rest`, or, after `k` blocks that are
    still open at the end of the text, at the end. -/
def Stopped (p : Parser) (d : Nat) (rs : Array Report) (k : Nat) (rest : List Token) : Prop :=
  k = 0 ∧ p.Past d rs rest ∨ 0 < k ∧ rest = [] ∧ p.Before d rs []

/-- A parser at the last token before `rest` has stopped there, with no block
    open. -/
theorem Past.stopped (h : p.Past d rs rest) : p.Stopped d rs 0 rest := .inl ⟨rfl, h⟩

theorem Stopped.reports (h : p.Stopped d rs k rest) : p.reports = rs := by
  obtain ⟨-, hp⟩ | ⟨-, -, hp⟩ := h
  · exact hp.reports
  · exact hp.reports

theorem Stopped.toProper (h : p.Stopped d rs k rest) : p.Proper := by
  obtain ⟨-, hp⟩ | ⟨-, -, hp⟩ := h
  · exact hp.toProper
  · exact hp.toProper

theorem Stopped.advance (h : p.Stopped d rs k rest) : p.advance.Before d rs rest := by
  obtain ⟨-, hp⟩ | ⟨-, rfl, hp⟩ := h
  · exact hp.advance
  · rwa [hp.advance_nil]

theorem Stopped.leave (h : p.Stopped (d + 1) rs k rest) : p.leave.Stopped d rs k rest := by
  obtain ⟨hk, hp⟩ | ⟨hk, hr, hp⟩ := h
  · exact .inl ⟨hk, hp.leave⟩
  · exact .inr ⟨hk, hr, hp.leave⟩

/-- Where a block is open, nothing is left. -/
theorem Stopped.eq_nil (h : p.Stopped d rs k rest) (hk : 0 < k) : rest = [] := by
  obtain ⟨rfl, -⟩ | ⟨-, hr, -⟩ := h
  · exact absurd hk (Nat.lt_irrefl 0)
  · exact hr

theorem Stopped.skipSemicolon (h : p.Stopped d rs k rest) :
    (Form.skipSemicolon p).Stopped d rs k (Form.afterSemicolon rest) := by
  obtain ⟨hk, hp⟩ | ⟨hk, rfl, hp⟩ := h
  · exact .inl ⟨hk, Form.past_skipSemicolon hp⟩
  · refine .inr ⟨hk, rfl, ?_⟩
    rwa [Form.skipSemicolon, hp.peek_nil, if_neg (by decide)]

/-- If a token follows, no block was open, and it is the first one that is
    left. -/
theorem Stopped.of_peek (h : p.Stopped d rs k rest) (hp : p.peek.kind ≠ .eof) :
    k = 0 ∧ ∃ t ts, rest = t :: ts ∧ p.peek = t ∧ p.Past d rs (t :: ts) := by
  obtain ⟨hk, hpast⟩ | ⟨-, -, hend⟩ := h
  · cases rest with
    | nil => exact absurd (by rw [hpast.peek_nil]; rfl) hp
    | cons t ts => exact ⟨hk, t, ts, rfl, hpast.peek, hpast⟩
  · exact absurd (by rw [hend.peek_nil]; rfl) hp

/-- What is left does not continue an expression at `r`, if no continuation was
    found. -/
theorem Stopped.holds {r : Precedence} (h : p.Stopped d rs k rest)
    (hc : p.continuation? r = none) : (Level.operator r).Holds rest := by
  obtain ⟨-, hp⟩ | ⟨-, rfl, -⟩ := h
  -- A token with a precedence above `r` would have been a continuation.
  · rintro t ht r' hr'
    obtain ⟨ts, rfl⟩ := List.head?_eq_some_iff.1 ht
    rw [← Dialect.standard_infixForm?_map, Option.map_eq_some_iff] at hr'
    obtain ⟨⟨r', f⟩, hf, rfl⟩ := hr'
    refine Nat.le_of_not_lt fun hlt => ?_
    rw [hp.continuation?_eq_some hf hlt] at hc
    cases hc
  · intro t ht
    cases ht

/-- If the next token continues an expression, no block was open. -/
theorem Stopped.of_continuation? {r r' : Precedence} {f : InfixForm} (h : p.Stopped d rs k rest)
    (hc : p.continuation? r = some (r', f)) :
    k = 0 ∧ ∃ t ts, rest = t :: ts ∧ Dialect.standard.infixForm? t.kind = some (r', f) ∧
      r < r' ∧ p.Past d rs (t :: ts) := by
  obtain ⟨hk, t, ts, rfl, hpeek, hpast⟩ := h.of_peek (Form.peek_ne_eof h.toProper hc)
  obtain ⟨u, hu⟩ := id hpast
  rw [continuation?, hu.dialect, hpeek] at hc
  split at hc
  · cases hc
  · obtain ⟨hf, hr⟩ := Option.filter_eq_some_iff.1 hc
    exact ⟨hk, t, ts, rfl, hf, by simpa using hr, hpast⟩

end Parser

namespace Action

variable {α β : Type} {x : Action α} {f : α → Action β} {p : Parser} {rs : Array Report}
  {P : α → Parser → Prop} {Q : β → Parser → Prop}

/-- If an action has left no report besides `rs`, it has answered, with `P`. -/
def Ensures (rs : Array Report) (r : Option α × Parser) (P : α → Parser → Prop) : Prop :=
  r.2.reports = rs → ∃ a q, r = (some a, q) ∧ P a q

/-- One action after the other: as reports stay, none of the first one is left
    either. -/
theorem Ensures.bind (hx : Ensures rs (x p) P) (hp : p.reports = rs)
    (hf : ∀ a q, P a q → Ensures rs (f a q) Q) (h : Forward x) (h' : ∀ a, Forward (f a)) :
    Ensures rs ((x >>= f) p) Q := by
  intro hr
  subst hp
  -- A report of `x` would be there after `f` as well, so `x` has left none.
  obtain ⟨a, q, hq, ha⟩ := hx ((h p).reports_eq (later_bind x p h') hr)
  rw [bind_of_eq hq] at hr ⊢
  exact hf a q ha hr

/-- The last step of an action makes its value of what was answered before. -/
theorem Ensures.bind_pure {g : α → β} (hx : Ensures rs (x p) P)
    (hQ : ∀ a q, P a q → Q (g a) q) : Ensures rs ((x >>= fun a => pure (g a)) p) Q := by
  intro hr
  rw [snd_bind_pure] at hr
  obtain ⟨a, q, hq, ha⟩ := hx hr
  rw [bind_of_eq hq]
  exact ⟨g a, q, rfl, hQ a q ha⟩

theorem ensures_pure {a : α} (h : P a p) : Ensures rs ((pure a : Action α) p) P :=
  fun _ => ⟨a, p, rfl, h⟩

/-- Giving up leaves a report, so nothing is claimed of it. -/
theorem ensures_refuse (hp : p.reports = rs) (cause : Cause) :
    Ensures rs ((refuse cause : Action α) p) P :=
  fun h => absurd (h.trans hp.symm) (Parser.reports_blameCurrent_ne cause)

/-- What cannot fail has answered. -/
theorem ensures_total {g : Parser → α × Parser} (h : (g p).2.reports = rs → P (g p).1 (g p).2) :
    Ensures rs (total g p) P :=
  fun hr => ⟨_, _, rfl, h hr⟩

/-- If the token after those that were read has to be of a kind, it is; so no
    block was open before it. -/
theorem ensures_expect {kind : Kind} {d k : Nat} {ts : List Token} (hp : p.Stopped d rs k ts)
    (hne : kind ≠ .eof) : Ensures rs (expect kind p) fun _ q =>
      k = 0 ∧ ∃ t us, ts = t :: us ∧ t.kind = kind ∧ q.Before d rs (t :: us) := by
  intro h
  rw [expect] at h ⊢
  split at h
  next hk =>
    obtain ⟨hzero, t, us, rfl, rfl, hpast⟩ := hp.of_peek (hk ▸ hne)
    exact ⟨(), p.advance, if_pos hk, hzero, _, us, rfl, hk, hpast.advance⟩
  next => exact absurd (h.trans hp.reports.symm) (Parser.reports_blamePeek_ne _)

/-- The rest of an action after a token that has to follow, from that token on. -/
theorem ensures_expect_bind {kind : Kind} {d k : Nat} {ts : List Token} {f : Unit → Action β}
    (hp : p.Stopped d rs k ts) (hne : kind ≠ .eof)
    (hf : ∀ t us q, k = 0 → ts = t :: us → t.kind = kind → q.Before d rs (t :: us) →
      Ensures rs (f () q) Q) (h : ∀ a, Forward (f a)) : Ensures rs ((expect kind >>= f) p) Q := by
  refine (ensures_expect hp hne).bind hp.reports ?_ (forward_expect kind) h
  rintro - q ⟨hzero, t, us, hts, ht, hq⟩
  exact hf t us q hzero hts ht hq

end Action

end ScriptFront

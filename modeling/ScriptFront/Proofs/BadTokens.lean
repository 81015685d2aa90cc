import ScriptFront.Proofs.Recovery

/-!
# Bad tokens

A character that belongs to nothing and an integer that is too large are tokens,
but no program holds them (`Token.bad`). Each of them is reported, once, and in
the order of the text, whatever else is wrong there
(`bad_tokens_reported`): recovery from a fault neither jumps over such a token
nor comes to one twice.

What is conserved is the list of the bad tokens that were reported, followed by
those that are still ahead. The current token counts as ahead until it is looked
at (`Parser.Unseen`), and not any more afterwards (`Parser.Seen`), whether
something was given up at it or not.
-/

namespace ScriptFront

open ScriptFront.Action

/-- Whether a token is a part of no program: it is a character that belongs to
    nothing, or an integer above the limit. -/
def Token.bad (t : Token) : Bool :=
  t.kind == .illegal || t.kind == .int && decide (Numeral.limit < Numeral.ofDigits t.literal.toList)

theorem Token.bad_of_legal {t : Token} (h : t.legal = true) : t.bad = false := by
  rw [Token.legal, Bool.and_eq_true, bne_iff_ne, Bool.or_eq_true, bne_iff_ne] at h
  obtain ⟨hk, hint | hv⟩ := h
  · simp [Token.bad, hk, hint]
  · obtain ⟨n, hn⟩ := Option.isSome_iff_exists.1 hv
    obtain ⟨-, rfl, hle⟩ := Numeral.value?_eq_some hn
    simp [Token.bad, hk, hle]

/-- Whether a diagnostic is about a bad token itself, and not about another one
    that it stands in the place of. -/
def Diagnostic.onBad (g : Diagnostic) : Bool := !g.cause.isUnexpected && g.token.bad

namespace Parser

/-- The bad tokens that were reported, in order. -/
def noted (p : Parser) : List Token :=
  (p.diagnostics.filter Diagnostic.onBad).map Diagnostic.token

variable {p : Parser} {ts : List Token}

/-- A report that another token was expected notes no bad token. -/
theorem noted_record_of_unexpected {r : Report} (h : r.diagnostic.cause.isUnexpected = true) :
    (p.record r).noted = p.noted := by
  simp [noted, diagnostics, record, Diagnostic.onBad, h]

/-- Any other report notes the token that it blames, if that is bad. -/
theorem noted_record {r : Report} (h : r.diagnostic.cause.isUnexpected = false) :
    (p.record r).noted = p.noted ++ [r.diagnostic.token].filter Token.bad := by
  cases hb : r.diagnostic.token.bad <;>
    simp [noted, diagnostics, record, Diagnostic.onBad, h, hb]

theorem noted_advance : p.advance.noted = p.noted := by
  rw [advance]
  split <;> rfl

/-- The bad tokens `ts` are those that were reported and those from the current
    one on. -/
def Unseen (ts : List Token) (p : Parser) : Prop :=
  p.Plain ∧ p.noted ++ p.ahead.filter Token.bad = ts

/-- The bad tokens `ts` are those that were reported and those after the current
    one. -/
def Seen (ts : List Token) (p : Parser) : Prop :=
  p.Plain ∧ p.noted ++ p.ahead.tail.filter Token.bad = ts

/-- A legal token is looked at without a report, as it is not bad. -/
theorem Unseen.seen (h : p.Unseen ts) (hp : p.current.legal = true) : p.Seen ts := by
  obtain ⟨hplain, rfl⟩ := h
  refine ⟨hplain, ?_⟩
  conv_rhs => rw [hplain.ahead_eq]
  rw [List.filter_cons_of_neg (by simp [Token.bad_of_legal hp])]

theorem Seen.advance (h : p.Seen ts) : p.advance.Unseen ts := by
  obtain ⟨hplain, rfl⟩ := h
  refine ⟨hplain.advance, ?_⟩
  rw [noted_advance]
  by_cases hend : p.atEnd
  · rw [Parser.advance, if_pos hend, hplain.ahead_of_atEnd hend]
    rfl
  · rw [ahead_advance hend]

/-- The token that is passed is not a bad one. -/
theorem Seen.pass (h : p.Seen ts) (hp : p.peek.legal = true) : p.advance.Seen ts := by
  by_cases hend : p.atEnd
  · rwa [Parser.advance, if_pos hend]
  refine h.advance.seen ?_
  rwa [current, ahead_advance hend]

/-- If the current token is bad, it is reported now. -/
theorem Unseen.blameCurrent (h : p.Unseen ts) {cause : Cause} (hc : cause.isUnexpected = false) :
    (p.blameCurrent cause).Seen ts := by
  obtain ⟨hplain, rfl⟩ := h
  refine ⟨hplain.record _, ?_⟩
  rw [Parser.blameCurrent, noted_record hc, List.append_assoc, ← List.filter_append]
  conv_rhs => rw [hplain.ahead_eq]
  rfl

/-- A token that is blamed for being unexpected is looked at later. -/
theorem Seen.blamePeek (h : p.Seen ts) (k : Kind) :
    (p.blamePeek (.unexpectedToken k p.peek.kind)).Seen ts := by
  obtain ⟨hplain, rfl⟩ := h
  refine ⟨hplain.record _, ?_⟩
  rw [Parser.blamePeek, noted_record_of_unexpected rfl]
  rfl

/-- Whatever is given up, the bad tokens that were noted and those ahead stay
    the same. -/
theorem steady_seen (ts : List Token) : SteadyDiscipline (Unseen ts) (Seen ts) (Seen ts) where
  plain_fresh h := h.1
  plain_done h := h.1
  settle := Unseen.seen
  move := Seen.advance
  pass := Seen.pass
  refuse h hc := h.blameCurrent hc
  mismatch k h := h.blamePeek k
  weaken h := h
  recover := Seen.advance
  skip h hs := h.pass (Token.legal_of_kind hs (by decide))
  enter h := ⟨h.1.enter, h.2⟩
  leave_done h := ⟨h.1.leave, h.2⟩
  leave_undone h := ⟨h.1.leave, h.2⟩

end Parser

/-- The diagnostics about bad tokens, but for those that say that another token
    was expected there, are about all bad tokens of the text, each one once and
    in their order. -/
theorem bad_tokens_reported (source : String) :
    (((parse source).2.diagnostics.filter fun g => !g.cause.isUnexpected && g.token.bad).map
      Diagnostic.token) = (Token.tokenize source).filter Token.bad := by
  have h : (Parser.ofString source).Unseen ((Token.tokenize source).filter Token.bad) :=
    ⟨Parser.plain_ofString source, rfl⟩
  obtain ⟨hplain, heq⟩ := (Parser.steady_seen _).program h rfl
  -- At the end nothing is ahead but the end, which is not bad.
  have hend : (Parser.ofString source).program.2.atEnd := by
    rw [Parser.atEnd, (Parser.among_ofString source).program.1]
    rfl
  rw [hplain.ahead_of_atEnd hend] at heq
  exact (List.append_nil _).symm.trans heq

example : (((parse "let @ = f(99999999999999999999, # fn(x) { ! }").2.diagnostics.filter
      fun g => !g.cause.isUnexpected && g.token.bad).map Diagnostic.token) =
    [⟨.illegal, "@"⟩, ⟨.int, "99999999999999999999"⟩, ⟨.illegal, "#"⟩] := by
  decide +kernel

end ScriptFront

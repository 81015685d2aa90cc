import ScriptFront.Proofs.Window

/-!
# What each form reads

Each form is read if its parts are, and then stops after its last token. Where
nothing in it is nested too deep, it is read without a report; where something
is, a report says so. Both are one statement (`Reads`), which goes through a
form from part to part (`Reads.bind`): the first part that is nested too deep
leaves its report, and no step after it takes a report away.
-/

namespace ScriptFront

open ScriptFront.Action

/-- Whether something was nested too deep. -/
def Parser.TooDeep (p : Parser) : Prop :=
  ∃ r ∈ p.reports.toList, r.diagnostic.cause = .nestingTooDeep maxDepth

/-- A report of something nested too deep stays. -/
theorem Parser.TooDeep.later {p q : Parser} (hp : p.TooDeep) (h : p.Later q) : q.TooDeep := by
  obtain ⟨r, hr, hc⟩ := hp
  exact ⟨r, h.reports.subset hr, hc⟩

theorem Parser.tooDeep_blameCurrent (p : Parser) :
    (p.blameCurrent (.nestingTooDeep maxDepth)).TooDeep :=
  ⟨_, Array.mem_toList_iff.2 Array.mem_push_self, rfl⟩

/-- What comes out of reading something: if it `fits` into the levels of nesting
    that are left, `a` and a parser with `P`; if not, a report. -/
structure Reads {γ : Type} (fits : Prop) (r : γ × Parser) (a : γ) (P : Parser → Prop) : Prop where
  fit : fits → r.1 = a ∧ P r.2
  deep : ¬fits → r.2.TooDeep

namespace Reads

variable {α β γ : Type} {φ ψ : Prop} {p : Parser} {P Q : Parser → Prop} {a : α} {b : β}
  {x : Action α} {f : α → Action β}

theorem congr {r : γ × Parser} {c : γ} (h : φ ↔ ψ) (hr : Reads φ r c P) : Reads ψ r c P :=
  ⟨fun hψ => hr.fit (h.2 hψ), fun hψ => hr.deep fun hφ => hψ (h.1 hφ)⟩

/-- What is read without going a level deeper always fits. -/
theorem of_fit {r : γ × Parser} {c : γ} (h : r.1 = c) (hP : P r.2) : Reads True r c P :=
  ⟨fun _ => ⟨h, hP⟩, fun hn => absurd trivial hn⟩

theorem eq {r : γ × Parser} {c : γ} (hr : Reads φ r c P) (h : φ) : ∃ q, r = (c, q) ∧ P q :=
  ⟨r.2, Prod.ext (hr.fit h).1 rfl, (hr.fit h).2⟩

/-- One part after the other: both have to fit. -/
theorem bind (hx : Reads φ (x p) (some a) P)
    (hf : ∀ q, P q → Reads ψ (f a q) (some b) Q) (h : ∀ c, Forward (f c)) :
    Reads (φ ∧ ψ) ((x >>= f) p) (some b) Q := by
  by_cases hφ : φ
  · obtain ⟨q, hq, hP⟩ := hx.eq hφ
    rw [bind_of_eq hq]
    exact (hf q hP).congr (by simp [hφ])
  -- Whether `f` is still run or not, the report of `x` stays.
  · exact ⟨fun hφψ => absurd hφψ.1 hφ, fun _ => (hx.deep hφ).later (later_bind x p h)⟩

/-- A part after which nothing is left to fit. -/
theorem bind_last (hx : Reads φ (x p) (some a) P)
    (hf : ∀ q, P q → ∃ r, f a q = (some b, r) ∧ Q r) (h : ∀ c, Forward (f c)) :
    Reads φ ((x >>= f) p) (some b) Q := by
  have hlast : ∀ q, P q → Reads True (f a q) (some b) Q := by
    intro q hq
    obtain ⟨r, hr, hQ⟩ := hf q hq
    rw [hr]
    exact of_fit rfl hQ
  exact (hx.bind hlast h).congr (by simp)

/-- The last step of a form makes its tree of the last part that was read. -/
theorem bind_pure (hx : Reads φ (x p) (some a) P) (g : α → β) :
    Reads φ ((x >>= fun c => pure (g c)) p) (some (g a)) P :=
  hx.bind_last (fun q hq => ⟨q, rfl, hq⟩) fun c => forward_pure (g c)

end Reads

namespace Form

variable {expr : Precedence → Action Expr} (h : ∀ q, Forward (expr q)) {p : Parser} {d : Nat}
  {rs : Array Report} {φ ψ χ : Prop} {o c i t : Token} {ts us vs rest : List Token}
  {e e' : Expr} {b : Block}

/-! ### Expressions, from their first token on -/

/-- The first token decides which form an expression starts with. -/
theorem start_of_form {f : PrefixForm} (hp : p.Before d rs (t :: ts))
    (hf : Dialect.standard.prefixForm? t.kind = some f) :
    start expr p = prefixOf expr f p := by
  rw [start, current_bind, ask_bind, hp.dialect, hp.current, hf]

theorem reads_ident (hp : p.Before d rs (t :: rest)) (ht : t.kind = .ident) :
    Reads True (start expr p) (some (.ident ⟨t, t.literal⟩)) (·.Past d rs rest) := by
  rw [start_of_form (f := .identifier) hp (by rw [ht]; rfl), prefixOf, identifier, current_bind,
    hp.current]
  exact .of_fit rfl hp.past

theorem reads_int {v : Nat} (hp : p.Before d rs (t :: rest)) (ht : t.kind = .int)
    (hv : Numeral.value? t.literal = some v) :
    Reads True (start expr p) (some (.int t v)) (·.Past d rs rest) := by
  rw [start_of_form (f := .integer) hp (by rw [ht]; rfl), prefixOf, integer, current_bind,
    hp.current, hv]
  exact .of_fit rfl hp.past

theorem reads_bool (hp : p.Before d rs (t :: rest)) (ht : t.kind = .kwTrue ∨ t.kind = .kwFalse) :
    Reads True (start expr p) (some (.bool t (t.kind == .kwTrue))) (·.Past d rs rest) := by
  rw [start_of_form (f := .boolean) hp (by rcases ht with h | h <;> rw [h] <;> rfl), prefixOf,
    boolean, current_bind, hp.current]
  exact .of_fit rfl hp.past

/-- A group is read as what is in it, up to its closing parenthesis. -/
theorem reads_group (hp : p.Before d rs (o :: ts)) (ho : o.kind = .lparen)
    (he : Reads φ (expr .lowest p.advance) (some e) (·.Past d rs (c :: rest)))
    (hc : c.kind = .rparen) : Reads φ (start expr p) (some e) (·.Past d rs rest) := by
  rw [start_of_form (f := .group) hp (by rw [ho]; rfl), prefixOf, group, advance_bind]
  refine he.bind_last (fun q hq => ⟨q.advance, ?_, hq.advance_past⟩) fun _ =>
    forward_expect_pure _ _
  exact expect_bind_of_eq (hq.peek ▸ hc) _

/-- An operator in front is read with its operand. -/
theorem reads_prefixOp (hp : p.Before d rs (o :: ts)) (ho : o.kind = .bang ∨ o.kind = .minus)
    (he : Reads φ (expr .prefixOp p.advance) (some e) (·.Past d rs rest)) :
    Reads φ (start expr p) (some (.prefixOp o o.literal e)) (·.Past d rs rest) := by
  rw [start_of_form (f := .operator) hp (by rcases ho with h | h <;> rw [h] <;> rfl), prefixOf,
    prefixOp, current_bind, hp.current, advance_bind]
  exact he.bind_pure _

theorem reads_noAlternative (hp : p.Past d rs rest) (hr : ∀ t ∈ rest.head?, t.kind ≠ .kwElse) :
    Reads True (alternative expr p) (some none) (·.Past d rs rest) := by
  have hk : p.peek.kind ≠ .kwElse := by
    cases rest with
    | nil => simp [hp.peek_nil, Token.eof]
    | cons t ts => exact hp.peek ▸ hr t rfl
  rw [alternative, peekIs_bind, if_neg (by simpa using hk)]
  exact .of_fit rfl hp

theorem reads_alternative (hp : p.Past d rs (i :: o :: ts)) (hi : i.kind = .kwElse)
    (ho : o.kind = .lbrace)
    (hb : Reads φ (total (block expr) p.advance.advance) (some b) (·.Past d rs rest)) :
    Reads φ (alternative expr p) (some (some b)) (·.Past d rs rest) := by
  rw [alternative, peekIs_bind, if_pos (by simp [hp.peek, hi]), advance_bind,
    expect_bind_of_eq (hp.advance_past.peek ▸ ho)]
  exact hb.bind_pure _

include h in
/-- A choice fits if its condition and its blocks do. -/
theorem reads_cond {a : Option Block} (hp : p.Before d rs (i :: o :: ts)) (hi : i.kind = .kwIf)
    (ho : o.kind = .lparen)
    (he : Reads φ (expr .lowest p.advance.advance) (some e) (·.Past d rs (c :: t :: us)))
    (hc : c.kind = .rparen) (ht : t.kind = .lbrace)
    (hb : ∀ q : Parser, q.Before d rs (t :: us) →
      Reads ψ (total (block expr) q) (some b) (·.Past d rs vs))
    (ha : ∀ q : Parser, q.Past d rs vs → Reads χ (alternative expr q) (some a) (·.Past d rs rest)) :
    Reads (φ ∧ ψ ∧ χ) (start expr p) (some (.cond i e b a)) (·.Past d rs rest) := by
  rw [start_of_form (f := .cond) hp (by rw [hi]; rfl), prefixOf, cond, current_bind, hp.current,
    expect_bind_of_eq (hp.past.peek ▸ ho), advance_bind]
  refine he.bind (fun q hq => ?_) (forward_condClose h i)
  rw [expect_bind_of_eq (hq.peek ▸ hc), expect_bind_of_eq (hq.advance_past.peek ▸ ht)]
  refine (hb _ hq.advance_past.advance).bind (fun q' hq' => ?_) fun _ =>
    (forward_alternative h).bind_pure _
  exact (ha q' hq').bind_pure _

/-! ### Lists -/

section Lists

variable {α : Type} {item : Action α} {x : α} {xs : List α}

theorem reads_repeated_nil (hp : p.Past d rs (c :: rest)) (hc : c.kind ≠ .comma) :
    Reads True (repeated .comma item p) (some []) (·.Past d rs (c :: rest)) := by
  rw [repeated_of_ne (hp.peek ▸ hc)]
  exact .of_fit rfl hp

/-- An item after a comma is read, and then those after it. -/
theorem reads_repeated_cons (hi : Forward item) (hp : p.Past d rs (c :: ts)) (hc : c.kind = .comma)
    (hx : Reads φ (item p.advance) (some x) (·.Past d rs us))
    (hxs : ∀ q : Parser, q.Past d rs us →
      Reads ψ (repeated .comma item q) (some xs) (·.Past d rs rest)) :
    Reads (φ ∧ ψ) (repeated .comma item p) (some (x :: xs)) (·.Past d rs rest) := by
  rw [repeated_of_eq hi hp.toProper (by decide) (hp.peek ▸ hc)]
  refine hx.bind (fun q hq => ?_) fun _ => hi.repeated.bind_pure _
  exact (hxs q hq).bind_pure _

theorem reads_parenthesised_nil (hp : p.Past d rs (c :: rest)) (hc : c.kind = .rparen) :
    Reads True (parenthesised item p) (some []) (·.Past d rs rest) := by
  rw [parenthesised, peekIs_bind, if_pos (by simp [hp.peek, hc]), advance_bind]
  exact .of_fit rfl hp.advance_past

/-- A list is read from its first item on, and those after it. -/
theorem reads_parenthesised_cons (hi : Forward item) (hp : p.Past d rs (t :: ts))
    (ht : t.kind ≠ .rparen) (hx : Reads φ (item p) (some x) (·.Past d rs us))
    (hxs : ∀ q : Parser, q.Past d rs us →
      Reads ψ (repeated .comma item q) (some xs) (·.Past d rs (c :: rest)))
    (hc : c.kind = .rparen) :
    Reads (φ ∧ ψ) (parenthesised item p) (some (x :: xs)) (·.Past d rs rest) := by
  rw [parenthesised, peekIs_bind, if_neg (by simp [hp.peek, ht])]
  refine hx.bind (fun q hq => ?_) hi.moreItems
  refine (hxs q hq).bind_last (fun r hr => ⟨r.advance, ?_, hr.advance_past⟩) fun _ =>
    forward_expect_pure _ _
  exact expect_bind_of_eq (hr.peek ▸ hc) _

end Lists

/-! ### Functions and calls -/

theorem reads_parameter (hp : p.Past d rs (t :: rest)) (ht : t.kind = .ident) :
    Reads True (parameter p) (some ⟨t, t.literal⟩) (·.Past d rs rest) := by
  rw [parameter, expect_bind_of_eq (hp.peek ▸ ht), current_bind, hp.advance.current]
  exact .of_fit rfl hp.advance_past

/-- By induction on the list of names after a first one. -/
theorem reads_names {ps : List Ident} (hts : Derives.Names ts ps) (hc : c.kind = .rparen) :
    ∀ {p : Parser}, p.Past d rs (ts ++ c :: rest) →
      Reads True (repeated .comma parameter p) (some ps) (·.Past d rs (c :: rest)) := by
  induction hts with
  | nil => exact fun hp => reads_repeated_nil hp (by simp [hc])
  | cons hk ht _ ih =>
    intro p hp
    exact (reads_repeated_cons forward_parameter hp hk (reads_parameter hp.advance_past ht)
      fun _ hq => ih hq).congr and_self_iff

/-- Parameters are read as the names that they are. -/
theorem reads_params {ps : List Ident} (hts : Derives.Params ts ps) (hc : c.kind = .rparen)
    (hp : p.Past d rs (ts ++ c :: rest)) :
    Reads True (parenthesised parameter p) (some ps) (·.Past d rs rest) := by
  cases hts with
  | nil => exact reads_parenthesised_nil hp hc
  | cons ht hs =>
    exact (reads_parenthesised_cons forward_parameter hp (by simp [ht]) (reads_parameter hp ht)
      (fun _ hq => reads_names hs hc hq) hc).congr and_self_iff

/-- A function fits if its block does. -/
theorem reads_func {ps : List Ident} (hp : p.Before d rs (i :: o :: us)) (hi : i.kind = .kwFn)
    (ho : o.kind = .lparen)
    (hps : Reads True (parenthesised parameter p.advance) (some ps) (·.Past d rs (t :: vs)))
    (ht : t.kind = .lbrace)
    (hb : ∀ q : Parser, q.Before d rs (t :: vs) →
      Reads φ (total (block expr) q) (some b) (·.Past d rs rest)) :
    Reads φ (start expr p) (some (.func i ps b)) (·.Past d rs rest) := by
  obtain ⟨q, hq, hpast⟩ := hps.eq trivial
  rw [start_of_form (f := .func) hp (by rw [hi]; rfl), prefixOf, func, current_bind, hp.current,
    expect_bind_of_eq (hp.past.peek ▸ ho), bind_of_eq hq, expect_bind_of_eq (hpast.peek ▸ ht)]
  exact (hb _ hpast.advance).bind_pure _

theorem reads_infixOp {q : Precedence} (hp : p.Before d rs (o :: ts))
    (he : Reads φ (expr q p.advance) (some e') (·.Past d rs rest)) :
    Reads φ (infixOf expr e q .operator p) (some (.infixOp o o.literal e e'))
      (·.Past d rs rest) := by
  rw [infixOf, infixOp, current_bind, hp.current, advance_bind]
  exact he.bind_pure _

/-- A call is read with its arguments, whatever was read on its left. -/
theorem reads_call {q : Precedence} {es : List Expr} (hp : p.Before d rs (o :: ts))
    (hes : Reads φ (parenthesised (argument expr) p) (some es) (·.Past d rs rest)) :
    Reads φ (infixOf expr e q .call p) (some (.call o e es)) (·.Past d rs rest) := by
  rw [infixOf, call, current_bind, hp.current]
  exact hes.bind_pure _

/-! ### Statements -/

/-- A value is read with the semicolon after it, if there is one. -/
theorem reads_value (he : Reads φ (expr .lowest p) (some e) (·.Past d rs rest)) :
    Reads φ (value expr p) (some (some e)) (·.Past d rs (afterSemicolon rest)) := by
  have ht : Reads φ (total (expr .lowest) p) (some (some e)) (·.Past d rs rest) :=
    ⟨fun hφ => ⟨congrArg some (he.fit hφ).1, (he.fit hφ).2⟩, he.deep⟩
  exact ht.bind_last (fun q hq => ⟨skipSemicolon q, rfl, past_skipSemicolon hq⟩) forward_valueEnd

/-- A `let` statement fits if its value does. -/
theorem reads_letStmt (hp : p.Before d rs (t :: i :: o :: ts)) (ht : t.kind = .kwLet)
    (hi : i.kind = .ident) (ho : o.kind = .assign)
    (he : Reads φ (expr .lowest p.advance.advance.advance) (some e) (·.Past d rs rest)) :
    Reads φ (stmt expr p) (some (.letStmt t ⟨i, i.literal⟩ (some e)))
      (·.Past d rs (afterSemicolon rest)) := by
  rw [stmt, hp.dialect, hp.current, ht, show Dialect.standard.stmtForm .kwLet = .letStmt from rfl,
    stmtOf, letStmt, current_bind, hp.current, expect_bind_of_eq (hp.past.peek ▸ hi), current_bind,
    hp.advance.current, expect_bind_of_eq (hp.advance.past.peek ▸ ho), advance_bind]
  exact (reads_value he).bind_pure _

theorem reads_returnStmt (hp : p.Before d rs (t :: ts)) (ht : t.kind = .kwReturn)
    (he : Reads φ (expr .lowest p.advance) (some e) (·.Past d rs rest)) :
    Reads φ (stmt expr p) (some (.returnStmt t (some e))) (·.Past d rs (afterSemicolon rest)) := by
  rw [stmt, hp.dialect, hp.current, ht,
    show Dialect.standard.stmtForm .kwReturn = .returnStmt from rfl, stmtOf, returnStmt,
    current_bind, hp.current, advance_bind]
  exact (reads_value he).bind_pure _

theorem reads_exprStmt (hp : p.Before d rs (t :: ts)) (ht : t.kind.opens)
    (he : Reads φ (expr .lowest p) (some e) (·.Past d rs rest)) :
    Reads φ (stmt expr p) (some (.exprStmt t (some e))) (·.Past d rs (afterSemicolon rest)) := by
  rw [stmt, hp.dialect, hp.current, Dialect.standard_stmtForm_of_opens ht, stmtOf, exprStmt,
    current_bind, hp.current]
  exact (reads_value he).bind_pure _

include h in
/-- A row of statements is read from the first one on, and fits if all of them
    do. -/
theorem reads_stmts_cons {stop : List Kind} {s : Stmt} {ss : List Stmt}
    (hp : p.Before d rs (t :: ts)) (ht : t.kind ∉ stop)
    (hs : Reads φ (stmt expr p) (some s) (·.Past d rs us))
    (hss : ∀ q : Parser, q.Before d rs us → Reads ψ (stmts expr stop q) ss (·.Before d rs rest)) :
    Reads (φ ∧ ψ) (stmts expr stop p) (s :: ss) (·.Before d rs rest) := by
  rw [stmts_of_not_stop h hp.getLast? (by simp [hp.atEnd_iff]) (hp.current ▸ ht)]
  by_cases hφ : φ
  · obtain ⟨q, hq, hpast⟩ := hs.eq hφ
    rw [hq]
    have hr : Reads (φ ∧ ψ) (stmts expr stop q.advance) ss (·.Before d rs rest) :=
      (hss _ hpast.advance).congr (by simp [hφ])
    exact ⟨fun hφψ => ⟨congrArg (s :: ·) (hr.fit hφψ).1, (hr.fit hφψ).2⟩, hr.deep⟩
  -- The statements after it are read nevertheless, and its report stays.
  · exact ⟨fun hφψ => absurd hφψ.1 hφ, fun _ =>
      ((hs.deep hφ).later (Parser.later_advance _)).later (later_stmts h stop _)⟩

/-- A block is read up to its closing brace. -/
theorem reads_block {ss : List Stmt} (hp : p.Before d rs (o :: ts))
    (hss : Reads φ (stmts expr [.rbrace] p.advance) ss (·.Before d rs (c :: rest))) :
    Reads φ (total (block expr) p) (some (.mk o ss)) (·.Past d rs rest) := by
  refine ⟨fun hφ => ⟨?_, (hss.fit hφ).2.past⟩, hss.deep⟩
  change some (Block.mk p.current (stmts expr [.rbrace] p.advance).1) = _
  rw [(hss.fit hφ).1, hp.current]

end Form

end ScriptFront

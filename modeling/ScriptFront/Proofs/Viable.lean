import ScriptFront.Proofs.Rendering

/-!
# Beginnings of phrases

Which rows of tokens can still become a phrase. A row is viable (`Viable`) if
some tokens after it complete it; as these are written as their kinds say, a
text can be written for the whole (`Token.tokenize_spaced`).

Wherever a phrase breaks off, what is missing can be made of a name, an empty
block and the tokens that close what is open. So a form is viable up to the
part at which it breaks off if that part is, and there is one statement for
each place at which a form can break off.
-/

namespace ScriptFront

/-! ### Phrases of a sort -/

namespace Phrase

/-- An expression that is read as a whole at the precedence `q`. -/
def IsExprAt (q : Precedence) (ph : Phrase) : Prop := ∃ e l, ph = expr e l ∧ l.ReadAt q

/-- The arguments of a call. -/
def IsArgs (ph : Phrase) : Prop := ∃ es, ph = args es

/-- The arguments after the first one. -/
def IsMoreArgs (ph : Phrase) : Prop := ∃ es, ph = moreArgs es

/-- A block. -/
def IsBlock (ph : Phrase) : Prop := ∃ b, ph = block b

/-- A statement. -/
def IsStmt (ph : Phrase) : Prop := ∃ s, ph = stmt s

/-- What a program or a block consists of. -/
def IsBody (ph : Phrase) : Prop := ∃ ss, ph = body ss

end Phrase

open Phrase

/-- The tokens `us` begin a phrase with `P`: some tokens after them complete it,
    and it is nested at most `m` deep. -/
def Viable (P : Phrase → Prop) (m : Nat) (us : List Token) : Prop :=
  ∃ vs ph n, (∀ v ∈ vs, v.Spelled) ∧ Derives (us ++ vs) ph n ∧ P ph ∧ n ≤ m

/-- The tokens `us` begin the parameters of a function. -/
def ViableParams (us : List Token) : Prop :=
  ∃ vs ps, (∀ v ∈ vs, v.Spelled) ∧ Derives.Params (us ++ vs) ps

/-- The tokens `us` begin the parameters after the first one. -/
def ViableNames (us : List Token) : Prop :=
  ∃ vs ps, (∀ v ∈ vs, v.Spelled) ∧ Derives.Names (us ++ vs) ps

/-- A name for what is missing. -/
def someName : Token := ⟨.ident, "x"⟩

/-- The name for what is missing is one that can be written. -/
theorem spelled_someName : someName.Spelled := .name ⟨'x', [], rfl, rfl, rfl⟩ rfl

theorem spelled_tokens (ks : List Kind) (h : ks.all fun k => k.spelling?.isSome) :
    ∀ v ∈ ks.map Kind.token, v.Spelled := by
  intro v hv
  obtain ⟨k, hk, rfl⟩ := List.mem_map.1 hv
  exact Kind.spelled_token (List.all_eq_true.1 h k hk)

theorem derives_someName :
    Derives [someName] (.expr (.ident ⟨someName, "x"⟩) .closed) 1 := .ident rfl

/-- Two braces are a block without statements. -/
theorem derives_noBlock :
    Derives [Kind.lbrace.token, Kind.rbrace.token] (.block (.mk Kind.lbrace.token [])) 0 :=
  .block rfl .noStmts rfl

section

variable {P Q : Phrase → Prop} {m n k : Nat} {q r : Precedence} {i o c s t x a : Token}
  {ts us vs ws : List Token} {e : Expr} {l : Level} {ps : List Ident} {b : Block} {st : Stmt}

/-- What is around a phrase makes it a part of another one. -/
theorem Viable.map (h : Viable P m us) (pre : List Token) (post : List Kind)
    (hpost : post.all fun k => k.spelling?.isSome)
    (hf : ∀ {ts ph n}, P ph → Derives ts ph n → n ≤ m →
      ∃ ph' n', Derives (pre ++ ts ++ post.map Kind.token) ph' n' ∧ Q ph' ∧ n' ≤ k) :
    Viable Q k (pre ++ us) := by
  obtain ⟨vs, ph, n, hvs, hd, hP, hn⟩ := h
  obtain ⟨ph', n', hd', hQ, hn'⟩ := hf hP hd hn
  refine ⟨vs ++ post.map Kind.token, ph', n', ?_, by simpa using hd', hQ, hn'⟩
  exact List.forall_mem_append.2 ⟨hvs, spelled_tokens post hpost⟩

/-! ### Blocks and statements -/

/-- A block can still come where nothing has been read. -/
theorem viable_block_nil : Viable IsBlock m [] :=
  ⟨_, _, 0, spelled_tokens [.lbrace, .rbrace] rfl, derives_noBlock, ⟨_, rfl⟩,
    Nat.zero_le m⟩

/-- After its opening brace, a block is viable where its statements are. -/
theorem Viable.block (ho : o.kind = .lbrace) (h : Viable IsBody m us) :
    Viable IsBlock m (o :: us) := by
  refine h.map [o] [.rbrace] rfl ?_
  rintro ts _ n ⟨ss, rfl⟩ hd hn
  exact ⟨_, n, .block ho hd rfl, ⟨_, rfl⟩, hn⟩

/-- A body may end after its first statement. -/
theorem Viable.firstStmt (h : Viable IsStmt m us) : Viable IsBody m us := by
  refine h.map [] [] rfl ?_
  rintro ts _ n ⟨st, rfl⟩ hd hn
  exact ⟨_, max n 0, by simpa using hd.stmts .noStmts (by simp), ⟨_, rfl⟩, by omega⟩

/-- After a statement and a semicolon, statements are viable as if nothing had
    been before. -/
theorem Viable.stmtsSemicolon (hd : Derives ts (.stmt st) n) (hn : n ≤ m)
    (hc : c.kind = .semicolon) (h : Viable IsBody m us) : Viable IsBody m (ts ++ [c] ++ us) := by
  refine h.map (ts ++ [c]) [] rfl ?_
  rintro us _ n' ⟨ss, rfl⟩ hd' hn'
  exact ⟨_, max n n', by simpa using hd.stmtsSemicolon hc hd', ⟨_, rfl⟩, by omega⟩

/-- What follows a statement without a semicolon must not continue it. If
    nothing does, the body ends there. -/
theorem Viable.stmts (hd : Derives ts (.stmt st) n) (hn : n ≤ m)
    (hus : ∀ t ∈ us.head?, t.kind.continues? = none) (h : Viable IsBody m us) :
    Viable IsBody m (ts ++ us) := by
  rcases us with _ | ⟨u, us⟩
  · exact ⟨[], _, max n 0, by simp, by simpa using hd.stmts .noStmts (by simp), ⟨_, rfl⟩,
      by omega⟩
  · obtain ⟨vs, _, n', hvs, hd', ⟨ss, rfl⟩, hn'⟩ := h
    exact ⟨vs, _, max n n', hvs, by simpa using hd.stmts hd' hus, ⟨_, rfl⟩, by omega⟩

/-- After `let` a name, `=` and a value can come. -/
theorem viable_let (ht : t.kind = .kwLet) (hm : 0 < m) : Viable IsStmt m [t] := by
  refine ⟨[someName, Kind.assign.token, someName], _, 1, ?_, .letStmt ht rfl rfl derives_someName,
    ⟨_, rfl⟩, hm⟩
  simp [spelled_someName, Kind.spelled_token (k := .assign) rfl]

theorem viable_let_name (ht : t.kind = .kwLet) (hx : x.kind = .ident) (hm : 0 < m) :
    Viable IsStmt m [t, x] := by
  refine ⟨[Kind.assign.token, someName], _, 1, ?_, .letStmt ht hx rfl derives_someName, ⟨_, rfl⟩,
    hm⟩
  simp [spelled_someName, Kind.spelled_token (k := .assign) rfl]

/-- After `=` a `let` statement is viable where its value is. -/
theorem Viable.letStmt (ht : t.kind = .kwLet) (hx : x.kind = .ident) (ha : a.kind = .assign)
    (h : Viable (IsExprAt q) m us) : Viable IsStmt m (t :: x :: a :: us) := by
  refine h.map [t, x, a] [] rfl ?_
  rintro ts _ n ⟨e, l, rfl, -⟩ hd hn
  exact ⟨_, n, by simpa using Derives.letStmt ht hx ha hd, ⟨_, rfl⟩, hn⟩

theorem Viable.returnStmt (ht : t.kind = .kwReturn) (h : Viable (IsExprAt q) m us) :
    Viable IsStmt m (t :: us) := by
  refine h.map [t] [] rfl ?_
  rintro ts _ n ⟨e, l, rfl, -⟩ hd hn
  exact ⟨_, n, by simpa using Derives.returnStmt ht hd, ⟨_, rfl⟩, hn⟩

theorem Viable.exprStmt (h : Viable (IsExprAt q) m us) : Viable IsStmt m us := by
  refine h.map [] [] rfl ?_
  rintro ts _ n ⟨e, l, rfl, -⟩ hd hn
  obtain ⟨t, ts, rfl, -⟩ := hd.opens
  exact ⟨_, n, by simpa using Derives.exprStmt hd, ⟨_, rfl⟩, hn⟩

/-! ### Expressions, from their first token on -/

/-- An expression can still come where nothing has been read, as a name is one. -/
theorem viable_expr_nil (hm : 0 < m) : Viable (IsExprAt q) m [] :=
  ⟨[someName], _, 1, by simp [spelled_someName], derives_someName, ⟨_, .closed, rfl, trivial⟩, hm⟩

/-- In a group, a closing parenthesis may come after the expression. -/
theorem Viable.group (ho : o.kind = .lparen) (h : Viable (IsExprAt r) m us) :
    Viable (IsExprAt q) (m + 1) (o :: us) := by
  refine h.map [o] [.rparen] rfl ?_
  rintro ts _ n ⟨e, l, rfl, -⟩ hd hn
  exact ⟨_, n + 1, .group ho hd rfl, ⟨_, .closed, rfl, trivial⟩, Nat.succ_le_succ hn⟩

theorem Viable.prefixOp (ho : o.kind = .bang ∨ o.kind = .minus)
    (h : Viable (IsExprAt .prefixOp) m us) : Viable (IsExprAt q) (m + 1) (o :: us) := by
  refine h.map [o] [] rfl ?_
  rintro ts _ n ⟨e, l, rfl, hl⟩ hd hn
  have hd' := Derives.prefixOp ho hd (hl.atLeast (Nat.le_refl _))
  exact ⟨_, n + 1, by simpa using hd', ⟨_, .operator .prefixOp, rfl, .inl rfl⟩, Nat.succ_le_succ hn⟩

/-- After `if` a condition and a block can come. -/
theorem viable_if (hi : i.kind = .kwIf) (hm : 0 < m) : Viable (IsExprAt q) (m + 1) [i] := by
  refine ⟨Kind.lparen.token :: someName :: Kind.rparen.token ::
    [Kind.lbrace.token, Kind.rbrace.token], _, max 1 0 + 1, ?_,
    .cond hi rfl derives_someName rfl derives_noBlock, ⟨_, .closed, rfl, trivial⟩, by omega⟩
  simp [spelled_someName, Kind.spelled_token (k := .lparen) rfl,
    Kind.spelled_token (k := .rparen) rfl, Kind.spelled_token (k := .lbrace) rfl,
    Kind.spelled_token (k := .rbrace) rfl]

/-- In the condition of a choice, a closing parenthesis and a block may come
    after it. -/
theorem Viable.condition (hi : i.kind = .kwIf) (ho : o.kind = .lparen)
    (h : Viable (IsExprAt r) m us) : Viable (IsExprAt q) (m + 1) (i :: o :: us) := by
  refine h.map [i, o] [.rparen, .lbrace, .rbrace] rfl ?_
  rintro ts _ n ⟨e, l, rfl, -⟩ hd hn
  exact ⟨_, max n 0 + 1, .cond hi ho hd rfl derives_noBlock, ⟨_, .closed, rfl, trivial⟩, by omega⟩

/-- In its first block, a choice is viable where the block is. -/
theorem Viable.consequence (hi : i.kind = .kwIf) (ho : o.kind = .lparen)
    (hd : Derives ts (.expr e l) n) (hn : n ≤ m) (hc : c.kind = .rparen)
    (h : Viable IsBlock m us) : Viable (IsExprAt q) (m + 1) (i :: o :: ts ++ [c] ++ us) := by
  refine h.map (i :: o :: ts ++ [c]) [] rfl ?_
  rintro us _ n' ⟨b, rfl⟩ hd' hn'
  have hcond := Derives.cond hi ho hd hc hd'
  exact ⟨_, max n n' + 1, by simpa using hcond, ⟨_, .closed, rfl, trivial⟩, by omega⟩

theorem Viable.alternative (hi : i.kind = .kwIf) (ho : o.kind = .lparen)
    (hd : Derives ts (.expr e l) n) (hn : n ≤ m) (hc : c.kind = .rparen)
    (hb : Derives vs (.block b) k) (hk : k ≤ m) (hs : s.kind = .kwElse)
    (h : Viable IsBlock m us) :
    Viable (IsExprAt q) (m + 1) (i :: o :: ts ++ c :: vs ++ s :: us) := by
  rw [List.append_cons _ s us]
  refine h.map (i :: o :: ts ++ c :: vs ++ [s]) [] rfl ?_
  rintro us _ n' ⟨b', rfl⟩ hd' hn'
  have hcond := Derives.condElse hi ho hd hc hb hs hd'
  exact ⟨_, max (max n k) n' + 1, by simpa using hcond, ⟨_, .closed, rfl, trivial⟩, by omega⟩

/-! ### Functions -/

theorem viable_names_comma (hc : c.kind = .comma) : ViableNames [c] :=
  ⟨[someName], _, by simp [spelled_someName], .cons hc rfl .nil⟩

theorem ViableNames.cons (hc : c.kind = .comma) (ht : t.kind = .ident) (h : ViableNames us) :
    ViableNames (c :: t :: us) := by
  obtain ⟨vs, ps, hvs, hps⟩ := h
  exact ⟨vs, _, hvs, .cons hc ht hps⟩

theorem viable_params_nil : ViableParams [] := ⟨[], _, by simp, .nil⟩

/-- After the first parameter, parameters are viable where those after it are. -/
theorem ViableNames.params (ht : t.kind = .ident) (h : ViableNames us) :
    ViableParams (t :: us) := by
  obtain ⟨vs, ps, hvs, hps⟩ := h
  exact ⟨vs, _, hvs, .cons ht hps⟩

/-- In its parameters, a function needs a closing parenthesis and a block. -/
theorem ViableParams.func (hi : i.kind = .kwFn) (ho : o.kind = .lparen) (h : ViableParams us) :
    Viable (IsExprAt q) (m + 1) (i :: o :: us) := by
  obtain ⟨vs, ps, hvs, hps⟩ := h
  have hfunc := Derives.func hi ho hps (c := Kind.rparen.token) rfl derives_noBlock
  exact ⟨vs ++ [Kind.rparen, .lbrace, .rbrace].map Kind.token, _, 0 + 1,
    List.forall_mem_append.2 ⟨hvs, spelled_tokens _ rfl⟩, by simpa using hfunc,
    ⟨_, .closed, rfl, trivial⟩, by omega⟩

theorem viable_fn (hi : i.kind = .kwFn) : Viable (IsExprAt q) (m + 1) [i] := by
  exact ⟨[Kind.lparen, .rparen, .lbrace, .rbrace].map Kind.token, _, 0 + 1, spelled_tokens _ rfl,
    Derives.func hi (o := Kind.lparen.token) (c := Kind.rparen.token) rfl .nil rfl derives_noBlock,
    ⟨_, .closed, rfl, trivial⟩, by omega⟩

/-- In its block, a function is viable where the block is. -/
theorem Viable.func (hi : i.kind = .kwFn) (ho : o.kind = .lparen) (hps : Derives.Params ts ps)
    (hc : c.kind = .rparen) (h : Viable IsBlock m us) :
    Viable (IsExprAt q) (m + 1) (i :: o :: ts ++ [c] ++ us) := by
  refine h.map (i :: o :: ts ++ [c]) [] rfl ?_
  rintro us _ n' ⟨b, rfl⟩ hd' hn'
  have hfunc := Derives.func hi ho hps hc hd'
  exact ⟨_, n' + 1, by simpa using hfunc, ⟨_, .closed, rfl, trivial⟩, Nat.succ_le_succ hn'⟩

/-! ### Expressions that go on -/

/-- After an operator, an expression is viable where the operand is, if that
    binds more tightly. -/
theorem Viable.infixOp (hd : Derives ts (.expr e l) n) (hn : n ≤ m + 1) (hl : l.AtLeast r)
    (ho : o.kind.operator? = some r) (hr : q < r) (h : Viable (IsExprAt r) m us) :
    Viable (IsExprAt q) (m + 1) (ts ++ [o] ++ us) := by
  refine h.map (ts ++ [o]) [] rfl ?_
  rintro us _ n' ⟨e', l', rfl, hl'⟩ hd' hn'
  have hop := hd.infixOp hl ho hd' (hl'.above (Kind.operator_lt_prefixOp ho))
  exact ⟨_, max n (n' + 1), by simpa using hop, ⟨_, .operator r, rfl, .inr hr⟩, by omega⟩

/-- The first argument may be the only one. -/
theorem Viable.firstArg (h : Viable (IsExprAt q) m us) : Viable IsArgs m us := by
  refine h.map [] [] rfl ?_
  rintro ts _ n ⟨e, l, rfl, -⟩ hd hn
  exact ⟨_, max n 0, by simpa using hd.args .noMoreArgs, ⟨_, rfl⟩, by omega⟩

theorem Viable.args (hd : Derives ts (.expr e l) n) (hn : n ≤ m) (h : Viable IsMoreArgs m us) :
    Viable IsArgs m (ts ++ us) := by
  refine h.map ts [] rfl ?_
  rintro us _ n' ⟨es, rfl⟩ hd' hn'
  exact ⟨_, max n n', by simpa using hd.args hd', ⟨_, rfl⟩, by omega⟩

theorem viable_moreArgs_nil : Viable IsMoreArgs m [] :=
  ⟨[], _, 0, by simp, .noMoreArgs, ⟨_, rfl⟩, Nat.zero_le m⟩

/-- The argument after a comma may be the last one. -/
theorem Viable.nextArg (hc : c.kind = .comma) (h : Viable (IsExprAt q) m us) :
    Viable IsMoreArgs m (c :: us) := by
  refine h.map [c] [] rfl ?_
  rintro ts _ n ⟨e, l, rfl, -⟩ hd hn
  exact ⟨_, max n 0, by simpa using Derives.moreArgs hc hd .noMoreArgs, ⟨_, rfl⟩, by omega⟩

theorem Viable.moreArgs (hc : c.kind = .comma) (hd : Derives ts (.expr e l) n) (hn : n ≤ m)
    (h : Viable IsMoreArgs m us) : Viable IsMoreArgs m (c :: ts ++ us) := by
  refine h.map (c :: ts) [] rfl ?_
  rintro us _ n' ⟨es, rfl⟩ hd' hn'
  exact ⟨_, max n n', by simpa using Derives.moreArgs hc hd hd', ⟨_, rfl⟩, by omega⟩

/-- In its arguments, a call is viable where they are, with a closing
    parenthesis after them. -/
theorem Viable.call (hd : Derives ts (.expr e l) n) (hn : n ≤ m + 1) (hl : l.AtLeast .call)
    (ho : o.kind = .lparen) (hq : q < .call) (h : Viable IsArgs m us) :
    Viable (IsExprAt q) (m + 1) (ts ++ [o] ++ us) := by
  refine h.map (ts ++ [o]) [.rparen] rfl ?_
  rintro us _ n' ⟨es, rfl⟩ hd' hn'
  have hcall := hd.call hl ho hd' (c := Kind.rparen.token) rfl
  exact ⟨_, max n (n' + 1), by simpa using hcall, ⟨_, .operator .call, rfl, .inr hq⟩, by omega⟩

end

/-! ### Texts -/

/-- A text of some tokens, each with a blank after it. -/
def Token.spaced (ts : List Token) : String := String.join (ts.map fun t => t.literal ++ " ")

/-- With a blank after each, tokens that can be written are found again. -/
theorem Token.tokenize_spaced : ∀ {ts : List Token}, (∀ t ∈ ts, t.Spelled) →
    tokenize (spaced ts) = ts ++ [.eof]
  | [], _ => tokens_nil
  | t :: ts, h => by
    have hsplit : (spaced (t :: ts)).toList = t.literal.toList ++ ' ' :: (spaced ts).toList := by
      simp [spaced, String.join_cons]
    rw [tokenize, hsplit, tokens_spelled_space (h t List.mem_cons_self)]
    exact congrArg (t :: ·) (tokenize_spaced fun u hu => h u (List.mem_cons_of_mem t hu))

end ScriptFront

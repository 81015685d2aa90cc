import ScriptFront.Proofs.Position

/-!
# Recovery

How a parser gets over a fault. Giving up ends a form, and with it all forms
around it up to the next statement; the statement ends where it was given up,
the parser moves on by one token, and reads the next statement there.

So every token that comes to be the current one is looked at in the same few
ways, and what holds of the parser before and after that can be said once
(`Discipline`): before the token is looked at, after it was accepted, and after
something was given up at it. Where braces matter, the opening brace of a block
is accepted in a way of its own, and the reader of blocks has to make up for it
(`BraceDiscipline`). If every reader of expressions keeps a discipline, so does
every form that is put together from them (`BraceDiscipline.expression`), every
statement (`BraceDiscipline.stmt`), and every row of statements (`Discipline.stmts`),
whatever is wrong with the text.
-/

namespace ScriptFront

/-- A token of a kind of its own is legal. -/
theorem Token.legal_of_kind {t : Token} {k : Kind} (h : t.kind = k)
    (hk : k ≠ .illegal ∧ k ≠ .int) : t.legal = true := by
  simp [Token.legal, h, hk.1, hk.2]

/-- Whether the token is legal, and no brace. -/
def Token.ordinary (t : Token) : Bool := t.legal && t.kind != .lbrace && t.kind != .rbrace

theorem Token.legal_of_ordinary {t : Token} (h : t.ordinary = true) : t.legal = true := by
  rw [Token.ordinary, Bool.and_eq_true, Bool.and_eq_true] at h
  exact h.1.1

/-- A token of a kind of its own that is no brace is ordinary. -/
theorem Token.ordinary_of_kind {t : Token} {k : Kind} (h : t.kind = k)
    (hk : k ∉ [Kind.illegal, .int, .lbrace, .rbrace]) : t.ordinary = true := by
  simp only [List.mem_cons, List.not_mem_nil, or_false, not_or] at hk
  simp [Token.ordinary, Token.legal, h, hk]

/-- An integer with a value is ordinary. -/
theorem Token.ordinary_of_int {t : Token} {n : Nat} (h : t.kind = .int)
    (hn : Numeral.value? t.literal = some n) : t.ordinary = true := by
  simp [Token.ordinary, Token.legal, h, hn]

namespace Parser

/-- The parser reads the standard language, and its text ends. -/
structure Plain (p : Parser) : Prop where
  dialect : p.dialect = .standard
  proper : p.Proper

variable {p q : Parser}

/-- Whatever is read, the parser stays plain. -/
theorem Plain.later (hp : p.Plain) (h : p.Later q) : q.Plain :=
  ⟨h.dialect.trans hp.dialect, hp.proper.later h⟩

theorem Plain.advance (hp : p.Plain) : p.advance.Plain := hp.later p.later_advance

theorem Plain.record (hp : p.Plain) (r : Report) : (p.record r).Plain :=
  hp.later (p.later_record r)

theorem Plain.enter (hp : p.Plain) : p.enter.Plain :=
  ⟨hp.dialect, ⟨hp.proper.ahead, hp.proper.infixForm?⟩⟩

theorem Plain.leave (hp : p.Plain) : p.leave.Plain :=
  ⟨hp.dialect, ⟨hp.proper.ahead, hp.proper.infixForm?⟩⟩

theorem Plain.ahead_eq (hp : p.Plain) : p.ahead = p.current :: p.ahead.tail := by
  obtain ⟨_ | ⟨t, ts⟩, hts, -⟩ := hp.proper.ahead <;> rw [current, hts] <;> rfl

theorem Plain.getLast? (hp : p.Plain) : p.ahead.getLast? = some .eof := hp.proper.getLast?

/-- At the end of the text nothing else is left. -/
theorem Plain.ahead_of_atEnd (hp : p.Plain) (h : p.atEnd) : p.ahead = [.eof] := by
  obtain ⟨_ | ⟨t, ts⟩, hts, heof⟩ := hp.proper.ahead
  · exact hts
  · refine absurd ?_ (heof t List.mem_cons_self)
    simpa [atEnd, current, hts] using h

/-- From the end of the text there is nowhere to go. -/
theorem Plain.atEnd_of_later (hp : p.Plain) (h : p.Later q) (ha : p.atEnd) : q.atEnd := by
  have hq := h.ahead
  rw [hp.ahead_of_atEnd ha] at hq
  rcases List.suffix_cons_iff.1 hq with hq | hq
  · rw [atEnd, current, hq]
    rfl
  · exact absurd (List.suffix_nil.1 hq) (h.ends hp.getLast?)

/-- A parser that starts on a text is plain. -/
theorem plain_ofString (source : String) : (ofString source).Plain :=
  ⟨rfl, (before_ofString source).toProper⟩

/-- A token that continues an expression is legal, and no brace. -/
theorem Plain.ordinary_peek {q : Precedence} {f : Precedence × InfixForm} (hp : p.Plain)
    (h : p.continuation? q = some f) : p.peek.ordinary = true := by
  rw [continuation?, hp.dialect] at h
  split at h
  · cases h
  · obtain ⟨hf, -⟩ := Option.filter_eq_some_iff.1 h
    refine Token.ordinary_of_kind rfl fun hk => ?_
    simp only [List.mem_cons, List.not_mem_nil, or_false] at hk
    rcases hk with hk | hk | hk | hk <;> rw [hk] at hf <;> cases hf

end Parser

/-- Whether a cause is that a token follows which was not expected. -/
def Cause.isUnexpected : Cause → Bool
  | unexpectedToken _ _ => true
  | _ => false

namespace Action

variable {α β : Type} {P D E U V : Parser → Prop} {x : Action α} {f : α → Action β} {k : Kind}

/-- Whether an action came to a parser with `D` and a value, or gave up and came
    to one with `U`. -/
def Leads (D U : Parser → Prop) : Option α × Parser → Prop
  | (some _, q) => D q
  | (none, q) => U q

/-- From a parser with `P`, the action leads to one with `D`, or to one with `U`
    if it gives up. -/
def Meets (P : Parser → Prop) (x : Action α) (D U : Parser → Prop) : Prop :=
  ∀ p, P p → Leads D U (x p)

/-- One action after the other: where the first one gives up, so does the whole. -/
theorem Meets.bind (hx : Meets P x D U) (hf : ∀ a, Meets D (f a) E U) :
    Meets P (x >>= f) E U := by
  intro p hp
  have hq := hx p hp
  rw [bind_apply]
  rcases hr : x p with ⟨_ | a, q⟩ <;> rw [hr] at hq
  · exact hq
  · exact hf a q hq

theorem meets_pure {a : α} : Meets D (pure a) D U := fun _ hp => hp

/-- The last step of an action makes its value and leaves the parser where it
    is. -/
theorem Meets.bind_pure (hx : Meets P x D U) (g : α → β) :
    Meets P (x >>= fun a => pure (g a)) D U :=
  hx.bind fun _ => meets_pure

theorem meets_ask {g : Parser → α} : Meets D (ask g) D U := fun _ hp => hp

/-- What cannot fail does not give up, whatever the action in it does. -/
theorem Meets.total (hx : Meets P x D D) : Meets P (total x) D U := by
  intro p hp
  have hq := hx p hp
  change D (x p).2
  rcases hr : x p with ⟨_ | a, q⟩ <;> rw [hr] at hq <;> exact hq

/-- A level of nesting deeper, the assertions may be others. -/
theorem Meets.nested {P' D' U' : Parser → Prop} (hx : Meets P x D U)
    (hP : ∀ p, P' p → P p.enter) (hD : ∀ p, D p → D' p.leave) (hU : ∀ p, U p → U' p.leave) :
    Meets P' (nested x) D' U' := by
  intro p hp
  have hq := hx p.enter (hP p hp)
  change Leads D' U' ((x p.enter).1, (x p.enter).2.leave)
  rcases hr : x p.enter with ⟨_ | a, q⟩ <;> rw [hr] at hq
  · exact hU q hq
  · exact hD q hq

/-- An accepted token may be as good as one at which something was given up. -/
theorem Meets.weaken (hx : Meets P x D U) (h : ∀ p, D p → U p) : Meets P x U U := by
  intro p hp
  have hq := hx p hp
  rcases hr : x p with ⟨_ | a, q⟩ <;> rw [hr] at hq
  · exact hq
  · exact h q hq

end Action

open ScriptFront.Action

/-- What holds of a parser, by how it stands to its current token: `F` before the
    token is looked at, `D` after it was accepted, and `U` where something was
    given up. -/
structure Discipline (F D U : Parser → Prop) : Prop where
  /-- The parser reads the standard language. -/
  plain_fresh {p : Parser} : F p → p.Plain
  plain_done {p : Parser} : D p → p.Plain
  /-- A legal token is accepted without further ado. -/
  settle {p : Parser} : F p → p.current.legal = true → D p
  /-- The token after an accepted one has not been looked at. -/
  move {p : Parser} : D p → F p.advance
  /-- A legal token is accepted as the one after an accepted one, too. -/
  pass {p : Parser} : D p → p.peek.legal = true → D p.advance
  /-- The current token is blamed when it is looked at. -/
  refuse {p : Parser} {cause : Cause} : F p → cause.isUnexpected = false → U (p.blameCurrent cause)
  /-- The token after an accepted one is blamed for being unexpected. -/
  mismatch {p : Parser} (k : Kind) : D p → U (p.blamePeek (.unexpectedToken k p.peek.kind))

/-- What holds of a parser, by how it stands to its current token, where the
    braces of blocks matter: as in a `Discipline`, and `O` after the opening brace
    of a block was accepted. -/
structure BraceDiscipline (F D O U : Parser → Prop) : Prop where
  /-- The parser reads the standard language. -/
  plain_fresh {p : Parser} : F p → p.Plain
  plain_done {p : Parser} : D p → p.Plain
  /-- A legal token that is no brace is accepted without further ado. -/
  settle {p : Parser} : F p → p.current.ordinary = true → D p
  /-- The token after an accepted one has not been looked at. -/
  move {p : Parser} : D p → F p.advance
  /-- A legal token that is no brace is accepted as the one after an accepted one,
      too. -/
  pass {p : Parser} : D p → p.peek.ordinary = true → D p.advance
  /-- So is the opening brace of a block. -/
  opens {p : Parser} : D p → p.peek.kind = .lbrace → O p.advance
  /-- The current token is blamed when it is looked at. -/
  refuse {p : Parser} {cause : Cause} : F p → cause.isUnexpected = false → U (p.blameCurrent cause)
  /-- The token after an accepted one is blamed for being unexpected. -/
  mismatch {p : Parser} (k : Kind) : D p → U (p.blamePeek (.unexpectedToken k p.peek.kind))

/-- Where all tokens are accepted alike, so is the opening brace of a block. -/
theorem Discipline.braces {F D U : Parser → Prop} (h : Discipline F D U) :
    BraceDiscipline F D D U where
  plain_fresh := h.plain_fresh
  plain_done := h.plain_done
  settle hp ht := h.settle hp (Token.legal_of_ordinary ht)
  move := h.move
  pass hp ht := h.pass hp (Token.legal_of_ordinary ht)
  opens hp hk := h.pass hp (Token.legal_of_kind hk (by decide))
  refuse := h.refuse
  mismatch := h.mismatch

namespace BraceDiscipline

variable {α β : Type} {F D O U W : Parser → Prop} {item : Action α} {x y : Action β}

section

variable (h : BraceDiscipline F D O U)

include h

/-- Advancing from an accepted token, the next one has not been looked at. -/
theorem meets_advance : Meets D advance F U := fun _ hp => h.move hp

/-- A token of the expected kind is accepted, any other one is blamed. -/
theorem meets_expect (k : Kind) (hk : k ∉ [Kind.illegal, .int, .lbrace, .rbrace]) :
    Meets D (expect k) D U := by
  intro p hp
  rw [expect]
  split
  next hpeek => exact h.pass hp (Token.ordinary_of_kind hpeek hk)
  next => exact h.mismatch k hp

/-- The opening brace of a block, if it follows, is accepted in its own way. -/
theorem meets_expect_lbrace : Meets D (expect .lbrace) O U := by
  intro p hp
  rw [expect]
  split
  next hpeek => exact h.opens hp hpeek
  next => exact h.mismatch .lbrace hp

/-- One thing is done after a token that was passed, another one if it does not
    follow. -/
theorem meets_peekIs (k : Kind) (hk : k ∉ [Kind.illegal, .int, .lbrace, .rbrace])
    (hx : Meets D x D U) (hy : Meets D y D U) :
    Meets D (do if ← peekIs k then advance; x else y) D U := by
  intro p hp
  rw [peekIs_bind]
  split
  next hpeek =>
    rw [advance_bind]
    exact hx _ (h.pass hp (Token.ordinary_of_kind (eq_of_beq hpeek) hk))
  next => exact hy p hp

theorem repeatedUpTo (hi : Meets D item D U) : ∀ n, Meets D (repeatedUpTo .comma item n) D U
  | 0 => meets_pure
  | n + 1 => by
    refine h.meets_peekIs .comma (by decide) ?_ meets_pure
    refine hi.bind fun a => ?_
    exact (repeatedUpTo hi n).bind_pure (a :: ·)

theorem repeated (hi : Meets D item D U) : Meets D (repeated .comma item) D U :=
  (meets_ask (g := fun p => p.ahead.length)).bind fun n => h.repeatedUpTo hi n

/-- A list between parentheses, from its first item on. -/
theorem parenthesised (hi : Meets D item D U) : Meets D (parenthesised item) D U := by
  refine h.meets_peekIs .rparen (by decide) meets_pure ?_
  refine hi.bind fun a => ?_
  refine (h.repeated hi).bind fun as => ?_
  exact (h.meets_expect .rparen (by decide)).bind_pure fun _ => a :: as

theorem parameter : Meets D Form.parameter D U := by
  refine (h.meets_expect .ident (by decide)).bind fun _ => ?_
  exact meets_ask.bind_pure _

end

/-! ### Statements -/

section

variable (h : BraceDiscipline F D O W) {expr : Precedence → Action Expr}
  (hexpr : ∀ q, Meets F (expr q) W W)
  (hskip : ∀ p, W p → p.peek.kind = .semicolon → W p.advance)

include hexpr hskip

/-- A value that could not be read ends where it was given up. -/
theorem value : Meets F (Form.value expr) W W := by
  have hend : Meets W (update Form.skipSemicolon) W W := by
    intro p hp
    change W (Form.skipSemicolon p)
    rw [Form.skipSemicolon]
    split
    next hs => exact hskip p hp hs
    next => exact hp
  refine (Meets.total (hexpr .lowest)).bind fun v => ?_
  exact hend.bind_pure fun _ => v

include h

/-- A `let` statement ends at its value, or where it is given up. -/
theorem letStmt : Meets D (Form.letStmt expr) W W := by
  refine meets_ask.bind fun token => ?_
  refine (h.meets_expect .ident (by decide)).bind fun _ => ?_
  refine meets_ask.bind fun name => ?_
  refine (h.meets_expect .assign (by decide)).bind fun _ => ?_
  refine h.meets_advance.bind fun _ => ?_
  exact (value hexpr hskip).bind_pure _

theorem returnStmt : Meets D (Form.returnStmt expr) W W := by
  refine meets_ask.bind fun token => ?_
  refine h.meets_advance.bind fun _ => ?_
  exact (value hexpr hskip).bind_pure _

omit h in
theorem exprStmt : Meets F (Form.exprStmt expr) W W := by
  refine meets_ask.bind fun token => ?_
  exact (value hexpr hskip).bind_pure _

/-- Whatever comes of a statement, the parser is afterwards where it can move on
    from. -/
theorem stmt : Meets F (Form.stmt expr) W W := by
  intro p hp
  rw [Form.stmt, (h.plain_fresh hp).dialect]
  rcases hf : Dialect.standard.stmtForm? p.current.kind with _ | f
  · rw [Dialect.stmtForm, hf]
    exact exprStmt hexpr hskip p hp
  · rw [Dialect.stmtForm, hf]
    have hk := Dialect.of_standard_stmtForm? hf
    cases f with
    | letStmt =>
      exact h.letStmt hexpr hskip p (h.settle hp (Token.ordinary_of_kind hk (by decide)))
    | returnStmt =>
      exact h.returnStmt hexpr hskip p (h.settle hp (Token.ordinary_of_kind hk (by decide)))
    | exprStmt => exact hk.elim

end

/-! ### Expressions -/

section

variable (h : BraceDiscipline F D O U) {expr : Precedence → Action Expr}
  (hexpr : ∀ q, Meets F (expr q) D U) (hblock : Meets O (total (Form.block expr)) D U)

include h hexpr

theorem advance_expr (q : Precedence) : Meets D (do advance; expr q) D U :=
  h.meets_advance.bind fun _ => hexpr q

/-- The operand after an operator, or the arguments of a call. -/
theorem infixOf (left : Expr) (q : Precedence) (f : InfixForm) :
    Meets D (Form.infixOf expr left q f) D U := by
  cases f with
  | operator =>
    refine meets_ask.bind fun token => ?_
    exact (h.advance_expr hexpr q).bind_pure _
  | call =>
    have hargument : Meets D (Form.argument expr) D U := h.advance_expr hexpr .lowest
    refine meets_ask.bind fun token => ?_
    exact (h.parenthesised hargument).bind_pure _

/-- By recursion on the bound: the token that continues the expression is
    ordinary. -/
theorem extendUpTo (q : Precedence) : ∀ n left, Meets D (Form.extendUpTo expr q n left) D U
  | 0, _ => meets_pure
  | n + 1, left => by
    intro p hp
    rw [Form.extendUpTo, ask_bind]
    rcases hc : p.continuation? q with _ | ⟨r, f⟩
    · exact hp
    · have hpass := h.pass hp ((h.plain_done hp).ordinary_peek hc)
      exact ((h.infixOf hexpr left r f).bind (extendUpTo q n)) _ hpass

include hblock

omit hexpr in
theorem alternative : Meets D (Form.alternative expr) D U := by
  refine h.meets_peekIs .kwElse (by decide) ?_ meets_pure
  refine h.meets_expect_lbrace.bind fun _ => ?_
  exact hblock.bind_pure some

omit hblock in
theorem prefixOp : Meets D (Form.prefixOp expr) D U := by
  refine meets_ask.bind fun token => ?_
  exact (h.advance_expr hexpr .prefixOp).bind_pure _

omit hblock in
theorem group : Meets D (Form.group expr) D U := by
  refine h.meets_advance.bind fun _ => ?_
  refine (hexpr .lowest).bind fun e => ?_
  exact (h.meets_expect .rparen (by decide)).bind_pure fun _ => e

/-- A choice, with the braces of its blocks accepted in their own way. -/
theorem cond : Meets D (Form.cond expr) D U := by
  refine meets_ask.bind fun token => ?_
  refine (h.meets_expect .lparen (by decide)).bind fun _ => ?_
  refine h.meets_advance.bind fun _ => ?_
  refine (hexpr .lowest).bind fun condition => ?_
  refine (h.meets_expect .rparen (by decide)).bind fun _ => ?_
  refine h.meets_expect_lbrace.bind fun _ => ?_
  refine hblock.bind fun consequence => ?_
  exact (h.alternative hblock).bind_pure _

omit hexpr in
/-- A function, with the opening brace of its block accepted in its own way. -/
theorem func : Meets D (Form.func expr) D U := by
  refine meets_ask.bind fun token => ?_
  refine (h.meets_expect .lparen (by decide)).bind fun _ => ?_
  refine (h.parenthesised h.parameter).bind fun parameters => ?_
  refine h.meets_expect_lbrace.bind fun _ => ?_
  exact hblock.bind_pure _

/-- The first token of an expression is accepted or blamed. -/
theorem start : Meets F (Form.start expr) D U := by
  intro p hp
  rw [Form.start, current_bind, ask_bind, (h.plain_fresh hp).dialect]
  rcases hf : Dialect.standard.prefixForm? p.current.kind with _ | f
  · exact h.refuse hp rfl
  have hk := Dialect.of_standard_prefixForm? hf
  have hdone : p.current.kind ∉ [Kind.illegal, .int, .lbrace, .rbrace] → D p :=
    fun hne => h.settle hp (Token.ordinary_of_kind rfl hne)
  cases f with
  | identifier => exact hdone (by simp [hk])
  | integer =>
    change Leads D U (Form.integer p)
    rw [Form.integer, current_bind]
    rcases hv : Numeral.value? p.current.literal with _ | n
    · exact h.refuse hp rfl
    · exact h.settle hp (Token.ordinary_of_int hk hv)
  | boolean => exact hdone (by rcases hk with hk | hk <;> simp [hk])
  | operator => exact h.prefixOp hexpr p (hdone (by rcases hk with hk | hk <;> simp [hk]))
  | group => exact h.group hexpr p (hdone (by simp [hk]))
  | cond => exact h.cond hexpr hblock p (hdone (by simp [hk]))
  | func => exact h.func hblock p (hdone (by simp [hk]))

theorem expression (q : Precedence) : Meets F (Form.expression expr q) D U :=
  (h.start hexpr hblock).bind fun left => meets_ask.bind fun n => h.extendUpTo hexpr q n left

end

end BraceDiscipline

namespace Discipline

variable {F D U W : Parser → Prop} {expr : Precedence → Action Expr} {F' : Parser → Prop}

/-- A row of statements, each of which starts where the token has not been
    looked at. -/
theorem stmts (hstart : ∀ p, F p → ¬p.atEnd → F' p) (hstmt : Meets F' (Form.stmt expr) W W)
    (hnext : ∀ p, W p → F p.advance) (stop : List Kind) {p : Parser} (hp : F p) :
    F (Form.stmts expr stop p).2 := by
  have hloop : ∀ n p, F p → F (Form.stmtsUpTo expr stop n p).2 := by
    intro n
    induction n with
    | zero => exact fun _ hp => hp
    | succ n ih =>
      intro p hp
      rw [Form.stmtsUpTo]
      split
      · exact hp
      next hstop =>
      have hend : ¬p.atEnd := fun he => hstop (by simp [he])
      have hq := hstmt p (hstart p hp hend)
      refine ih _ (hnext _ ?_)
      rcases hr : Form.stmt expr p with ⟨_ | s, q⟩ <;> rw [hr] at hq <;> exact hq
  exact hloop _ p hp

/-- A block ends at a closing brace or at the end of the text. -/
theorem block (h : Discipline F D U) (hf : ∀ q, Forward (expr q))
    (hstmts : ∀ p, F p → F (Form.stmts expr [.rbrace] p).2) :
    Meets D (total (Form.block expr)) D U := by
  intro p hp
  have hq := h.move hp
  refine h.settle (hstmts _ hq) ?_
  rcases Form.stops_stmts hf [.rbrace] (h.plain_fresh hq).getLast? with hs | hs
  · exact Token.legal_of_kind (eq_of_beq hs) (by decide)
  · exact Token.legal_of_kind (List.mem_singleton.1 hs) (by decide)

end Discipline

/-! ### Readers -/

/-- A discipline that is the same at every depth of nesting, and in which
    whatever was given up is over with the next token. -/
structure SteadyDiscipline (F D U : Parser → Prop) : Prop extends Discipline F D U where
  weaken {p : Parser} : D p → U p
  recover {p : Parser} : U p → F p.advance
  skip {p : Parser} : U p → p.peek.kind = .semicolon → U p.advance
  enter {p : Parser} : F p → F p.enter
  leave_done {p : Parser} : D p → D p.leave
  leave_undone {p : Parser} : U p → U p.leave

namespace SteadyDiscipline

variable {F D U : Parser → Prop} (h : SteadyDiscipline F D U)

include h

/-- A row of statements under a steady discipline, as each of them ends where
    the parser can move on. -/
theorem stmts {expr : Precedence → Action Expr} (hexpr : ∀ q, Meets F (expr q) D U)
    (stop : List Kind) {p : Parser} (hp : F p) : F (Form.stmts expr stop p).2 := by
  have hstmt : Meets F (Form.stmt expr) U U :=
    h.toDiscipline.braces.stmt (fun q => (hexpr q).weaken fun _ => h.weaken) fun _ => h.skip
  exact Discipline.stmts (fun _ hp _ => hp) hstmt (fun _ => h.recover) stop hp

/-- By induction on the levels of nesting that are left: with none, the current
    token is blamed. -/
theorem expressionWithin : ∀ n q, Meets F (expressionWithin n q) D U
  | 0, _ => fun _ hp => h.refuse hp rfl
  | n + 1, q => by
    have hexpr := expressionWithin n
    have hblock := h.block (forward_expressionWithin n) fun _ => h.stmts hexpr [.rbrace]
    exact (h.braces.expression hexpr hblock q).nested (fun _ => h.enter) (fun _ => h.leave_done)
      fun _ => h.leave_undone

/-- A program under a steady discipline, whatever is wrong with the text. -/
theorem program {p : Parser} (hp : F p) (hd : p.depth = 0) : F p.program.2 := by
  rw [Parser.program_eq hd]
  exact h.stmts (h.expressionWithin maxDepth) [] hp

end SteadyDiscipline

end ScriptFront

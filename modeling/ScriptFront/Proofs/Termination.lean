import ScriptFront.Proofs.Position

/-!
# Parsing ends

Whatever a client does with a parser, and however faulty the text is: reading
comes to an end, and never leads back (`Parser.exec_ends`). It is only the end of
the text itself that must not continue an expression, since a parser that moves
on there stays where it is.

Two things say that the bounds of the loops are never felt. Without any bound,
each loop comes to an end where the bounded one does (`Parser.loopsEnd`). And
greater bounds make no difference to anything that a client may ask for
(`Parser.exec_padded`): loops are bounded by the number of tokens ahead, so all
of them may take more turns in a parser that has more ends of the text behind the
first one (`Parser.padded`), and sees the same tokens otherwise.

How deeply the forms call each other is bounded by `maxDepth`, which belongs to
the language and is no such bound.
-/

namespace ScriptFront

/-- The functions that read the expressions inside of forms. -/
def IsReader (expr : Precedence → Action Expr) : Prop :=
  expr = Parser.expression ∨ ∃ levels, expr = expressionWithin levels

theorem IsReader.forward {expr : Precedence → Action Expr} (h : IsReader expr) :
    ∀ q, Action.Forward (expr q) := by
  obtain rfl | ⟨levels, rfl⟩ := h
  · exact Parser.forward_expression
  · exact forward_expressionWithin levels

namespace Parser

/-- The loops of all forms end where the parser stands, and what comes out of them
    is what comes out when they may take `n` turns. -/
structure LoopsEnd (p : Parser) (expr : Precedence → Action Expr) (n : Nat) : Prop where
  statements (stop : List Kind) :
    Loops (Form.stmtTurn expr stop) ([], p) (Form.stmtsUpTo expr stop n p)
  arguments : Loops (Action.itemTurn .comma (Form.argument expr)) ([], p)
    (Action.repeatedUpTo .comma (Form.argument expr) n p)
  parameters : Loops (Action.itemTurn .comma Form.parameter) ([], p)
    (Action.repeatedUpTo .comma Form.parameter n p)
  operators (q : Precedence) (left : Expr) :
    Loops (Form.operatorTurn expr q) (left, p) (Form.extendUpTo expr q n left p)

/-- As many turns as there are tokens ahead are enough. -/
theorem loopsEnd {p : Parser} {expr : Precedence → Action Expr} {n : Nat} (hp : p.Proper)
    (h : ∀ q, Action.Forward (expr q)) (hn : p.ahead.length ≤ n) : p.LoopsEnd expr n where
  statements stop := Form.loops_stmtsUpTo h [] hp.getLast? hn
  arguments := by
    simpa using Action.loops_repeatedUpTo (Form.forward_argument h) (by decide) [] hp hn
  parameters := by
    simpa using Action.loops_repeatedUpTo Form.forward_parameter (by decide) [] hp hn
  operators q left := Form.loops_extendUpTo h left hp hn

end Parser

/-! ### Greater bounds -/

namespace Parser

/-- The parser with `n` more ends of the text ahead, behind all other tokens. It sees
    the same tokens, but its loops may take `n` more turns. -/
def padded (p : Parser) (n : Nat) : Parser := { p with ahead := p.ahead ++ List.replicate n .eof }

variable {p q : Parser} {n : Nat}

@[simp] theorem dialect_padded : (p.padded n).dialect = p.dialect := rfl

@[simp] theorem depth_padded : (p.padded n).depth = p.depth := rfl

/-- The current token is the same, as it is the end behind all others. -/
@[simp] theorem current_padded : (p.padded n).current = p.current := by
  rw [current, current, padded]
  cases p.ahead with
  | nil => cases n <;> rfl
  | cons t ts => rfl

@[simp] theorem peek_padded : (p.padded n).peek = p.peek := by
  rw [peek, peek, padded]
  rcases p.ahead with _ | ⟨t, _ | ⟨u, us⟩⟩
  · rcases n with _ | _ | n <;> rfl
  · cases n <;> rfl
  · rfl

@[simp] theorem atEnd_padded : (p.padded n).atEnd = p.atEnd := by rw [atEnd, current_padded, atEnd]

/-- The same form continues an expression in a padded parser. -/
@[simp] theorem continuation?_padded {r : Precedence} :
    (p.padded n).continuation? r = p.continuation? r := by
  rw [continuation?, peek_padded, dialect_padded, continuation?]

theorem length_padded : (p.padded n).ahead.length = p.ahead.length + n := by
  simp [padded]

/-- Advancing passes the same token in both. -/
@[simp] theorem advance_padded : (p.padded n).advance = p.advance.padded n := by
  rw [advance, atEnd_padded, advance]
  split
  · rfl
  next h =>
    -- As the text has not ended, there is a token to be passed.
    cases hp : p.ahead with
    | nil => simp [atEnd, current, hp, Token.eof] at h
    | cons t ts => simp [padded, hp]

end Parser

namespace Action

variable {α β : Type} {x : Action α} {p : Parser} {n : Nat}

/-- Whether it makes no difference to an action that only moves forward how many
    turns its loops may take, as long as they are as many as there are tokens
    ahead. -/
structure Ample (x : Action α) : Prop where
  forward : Forward x
  padded : ∀ {p : Parser}, p.Proper → ∀ n, x (p.padded n) = (x p).map id (·.padded n)

/-- What comes after an ample action starts from a padded parser again. -/
theorem Ample.bind_padded (hx : Ample x) (hp : p.Proper) {f g : α → Action β}
    (hf : ∀ a q, p.Later q → g a (q.padded n) = (f a q).map id (·.padded n)) :
    (x >>= g) (p.padded n) = ((x >>= f) p).map id (·.padded n) := by
  rw [bind_apply, bind_apply, hx.padded hp]
  rcases h : x p with ⟨_ | a, q⟩
  · rfl
  · exact hf a q (hx.forward.later h)

theorem ample_bind {f : α → Action β} (hx : Ample x) (hf : ∀ a, Ample (f a)) :
    Ample (x >>= f) :=
  ⟨hx.forward.bind fun a => (hf a).forward, fun hp _ =>
    hx.bind_padded hp fun a _ hq => (hf a).padded (hp.later hq) _⟩

theorem ample_advance : Ample advance :=
  ⟨forward_advance, fun _ _ => Prod.ext rfl Parser.advance_padded⟩

/-- The next token is the same, and so is what is said of it. -/
theorem ample_expect (k : Kind) : Ample (expect k) := by
  refine ⟨forward_expect k, fun {p} _ n => ?_⟩
  rw [expect, Parser.peek_padded, expect]
  split
  · exact Prod.ext rfl Parser.advance_padded
  · rw [Parser.blamePeek, Parser.peek_padded, Parser.advance_padded]
    rfl

theorem ample_refuse (cause : Cause) : Ample (refuse cause : Action α) := by
  refine ⟨forward_refuse cause, fun {p} _ n => ?_⟩
  change (none, (p.padded n).blameCurrent cause) = _
  rw [Parser.blameCurrent, Parser.current_padded]
  rfl

/-- What cannot fail is ample if it moves forward and does the same in a padded
    parser. -/
theorem ample_total {f : Parser → α × Parser} :
    Ample (total f) ↔ (∀ p : Parser, p.Later (f p).2) ∧
      ∀ p : Parser, p.Proper → ∀ n, f (p.padded n) = (f p).map id (·.padded n) := by
  refine ⟨fun h => ⟨h.forward, fun p hp n => ?_⟩, fun h => ⟨h.1, fun {p} hp n => ?_⟩⟩
  · have hf := Prod.ext_iff.1 (h.padded hp n)
    exact Prod.ext (Option.some.inj hf.1) hf.2
  · change (some (f (p.padded n)).1, (f (p.padded n)).2) = _
    rw [h.2 p hp n]
    rfl

/-- By recursion on the bound: both loops make the same turns, and the one with
    more to go stops where the other does. -/
theorem repeatedUpTo_padded {k : Kind} (hx : Ample x) (hk : k ≠ .eof) : ∀ m {p : Parser},
    p.Proper → p.ahead.length ≤ m → ∀ n,
    repeatedUpTo k x (m + n) (p.padded n) = (repeatedUpTo k x m p).map id (·.padded n)
  | 0, p, ⟨⟨ts, hts, _⟩, _⟩, hm, _ => by simp [hts] at hm
  | m + 1, p, hp, hm, n => by
    rw [Nat.add_right_comm, repeatedUpTo, peekIs_bind, Parser.peek_padded, repeatedUpTo,
      peekIs_bind]
    split
    next hpeek =>
      have hlt := Parser.length_advance_lt (hp.not_atEnd (beq_iff_eq.1 hpeek ▸ hk))
      rw [advance_bind, Parser.advance_padded, advance_bind]
      refine hx.bind_padded hp.advance fun a q hq => ?_
      have hle := hq.ahead.length_le
      rw [bind_apply, bind_apply,
        repeatedUpTo_padded hx hk m (hp.advance.later hq) (by omega) n]
      rcases repeatedUpTo k x m q with ⟨_ | as, r⟩ <;> rfl
    · rfl

/-- A repetition is ample, though its bound is the number of tokens ahead. -/
theorem ample_repeated {k : Kind} (hx : Ample x) (hk : k ≠ .eof) : Ample (repeated k x) := by
  refine ⟨hx.forward.repeated, fun {p} hp n => ?_⟩
  rw [repeated, Parser.length_padded]
  exact repeatedUpTo_padded hx hk _ hp (Nat.le_refl _) n

end Action

namespace Form

open ScriptFront.Action

variable {expr : Precedence → Action Expr}

/-- By recursion on the bound: the loop over operators takes the same turns in
    both. -/
theorem extendUpTo_padded (hi : ∀ left r f, Ample (infixOf expr left r f)) (q : Precedence) :
    ∀ m {left : Expr} {p : Parser}, p.Proper → p.ahead.length ≤ m → ∀ n,
      extendUpTo expr q (m + n) left (p.padded n) =
        (extendUpTo expr q m left p).map id (·.padded n)
  | 0, _, p, ⟨⟨ts, hts, _⟩, _⟩, hm, _ => by simp [hts] at hm
  | m + 1, left, p, hp, hm, n => by
    rw [Nat.add_right_comm, extendUpTo, ask_bind, Parser.continuation?_padded, extendUpTo, ask_bind]
    rcases hc : p.continuation? q with _ | ⟨r, f⟩
    · rfl
    · have hlt := Parser.length_advance_lt (hp.not_atEnd (peek_ne_eof hp hc))
      change (infixOf expr left r f >>= extendUpTo expr q (m + n)) (p.padded n).advance =
        ((infixOf expr left r f >>= extendUpTo expr q m) p.advance).map id (·.padded n)
      rw [Parser.advance_padded]
      refine (hi left r f).bind_padded hp.advance fun e s hs => ?_
      have hle := hs.ahead.length_le
      exact extendUpTo_padded hi q m (hp.advance.later hs) (by omega) n

/-- By recursion on the bound: so does the loop over statements. -/
theorem stmtsUpTo_padded (hs : Ample (stmt expr)) (stop : List Kind) : ∀ m {p : Parser},
    p.Proper → p.ahead.length ≤ m → ∀ n,
      stmtsUpTo expr stop (m + n) (p.padded n) = (stmtsUpTo expr stop m p).map id (·.padded n)
  | 0, p, ⟨⟨ts, hts, _⟩, _⟩, hm, _ => by simp [hts] at hm
  | m + 1, p, hp, hm, n => by
    rw [Nat.add_right_comm, stmtsUpTo, Parser.atEnd_padded, Parser.current_padded, stmtsUpTo]
    split
    · rfl
    next hstop =>
      have hend : ¬p.atEnd := fun he => hstop (by rw [he, Bool.true_or])
      have hf := hs.forward p
      have hlt := hf.length_advance_lt hend
      have hrec := stmtsUpTo_padded hs stop m (hp.later hf).advance (by omega) n
      rw [hs.padded hp n]
      simp only [Prod.map_fst, Prod.map_snd, id_eq, Parser.advance_padded, hrec]
      rfl

end Form

namespace Action

/-- Greater bounds make no difference to any form. -/
theorem compositional_ample : Compositional Ample where
  pure a := ⟨forward_pure a, fun _ _ => rfl⟩
  bind := ample_bind
  look f := ⟨forward_ask _, fun {p} _ n => by
    change (some (f _ (p.padded n).current (p.padded n).peek _), _) = _
    rw [Parser.current_padded, Parser.peek_padded]
    rfl⟩
  advance := ample_advance
  expect := ample_expect
  refuse := ample_refuse
  total {_ x _} hx := ample_total.2 ⟨hx.forward, fun _ hp n => hx.padded hp n⟩
  nested {_ x} hx := ⟨fun p => (hx.forward p.enter).leave, fun {p} hp n => by
    have h := hx.padded (p := p.enter) ⟨hp.ahead, hp.infixForm?⟩ n
    change ((x (p.enter.padded n)).1, (x (p.enter.padded n)).2.leave) = _
    rw [h]
    rfl⟩
  items hi := ample_repeated hi (by decide)
  operators {f _} q left hi :=
    ⟨compositional_forward.operators (g := f) q left fun e r c => (hi e r c).forward,
      fun {p} hp n => by
      rw [Form.extend, Parser.length_padded]
      exact Form.extendUpTo_padded hi q _ hp (Nat.le_refl _) n⟩
  statements {f _} stop hs :=
    ample_total.2 ⟨compositional_forward.statements (g := f) stop hs.forward, fun p hp n => by
      rw [Form.stmts, Parser.length_padded]
      exact Form.stmtsUpTo_padded hs stop _ hp (Nat.le_refl _) n⟩

end Action

/-! ### Whatever a client does -/

namespace Parser

variable {p : Parser} {c : Command} {commands : List Command}

theorem tryEnter_padded (p : Parser) (n : Nat) :
    (p.padded n).tryEnter = p.tryEnter.map id (·.padded n) := by
  rw [tryEnter, tryEnter, depth_padded, blameCurrent, current_padded]
  split <;> rfl

/-- Greater bounds for the loops make no difference to any command. -/
theorem exec_padded (hp : p.Proper) (c : Command) (n : Nat) :
    (p.padded n).exec c = (p.exec c).map id (·.padded n) := by
  have h := Action.compositional_ample
  have hmap : ∀ {α : Type} {r r' : α × Parser} (f : α → Answer),
      r' = r.map id (·.padded n) → r'.map f id = (r.map f id).map id (·.padded n) := by
    rintro α r r' f rfl
    rfl
  cases c with
  | report | setStmt | setPrefix | setInfix => rfl
  | currentIs | currentPrecedence => simp [exec, currentPrecedence]
  | peekIs | peekPrecedence => simp [exec, peekPrecedence]
  | advance => exact Prod.ext rfl advance_padded
  | expect k => exact hmap (fun a => .flag a.isSome) ((h.expect k).padded hp n)
  | enter => exact hmap _ (p.tryEnter_padded n)
  | leave =>
    rw [exec, exec, depth_padded]
    split <;> rfl
  | program => exact hmap _ ((Action.ample_total.1 h.program).2 p hp n)
  | block => exact hmap _ ((Action.ample_total.1 (h.block h.expression)).2 p hp n)
  | stmt => exact hmap _ ((h.stmt h.expression).padded hp n)
  | stmtOf f => exact hmap _ ((h.stmtOf h.expression f).padded hp n)
  | expression q => exact hmap _ ((h.expression q).padded hp n)
  | prefixOf f => exact hmap _ ((h.prefixOf h.expression f).padded hp n)
  | infixOf left q f => exact hmap _ ((h.infixOf h.expression left q f).padded hp n)

/-- What the end of the text continues in the language is changed by one command
    only. -/
theorem infixForm?_eof_exec (p : Parser) (hc : ∀ q f, c ≠ .setInfix .eof q f) :
    (p.exec c).2.dialect.infixForm? .eof = p.dialect.infixForm? .eof := by
  cases c with
  | setStmt | setPrefix => rfl
  | setInfix k q f => exact if_neg fun hk => hc q f (by rw [hk])
  | enter =>
    change p.tryEnter.2.dialect.infixForm? .eof = _
    rw [tryEnter]
    split <;> rfl
  | leave =>
    rw [exec]
    split <;> rfl
  | _ => rw [(p.later_exec rfl).dialect]

/-- How the end of the text continues expressions is as it was after commands that
    do not set it. -/
theorem infixForm?_eof_run (hc : ∀ q f, .setInfix .eof q f ∉ commands) :
    (p.run commands).dialect.infixForm? .eof = p.dialect.infixForm? .eof := by
  induction commands generalizing p with
  | nil => rfl
  | cons c commands ih =>
    have hrest := ih (p := (p.exec c).2) fun q f hm => hc q f (List.mem_cons_of_mem _ hm)
    exact hrest.trans (p.infixForm?_eof_exec fun q f he => hc q f (he ▸ List.mem_cons_self))

/-- Whatever a client does with a parser of a text, short of letting the end of the
    text continue an expression: reading ends. At all places ahead, each loop has
    an outcome, which the bounded loop finds if it may take as many turns as tokens
    are left. No command can tell greater bounds, or leads back. -/
theorem exec_ends (source : String) (commands : List Command)
    (hcommands : ∀ q f, .setInfix .eof q f ∉ commands) :
    let p := (ofString source).run commands
    (∀ s : Parser, s.dialect = p.dialect → s.ahead <:+ p.ahead → s.ahead ≠ [] →
      ∀ expr, IsReader expr → ∀ n, s.ahead.length ≤ n → s.LoopsEnd expr n) ∧
    ∀ c, (∀ n, (p.padded n).exec c = (p.exec c).map id (·.padded n)) ∧
      p.index ≤ (p.exec c).2.index := by
  intro p
  have hp : p.Proper :=
    (among_run (among_ofString source) (Token.getLast?_tokenize source) commands).proper
      (infixForm?_eof_run hcommands)
  exact ⟨fun s hd hs hne expr hexpr n hn => loopsEnd (hp.of_suffix hd hs hne) hexpr.forward hn,
    fun c => ⟨exec_padded hp c, p.index_le_exec c⟩⟩

/-- A list of parameters that is not closed, where a brace may open a group. -/
theorem exec_ends_function :
    let p := (ofString "fn(x, y { f(1, x + 2; } )").run [.setPrefix .rbrace .group, .advance]
    p.LoopsEnd expression 100 ∧
      (p.padded 7).exec .program = (p.exec .program).map id (·.padded 7) ∧
      p.index ≤ (p.exec .program).2.index ∧ (p.exec .program).2.index = 16 := by
  intro p
  obtain ⟨hloops, hexec⟩ := exec_ends "fn(x, y { f(1, x + 2; } )"
    [.setPrefix .rbrace .group, .advance] (by simp)
  exact ⟨hloops p rfl List.suffix_rfl (by decide +kernel) expression (.inl rfl) 100
    (by decide +kernel), (hexec .program).1 7, (hexec .program).2, by decide +kernel⟩

end Parser

end ScriptFront

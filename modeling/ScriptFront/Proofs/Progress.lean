import Mathlib.Data.List.Basic
import ScriptFront.Proofs.Composition

/-!
# Progress

Whatever is read, a parser only moves forward: it keeps its language, comes back
to the depth of nesting that it had, goes back to no token, and forgets no
report (`Parser.Later`). Moving forward is a compositional property
(`Action.compositional_forward`), so it is one of every form, of the reading of
expressions (`forward_expressionWithin`) and of programs
(`Parser.later_program`).

As the depth comes back, all statements of a program are read with the same
number of levels left (`program_eq`).
-/

namespace ScriptFront

namespace Parser

/-- `q` is `p` after some tokens were passed and some reports made. -/
structure Later (p q : Parser) : Prop where
  dialect : q.dialect = p.dialect
  depth : q.depth = p.depth
  ahead : q.ahead <:+ p.ahead
  index : q.index + q.ahead.length = p.index + p.ahead.length
  ends : p.ahead.getLast? = some .eof → q.ahead ≠ []
  reports : p.reports.toList <+: q.reports.toList

variable {p q r : Parser}

theorem Later.refl (p : Parser) : p.Later p :=
  ⟨rfl, rfl, List.suffix_rfl, rfl, by rintro h h'; simp [h'] at h, List.prefix_rfl⟩

/-- The end of the text stays the last token. -/
theorem Later.getLast? (h : p.Later q) (hp : p.ahead.getLast? = some .eof) :
    q.ahead.getLast? = some .eof := by
  have hne := h.ends hp
  obtain ⟨us, hus⟩ := h.ahead
  rwa [← hus, List.getLast?_append_of_ne_nil _ hne] at hp

/-- The index of the current token does not go back. -/
theorem Later.index_le (h : p.Later q) : p.index ≤ q.index := by
  have hindex := h.index
  have hle := h.ahead.length_le
  omega

theorem Later.trans (h : p.Later q) (h' : q.Later r) : p.Later r where
  dialect := h'.dialect.trans h.dialect
  depth := h'.depth.trans h.depth
  ahead := h'.ahead.trans h.ahead
  index := h'.index.trans h.index
  ends := fun hp => h'.ends (h.getLast? hp)
  reports := h.reports.trans h'.reports

theorem later_record (p : Parser) (r : Report) : p.Later (p.record r) :=
  { Later.refl p with reports := by simp [record] }

theorem ahead_advance (h : ¬p.atEnd) : p.advance.ahead = p.ahead.tail := by
  simp [advance, h]

/-- Fewer tokens are ahead after the current one, if it is not the end. -/
theorem length_tail_lt (h : ¬p.atEnd) : p.ahead.tail.length < p.ahead.length := by
  cases hp : p.ahead with
  | nil => simp [atEnd, current, hp, Token.eof] at h
  | cons t ts => simp

/-- Advancing goes forward, by a token or, at the end of the text, by none. -/
theorem later_advance (p : Parser) : p.Later p.advance := by
  by_cases h : p.atEnd
  · simpa [advance, h] using Later.refl p
  refine ⟨?_, ?_, ?_, ?_, fun hl => ?_, ?_⟩
  · simp [advance, h]
  · simp [advance, h]
  · rw [ahead_advance h]
    exact List.tail_suffix _
  · have := length_tail_lt h
    simp only [advance, h, Bool.false_eq_true, if_false, List.length_tail] at this ⊢
    omega
  · rw [ahead_advance h]
    -- The last token is the end of the text, so the one that was passed is
    -- another one, and it was not the last.
    rcases hp : p.ahead with _ | ⟨t, _ | ⟨u, us⟩⟩
    · simp [hp] at hl
    · simp only [hp, List.getLast?_singleton, Option.some.injEq] at hl
      simp [atEnd, current, hp, hl, Token.eof] at h
    · simp
  · simp [advance, h]

/-- Coming back to a depth, a parser is later than when it left it. -/
theorem Later.leave (h : p.enter.Later q) : p.Later q.leave where
  dialect := h.dialect
  depth := by simp [Parser.leave, h.depth, enter]
  ahead := h.ahead
  index := h.index
  ends := h.ends
  reports := h.reports

end Parser

namespace Action

variable {α β : Type}

/-- Whether an action only moves parsers forward. -/
def Forward (x : Action α) : Prop := ∀ p : Parser, p.Later (x p).2

theorem Forward.later {x : Action α} (h : Forward x) {p q : Parser} {a : Option α}
    (hx : x p = (a, q)) : p.Later q := by
  have hp := h p
  rwa [hx] at hp

theorem forward_pure (a : α) : Forward (pure a : Action α) := Parser.Later.refl

theorem forward_ask (f : Parser → α) : Forward (ask f) := Parser.Later.refl

theorem forward_advance : Forward advance := Parser.later_advance

/-- Whether the second of two actions is run or not, it does not go back behind
    the first one. -/
theorem later_bind (x : Action α) {f : α → Action β} (p : Parser) (hf : ∀ a, Forward (f a)) :
    (x p).2.Later ((x >>= f) p).2 := by
  rw [bind_apply]
  rcases x p with ⟨_ | a, q⟩
  · exact .refl q
  · exact hf a q

/-- One action after the other moves forward if both do. -/
theorem Forward.bind {x : Action α} {f : α → Action β} (hx : Forward x)
    (hf : ∀ a, Forward (f a)) : Forward (x >>= f) :=
  fun p => (hx p).trans (later_bind x p hf)

/-- The last step of an action makes its value and moves nothing. -/
theorem snd_bind_pure (x : Action α) (g : α → β) (p : Parser) :
    ((x >>= fun a => pure (g a)) p).2 = (x p).2 := by
  rw [bind_apply]
  rcases x p with ⟨_ | a, q⟩ <;> rfl

theorem Forward.bind_pure {x : Action α} (hx : Forward x) (g : α → β) :
    Forward (do let a ← x; pure (g a)) :=
  hx.bind fun a => forward_pure (g a)

/-- What cannot fail moves forward if the parser that it comes to is later. -/
theorem forward_total {f : Parser → α × Parser} (hf : ∀ p : Parser, p.Later (f p).2) :
    Forward (total f) := hf

theorem forward_refuse (cause : Cause) : Forward (refuse cause : Action α) :=
  fun p => p.later_record _

/-- A token that is not the expected one is reported and not passed. -/
theorem forward_expect (k : Kind) : Forward (expect k) := by
  intro p
  unfold expect
  split
  · exact p.later_advance
  · exact p.later_record _

/-- What is left of a form where all but its closing token was read. -/
theorem forward_expect_pure (k : Kind) (a : α) : Forward (do expect k; pure a) :=
  (forward_expect k).bind_pure fun _ => a

/-- All steps of actions only move forward. -/
theorem stepwise_forward : Stepwise Forward where
  pure := forward_pure
  bind := Forward.bind
  ask _ := forward_ask _
  advance := forward_advance
  expect := forward_expect
  refuse := forward_refuse
  total := forward_total
  nested hx p := (hx p.enter).leave

/-- Whatever is put together from the steps of actions only moves forward. -/
theorem compositional_forward : Compositional Forward := stepwise_forward.compositional

/-- A repetition of items only moves forward if the item does. -/
theorem Forward.repeated {k : Kind} {item : Action α} (h : Forward item) :
    Forward (repeated k item) :=
  stepwise_forward.repeated (y := item) h

theorem Forward.parenthesised {item : Action α} (h : Forward item) :
    Forward (parenthesised item) :=
  compositional_forward.parenthesised h

/-- What is left of a list between parentheses after its first item. -/
theorem Forward.moreItems {item : Action α} (h : Forward item) (x : α) :
    Forward (do
      let xs ← Action.repeated .comma item
      expect .rparen
      pure (x :: xs)) :=
  h.repeated.bind fun xs => forward_expect_pure .rparen (x :: xs)

end Action

/-! ### Forms -/

namespace Form

open ScriptFront.Action

variable {expr : Precedence → Action Expr} (h : ∀ q, Forward (expr q))

theorem later_skipSemicolon (p : Parser) : p.Later (skipSemicolon p) :=
  compositional_forward.skipSemicolon p

theorem forward_parameter : Forward parameter := compositional_forward.parameter

/-- What is left of the value of a statement after its expression. -/
theorem forward_valueEnd (v : Option Expr) :
    Forward (do
      update skipSemicolon
      pure v) := by
  have hskip : Forward (update skipSemicolon) := later_skipSemicolon
  exact hskip.bind_pure fun _ => v

include h

theorem forward_value : Forward (value expr) := compositional_forward.value h

theorem forward_stmt : Forward (stmt expr) := compositional_forward.stmt h

theorem later_stmts (stop : List Kind) (p : Parser) : p.Later (stmts expr stop p).2 :=
  compositional_forward.stmts h stop p

theorem forward_block : Forward (total (block expr)) := compositional_forward.block h

theorem forward_alternative : Forward (alternative expr) := compositional_forward.alternative h

theorem forward_argument : Forward (argument expr) := compositional_forward.argument h

theorem forward_infixOf (left : Expr) (p : Precedence) (f : InfixForm) :
    Forward (infixOf expr left p f) :=
  compositional_forward.infixOf h left p f

theorem forward_extend (p : Precedence) (left : Expr) : Forward (extend expr p left) :=
  compositional_forward.extend h p left

theorem forward_start : Forward (start expr) := compositional_forward.start h

/-! ### What is left of a form

An action that is given up leaves the rest of its form undone. Each rest only
moves forward as well, and is shown to from the one after it. -/

/-- What is left of a `let` statement after its `=`. -/
theorem forward_letValue (token name : Token) :
    Forward (do
      advance
      let v ← value expr
      pure (Stmt.letStmt token ⟨name, name.literal⟩ v)) :=
  forward_advance.bind fun _ => (forward_value h).bind_pure _

/-- What is left of a `let` statement after its name. -/
theorem forward_letRest (token : Token) :
    Forward (do
      let name ← current
      expect .assign
      advance
      let v ← value expr
      pure (Stmt.letStmt token ⟨name, name.literal⟩ v)) :=
  (forward_ask _).bind fun name => (forward_expect _).bind fun _ => forward_letValue h token name

/-- What is left of the second block of a choice after `else`. -/
theorem forward_alternativeBlock :
    Forward (do
      let b ← total (block expr)
      pure (some b)) :=
  (forward_block h).bind_pure some

/-- What is left of a choice after the brace that opens its first block. -/
theorem forward_condBlocks (token : Token) (condition : Expr) :
    Forward (do
      let consequence ← total (block expr)
      let alternative ← alternative expr
      pure (Expr.cond token condition consequence alternative)) :=
  (forward_block h).bind fun _ => (forward_alternative h).bind_pure _

/-- What is left of a choice after the parenthesis that closes its condition. -/
theorem forward_condBraces (token : Token) (condition : Expr) :
    Forward (do
      expect .lbrace
      let consequence ← total (block expr)
      let alternative ← alternative expr
      pure (Expr.cond token condition consequence alternative)) :=
  (forward_expect _).bind fun _ => forward_condBlocks h token condition

/-- What is left of a choice after its condition. -/
theorem forward_condClose (token : Token) (condition : Expr) :
    Forward (do
      expect .rparen
      expect .lbrace
      let consequence ← total (block expr)
      let alternative ← alternative expr
      pure (Expr.cond token condition consequence alternative)) :=
  (forward_expect _).bind fun _ => forward_condBraces h token condition

/-- What is left of a choice after the parenthesis that opens its condition. -/
theorem forward_condRest (token : Token) :
    Forward (do
      advance
      let condition ← expr .lowest
      expect .rparen
      expect .lbrace
      let consequence ← total (block expr)
      let alternative ← alternative expr
      pure (Expr.cond token condition consequence alternative)) :=
  forward_advance.bind fun _ => (h _).bind fun condition => forward_condClose h token condition

/-- What is left of a function after its parameters. -/
theorem forward_funcBraces (token : Token) (parameters : List Ident) :
    Forward (do
      expect .lbrace
      let body ← total (block expr)
      pure (Expr.func token parameters body)) :=
  (forward_expect _).bind fun _ => (forward_block h).bind_pure _

/-- What is left of a function after the parenthesis that opens its parameters. -/
theorem forward_funcRest (token : Token) :
    Forward (do
      let parameters ← parenthesised parameter
      expect .lbrace
      let body ← total (block expr)
      pure (Expr.func token parameters body)) :=
  forward_parameter.parenthesised.bind fun parameters => forward_funcBraces h token parameters

end Form

/-- Reading an expression within `n` levels of nesting only moves forward. -/
theorem forward_expressionWithin (n : Nat) (p : Precedence) :
    Action.Forward (expressionWithin n p) :=
  Action.compositional_forward.expressionWithin n p

/-- Reading an expression only moves forward. -/
theorem Parser.forward_expression (q : Precedence) : Action.Forward (Parser.expression q) :=
  Action.compositional_forward.expression q

/-- Reading a program only moves forward. -/
theorem Parser.later_program (p : Parser) : p.Later p.program.2 :=
  Action.compositional_forward.program p

/-! ### Levels of nesting -/

namespace Action

variable {α : Type} {d : Nat}

/-- Whether two actions do the same at the depth of nesting `d`, and come back to
    it. -/
def AgreeAt (d : Nat) (x y : Action α) : Prop :=
  ∀ p : Parser, p.depth = d → x p = y p ∧ (x p).2.depth = d

/-- An action that comes back to its depth does the same as itself there. -/
theorem Forward.agreeAt {x : Action α} (h : Forward x) : AgreeAt d x x :=
  fun p hp => ⟨rfl, (h p).depth.trans hp⟩

/-- Doing the same at a depth of nesting is kept by all steps. -/
theorem stepCongruence_agreeAt (d : Nat) : StepCongruence (AgreeAt d) where
  pure a := (forward_pure a).agreeAt
  bind {_ _ x y f g} hx hf p hp := by
    obtain ⟨hxy, hd⟩ := hx p hp
    rw [bind_apply, bind_apply, ← hxy]
    rcases hr : x p with ⟨_ | a, q⟩ <;> rw [hr] at hd
    · exact ⟨rfl, hd⟩
    · exact hf a q hd
  ask _ := (forward_ask _).agreeAt
  advance := forward_advance.agreeAt
  expect k := (forward_expect k).agreeAt
  refuse cause := (forward_refuse cause).agreeAt
  total hx p hp := ⟨congrArg (fun r => (some r.1, r.2)) (hx p hp).1, (hx p hp).2⟩

/-- Agreement at a depth is kept by the loops and by every form. -/
theorem congruence_agreeAt (d : Nat) : Congruence (AgreeAt d) :=
  (stepCongruence_agreeAt d).congruence

/-- At a depth of nesting, expressions are read with the levels that are left
    there. -/
theorem agreeAt_expression (d : Nat) (q : Precedence) :
    AgreeAt d (Parser.expression q) (expressionWithin (maxDepth - d) q) := by
  rintro p rfl
  exact ⟨rfl, (Parser.forward_expression q p).depth⟩

end Action

/-- Outside of all expressions, every level of nesting is left. -/
theorem Parser.program_eq {p : Parser} (hp : p.depth = 0) :
    p.program = Form.program (expressionWithin maxDepth) p := by
  have h : (some p.program.1, p.program.2) = _ :=
    ((Action.congruence_agreeAt 0).program (Action.agreeAt_expression 0) p hp).1
  rw [Action.total, Prod.mk.injEq, Option.some.injEq] at h
  exact Prod.ext h.1 h.2

end ScriptFront

import ScriptFront.Parser.Read

/-!
# Properties of all actions

A relation between actions is a *congruence* if it holds of the steps and of the
loops that all actions consist of, and of what is put together from actions that
it relates. It then relates every form to itself, whatever reads the expressions
inside it, as long as it relates the two readers (`Congruence.stmt` and the
statements around it).

The steps look at the two tokens in sight, at the language and at the depth of
nesting (`Congruence.look`), but at nothing that is past: which token of the text
is the current one, and what was reported, is for the steps that move and blame
alone. Only the loops know how many tokens are left, as that is their bound. A
relation that holds of steps that look at all of those (`StepCongruence.ask`)
holds of the loops by their recursion (`StepCongruence.congruence`).

A property of actions is *compositional* if it is such a relation, between an
action that has it and any other one, and is kept by going a level of nesting
deeper. It is then one of the readers of expressions, statements, blocks and
programs as well (`Compositional.expression` and the statements after it).
-/

namespace ScriptFront

namespace Action

variable {α β : Type}

/-- A relation between actions that the steps and the loops of actions keep. -/
structure Congruence (R : ∀ {α : Type}, Action α → Action α → Prop) : Prop where
  pure {α : Type} (a : α) : R (pure a) (pure a : Action α)
  bind {α β : Type} {x y : Action α} {f g : α → Action β} :
    R x y → (∀ a, R (f a) (g a)) → R (x >>= f) (y >>= g)
  look {α : Type} (f : Dialect → Token → Token → Nat → α) :
    R (ask fun p => f p.dialect p.current p.peek p.depth)
      (ask fun p => f p.dialect p.current p.peek p.depth)
  advance : R advance advance
  expect (k : Kind) : R (expect k) (expect k)
  refuse {α : Type} (cause : Cause) : R (refuse cause) (refuse cause : Action α)
  total {α : Type} {x y : Action α} : R x y → R (total x) (total y)
  items {α : Type} {x y : Action α} : R x y → R (repeated .comma x) (repeated .comma y)
  operators {f g : Precedence → Action Expr} (p : Precedence) (left : Expr) :
    (∀ left q c, R (Form.infixOf f left q c) (Form.infixOf g left q c)) →
      R (Form.extend f p left) (Form.extend g p left)
  statements {f g : Precedence → Action Expr} (stop : List Kind) :
    R (Form.stmt f) (Form.stmt g) →
      R (Action.total (Form.stmts f stop)) (Action.total (Form.stmts g stop))

/-- A relation between actions that their steps keep, even those that look at all
    tokens that are left. -/
structure StepCongruence (R : ∀ {α : Type}, Action α → Action α → Prop) : Prop where
  pure {α : Type} (a : α) : R (pure a) (pure a : Action α)
  bind {α β : Type} {x y : Action α} {f g : α → Action β} :
    R x y → (∀ a, R (f a) (g a)) → R (x >>= f) (y >>= g)
  ask {α : Type} (f : Dialect → List Token → Nat → α) :
    R (ask fun p => f p.dialect p.ahead p.depth) (ask fun p => f p.dialect p.ahead p.depth)
  advance : R advance advance
  expect (k : Kind) : R (expect k) (expect k)
  refuse {α : Type} (cause : Cause) : R (refuse cause) (refuse cause : Action α)
  total {α : Type} {x y : Action α} : R x y → R (total x) (total y)

/-- A property that all actions have if the steps and the loops that they consist
    of do. -/
structure Compositional (P : ∀ {α : Type}, Action α → Prop) : Prop
    extends Congruence fun x _ => P x where
  nested {α : Type} {x : Action α} : P x → P (nested x)

/-- A property that all actions have if the steps that they consist of do, even
    those that look at all tokens that are left. -/
structure Stepwise (P : ∀ {α : Type}, Action α → Prop) : Prop
    extends StepCongruence fun x _ => P x where
  nested {α : Type} {x : Action α} : P x → P (nested x)

/-- Passing a semicolon is a look at the next token and a move, if it is one. -/
theorem skipSemicolon_eq :
    update Form.skipSemicolon = (do if ← peekIs .semicolon then advance) := by
  funext p
  simp only [update, Form.skipSemicolon, bind_apply, peekIs, ask, advance, beq_iff_eq]
  split <;> rfl

/-- A turn of the loop over statements: a statement that could not be read is
    left out. -/
theorem stmtsUpTo_succ (expr : Precedence → Action Expr) (stop : List Kind) (n : Nat) :
    total (Form.stmtsUpTo expr stop (n + 1)) = (do
      if ← ask fun p => p.atEnd || stop.contains p.current.kind then pure []
      else
        let s ← total (Form.stmt expr)
        advance
        let ss ← total (Form.stmtsUpTo expr stop n)
        pure (s.toList ++ ss)) := by
  funext p
  simp only [total, Form.stmtsUpTo, bind_apply, ask]
  split <;> rfl

/-- A block as an action: it keeps its opening brace and passes it before its
    statements are read. -/
theorem total_block (expr : Precedence → Action Expr) :
    total (Form.block expr) = (do
      let o ← current
      advance
      let ss ← total (Form.stmts expr [.rbrace])
      pure (Block.mk o ss)) := rfl

/-! ### Loops -/

namespace StepCongruence

variable {R : ∀ {α : Type}, Action α → Action α → Prop} (h : StepCongruence R)
  {f g : Precedence → Action Expr}

include h

/-- By recursion on the bound: a turn is `item` after one more token of kind
    `k`. -/
theorem repeatedUpTo {k : Kind} {x y : Action α} (hi : R x y) :
    ∀ n, R (repeatedUpTo k x n) (repeatedUpTo k y n)
  | 0 => h.pure []
  | n + 1 => by
    have hpeek : R (peekIs k) (peekIs k) := h.ask fun _ ts _ => (ts.tail.headD .eof).kind == k
    refine h.bind hpeek fun b => ?_
    cases b with
    | false => exact h.pure []
    | true =>
      refine h.bind h.advance fun _ => ?_
      refine h.bind hi fun a => ?_
      exact h.bind (repeatedUpTo hi n) fun as => h.pure (a :: as)

/-- The bound of a repetition is looked up first. -/
theorem repeated {k : Kind} {x y : Action α} (hi : R x y) : R (repeated k x) (repeated k y) :=
  h.bind (h.ask fun _ ts _ => ts.length) (h.repeatedUpTo hi)

/-- By recursion on the bound: a turn reads the operator that continues `left`,
    if there is one, and what goes on from there. -/
theorem extendUpTo (hi : ∀ left q c, R (Form.infixOf f left q c) (Form.infixOf g left q c))
    (p : Precedence) : ∀ n left, R (Form.extendUpTo f p n left) (Form.extendUpTo g p n left)
  | 0, left => h.pure left
  | n + 1, left => by
    have hnext : R (Action.ask (·.continuation? p)) (Action.ask (·.continuation? p)) :=
      h.ask fun d ts _ => if (ts.tail.headD .eof).kind = .semicolon then none
        else (d.infixForm? (ts.tail.headD .eof).kind).filter
          fun c : Precedence × InfixForm => p < c.1
    refine h.bind hnext fun c => ?_
    rcases c with _ | ⟨q, c⟩
    · exact h.pure left
    · refine h.bind h.advance fun _ => ?_
      exact h.bind (hi left q c) fun e => extendUpTo hi p n e

/-- By recursion on the bound: a turn is one statement. -/
theorem stmtsUpTo (hs : R (Form.stmt f) (Form.stmt g)) (stop : List Kind) :
    ∀ n, R (Action.total (Form.stmtsUpTo f stop n)) (Action.total (Form.stmtsUpTo g stop n))
  | 0 => h.pure []
  | n + 1 => by
    rw [stmtsUpTo_succ, stmtsUpTo_succ]
    have hstop : R (Action.ask fun p => p.atEnd || stop.contains p.current.kind)
        (Action.ask fun p => p.atEnd || stop.contains p.current.kind) :=
      h.ask fun _ ts _ => (ts.headD .eof).kind == .eof || stop.contains (ts.headD .eof).kind
    refine h.bind hstop fun b => ?_
    cases b with
    | true => exact h.pure []
    | false =>
      refine h.bind (h.total hs) fun s => ?_
      refine h.bind h.advance fun _ => ?_
      exact h.bind (stmtsUpTo hs stop n) fun ss => h.pure (s.toList ++ ss)

/-- A relation that the steps keep is kept by the loops as well. -/
theorem congruence : Congruence R where
  pure := h.pure
  bind := h.bind
  look f := h.ask fun d ts n => f d (ts.headD .eof) (ts.tail.headD .eof) n
  advance := h.advance
  expect := h.expect
  refuse := h.refuse
  total := h.total
  items := h.repeated
  operators p left hi := h.bind (h.ask fun _ ts _ => ts.length) fun n => h.extendUpTo hi p n left
  statements stop hs := h.bind (h.ask fun _ ts _ => ts.length) (h.stmtsUpTo hs stop)

end StepCongruence

/-! ### Forms -/

namespace Congruence

variable {R : ∀ {α : Type}, Action α → Action α → Prop} (h : Congruence R)

include h

/-- The last step of a form makes its tree of what was read before. -/
theorem bind_pure {x y : Action α} (hxy : R x y) (g : α → β) :
    R (do let a ← x; Pure.pure (g a)) (do let a ← y; Pure.pure (g a)) :=
  h.bind hxy fun a => h.pure (g a)

/-- The current token is one of the things that are in sight. -/
theorem current : R current current := h.look fun _ t _ _ => t

theorem peekIs (k : Kind) : R (peekIs k) (peekIs k) := h.look fun _ _ u _ => u.kind == k

omit h in
/-- Both actions go the same way at a choice. -/
theorem ite {c : Prop} [Decidable c] {x y x' y' : Action α} (hx : R x x') (hy : R y y') :
    R (if c then x else y) (if c then x' else y') := by
  split
  · exact hx
  · exact hy

/-- A list between parentheses, from its items. -/
theorem parenthesised {x y : Action α} (hi : R x y) :
    R (parenthesised x) (parenthesised y) := by
  refine h.bind (h.peekIs .rparen) fun _ => ite ?_ ?_
  · exact h.bind_pure h.advance fun _ => []
  · refine h.bind hi fun a => ?_
    refine h.bind (h.items hi) fun as => ?_
    exact h.bind_pure (h.expect .rparen) fun _ => a :: as

theorem skipSemicolon : R (update Form.skipSemicolon) (update Form.skipSemicolon) := by
  rw [skipSemicolon_eq]
  exact h.bind (h.peekIs .semicolon) fun _ => ite h.advance (h.pure ())

theorem parameter : R Form.parameter Form.parameter := by
  refine h.bind (h.expect .ident) fun _ => ?_
  exact h.bind_pure h.current fun token => Ident.mk token token.literal

/-- An integer is refused where its token has no value as a numeral. -/
theorem integer : R Form.integer Form.integer := by
  refine h.bind h.current fun t => ?_
  cases Numeral.value? t.literal with
  | none => exact h.refuse _
  | some n => exact h.pure _

section

variable {f g : Precedence → Action Expr} (hexpr : ∀ q, R (f q) (g q))

include hexpr

/-- The value of a statement, which may be missing, and the semicolon after it. -/
theorem value : R (Form.value f) (Form.value g) := by
  refine h.bind (h.total (hexpr .lowest)) fun v => ?_
  exact h.bind_pure h.skipSemicolon fun _ => v

/-- A statement of each form, from its value. -/
theorem stmtOf (s : StmtForm) : R (Form.stmtOf f s) (Form.stmtOf g s) := by
  have hvalue := h.value hexpr
  cases s with
  | letStmt =>
    refine h.bind h.current fun token => ?_
    refine h.bind (h.expect .ident) fun _ => ?_
    refine h.bind h.current fun name => ?_
    refine h.bind (h.expect .assign) fun _ => ?_
    refine h.bind h.advance fun _ => ?_
    exact h.bind_pure hvalue fun v => Stmt.letStmt token ⟨name, name.literal⟩ v
  | returnStmt =>
    refine h.bind h.current fun token => ?_
    refine h.bind h.advance fun _ => ?_
    exact h.bind_pure hvalue fun v => Stmt.returnStmt token v
  | exprStmt =>
    refine h.bind h.current fun token => ?_
    exact h.bind_pure hvalue fun v => Stmt.exprStmt token v

/-- A statement, of the form that its first token has in the language. -/
theorem stmt : R (Form.stmt f) (Form.stmt g) :=
  h.bind (h.look fun d t _ _ => d.stmtForm t.kind) (h.stmtOf hexpr)

/-- Statements are read in a loop, for which one statement is enough. -/
theorem stmts (stop : List Kind) :
    R (Action.total (Form.stmts f stop)) (Action.total (Form.stmts g stop)) :=
  h.statements stop (h.stmt hexpr)

theorem block : R (Action.total (Form.block f)) (Action.total (Form.block g)) := by
  rw [total_block, total_block]
  refine h.bind h.current fun o => ?_
  refine h.bind h.advance fun _ => ?_
  exact h.bind_pure (h.stmts hexpr [.rbrace]) fun ss => Block.mk o ss

theorem program : R (Action.total (Form.program f)) (Action.total (Form.program g)) :=
  h.bind_pure (h.stmts hexpr []) fun ss => Program.mk ss

theorem alternative : R (Form.alternative f) (Form.alternative g) := by
  refine h.bind (h.peekIs .kwElse) fun _ => ite ?_ (h.pure none)
  refine h.bind h.advance fun _ => ?_
  refine h.bind (h.expect .lbrace) fun _ => ?_
  exact h.bind_pure (h.block hexpr) some

/-- An expression of each form, from the expressions, blocks and parameters
    inside it. -/
theorem prefixOf (c : PrefixForm) : R (Form.prefixOf f c) (Form.prefixOf g c) := by
  have hblock := h.block hexpr
  cases c with
  | identifier => exact h.bind_pure h.current fun token => Expr.ident ⟨token, token.literal⟩
  | integer => exact h.integer
  | boolean => exact h.bind_pure h.current fun token => Expr.bool token (token.kind == .kwTrue)
  | operator =>
    refine h.bind h.current fun token => ?_
    refine h.bind h.advance fun _ => ?_
    exact h.bind_pure (hexpr .prefixOp) fun operand => Expr.prefixOp token token.literal operand
  | group =>
    refine h.bind h.advance fun _ => ?_
    refine h.bind (hexpr .lowest) fun e => ?_
    exact h.bind_pure (h.expect .rparen) fun _ => e
  | cond =>
    refine h.bind h.current fun token => ?_
    refine h.bind (h.expect .lparen) fun _ => ?_
    refine h.bind h.advance fun _ => ?_
    refine h.bind (hexpr .lowest) fun condition => ?_
    refine h.bind (h.expect .rparen) fun _ => ?_
    refine h.bind (h.expect .lbrace) fun _ => ?_
    refine h.bind hblock fun consequence => ?_
    exact h.bind_pure (h.alternative hexpr) fun b => Expr.cond token condition consequence b
  | func =>
    refine h.bind h.current fun token => ?_
    refine h.bind (h.expect .lparen) fun _ => ?_
    refine h.bind (h.parenthesised h.parameter) fun parameters => ?_
    refine h.bind (h.expect .lbrace) fun _ => ?_
    exact h.bind_pure hblock fun body => Expr.func token parameters body

theorem argument : R (Form.argument f) (Form.argument g) := h.bind h.advance fun _ => hexpr .lowest

/-- What goes on from `left`, by an operator or as a call. -/
theorem infixOf (left : Expr) (p : Precedence) (c : InfixForm) :
    R (Form.infixOf f left p c) (Form.infixOf g left p c) := by
  cases c with
  | operator =>
    refine h.bind h.current fun token => ?_
    refine h.bind h.advance fun _ => ?_
    exact h.bind_pure (hexpr p) fun right => Expr.infixOp token token.literal left right
  | call =>
    refine h.bind h.current fun token => ?_
    exact h.bind_pure (h.parenthesised (h.argument hexpr)) fun es => Expr.call token left es

theorem extend (p : Precedence) (left : Expr) : R (Form.extend f p left) (Form.extend g p left) :=
  h.operators p left (h.infixOf hexpr)

/-- The first part of an expression, of the form that its first token has in the
    language. -/
theorem start : R (Form.start f) (Form.start g) := by
  refine h.bind h.current fun t => h.bind (h.look fun d _ _ _ => d.prefixForm? t.kind) fun c => ?_
  cases c with
  | none => exact h.refuse _
  | some c => exact h.prefixOf hexpr c

/-- An expression: its first part, and what goes on from there. -/
theorem expression (p : Precedence) : R (Form.expression f p) (Form.expression g p) :=
  h.bind (h.start hexpr) (h.extend hexpr p)

end

end Congruence

/-! ### Properties -/

/-- What holds of the steps holds of the loops, and so of all that is put
    together from them. -/
theorem Stepwise.compositional {P : ∀ {α : Type}, Action α → Prop} (h : Stepwise P) :
    Compositional P where
  toCongruence := h.toStepCongruence.congruence
  nested := h.nested

namespace Compositional

variable {P : ∀ {α : Type}, Action α → Prop} (h : Compositional P)

include h

/-- A list between parentheses has the property if its items do. -/
theorem parenthesised {item : Action α} (hi : P item) : P (parenthesised item) :=
  h.toCongruence.parenthesised (y := item) hi

theorem skipSemicolon : P (update Form.skipSemicolon) := h.toCongruence.skipSemicolon

theorem parameter : P Form.parameter := h.toCongruence.parameter

section

variable {expr : Precedence → Action Expr} (hexpr : ∀ q, P (expr q))

include hexpr

theorem value : P (Form.value expr) := h.toCongruence.value (g := expr) hexpr

/-- A statement of each form has the property if the reader of its value does. -/
theorem stmtOf (f : StmtForm) : P (Form.stmtOf expr f) := h.toCongruence.stmtOf (g := expr) hexpr f

theorem stmt : P (Form.stmt expr) := h.toCongruence.stmt (g := expr) hexpr

theorem stmts (stop : List Kind) : P (Action.total (Form.stmts expr stop)) :=
  h.toCongruence.stmts (g := expr) hexpr stop

theorem block : P (Action.total (Form.block expr)) := h.toCongruence.block (g := expr) hexpr

theorem alternative : P (Form.alternative expr) := h.toCongruence.alternative (g := expr) hexpr

/-- An expression of each form has it if the reader of its parts does. -/
theorem prefixOf (f : PrefixForm) : P (Form.prefixOf expr f) :=
  h.toCongruence.prefixOf (g := expr) hexpr f

theorem argument : P (Form.argument expr) := h.toCongruence.argument (g := expr) hexpr

theorem infixOf (left : Expr) (p : Precedence) (f : InfixForm) :
    P (Form.infixOf expr left p f) :=
  h.toCongruence.infixOf (g := expr) hexpr left p f

theorem extend (p : Precedence) (left : Expr) : P (Form.extend expr p left) :=
  h.toCongruence.extend (g := expr) hexpr p left

theorem start : P (Form.start expr) := h.toCongruence.start (g := expr) hexpr

end

/-! ### Readers -/

/-- By induction on the levels of nesting that are left: with none, the reader
    refuses. -/
theorem expressionWithin : ∀ n p, P (expressionWithin n p)
  | 0, _ => h.refuse _
  | n + 1, p => h.nested (h.toCongruence.expression (g := ScriptFront.expressionWithin n)
    (expressionWithin n) p)

/-- Every reader of expressions has the property, at every depth of nesting. -/
theorem expression (q : Precedence) : P (Parser.expression q) :=
  h.bind (y := ask Parser.levels) (g := fun n => ScriptFront.expressionWithin n q)
    (h.look fun _ _ _ d => maxDepth - d) fun n => h.expressionWithin n q

/-- The reader of programs has the property. -/
theorem program : P (Action.total Parser.program) :=
  h.toCongruence.program (g := Parser.expression) h.expression

end Compositional

end Action

end ScriptFront

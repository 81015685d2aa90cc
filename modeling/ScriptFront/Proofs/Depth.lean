import ScriptFront.Parser.Command
import ScriptFront.Proofs.Progress

/-!
# Depth of nesting

A parser counts the expressions around its current token, and lets no more than
`maxDepth` of them stand in each other. Only the reading of an expression changes
the count: it goes one level deeper, and comes back however the expression
turned out.

What an action does on the way is not to be seen from its outcome, so it is said
of the steps that the action consists of (`Action.Throughout`): between a level
that was entered and the leaving of it, an action may be given up at any step,
but the leaving is not part of what is given up (`Action.Throughout.nested`).
From this alone an action comes back to the depth that it started from
(`Action.Throughout.depth_eq`). That no level beyond the last is entered follows
by induction on the levels that are left (`within_expressionWithin`), and
holds of whatever a parser may be asked to read, in any language and at any depth
(`Parser.nesting_balanced`).
-/

namespace ScriptFront

namespace Action

variable {α β : Type} {I : Parser → Prop} {x : Action α} {p : Parser}

/-- Whether an action, done with a parser, goes through parsers with `I` only, the
    first and the last one included, and leaves no level of nesting where it is in
    none. -/
inductive Throughout (I : Parser → Prop) : {α : Type} → Action α → Parser → Prop
  /-- A value is there at once. -/
  | pure {α : Type} {a : α} {p : Parser} : I p → Throughout I (pure a) p
  /-- The parser is asked something. -/
  | ask {α : Type} {f : Parser → α} {p : Parser} : I p → Throughout I (ask f) p
  /-- One action is followed by another one, if it has a value. -/
  | bind {α β : Type} {x : Action α} {f : α → Action β} {p : Parser} : Throughout I x p →
      (∀ a q, x p = (some a, q) → Throughout I (f a) q) → Throughout I (x >>= f) p
  /-- The parser moves. -/
  | advance {p : Parser} : I p → I p.advance → Throughout I advance p
  /-- The parser moves, or blames the token after the current one. -/
  | expect {k : Kind} {p : Parser} : I p → I (expect k p).2 → Throughout I (expect k) p
  /-- The parser blames the current token. -/
  | refuse {α : Type} {cause : Cause} {p : Parser} : I p → I (p.blameCurrent cause) →
      Throughout I (refuse cause : Action α) p
  /-- An action that may be given up is part of one that goes on. -/
  | total {α : Type} {x : Action α} {p : Parser} : Throughout I x p → Throughout I (total x) p
  /-- A level of nesting is entered, and left whatever comes of the action in it. -/
  | nested {α : Type} {x : Action α} {p : Parser} : I p → Throughout I x p.enter →
      (x p.enter).2.depth ≠ 0 → I (x p.enter).2.leave → Throughout I (nested x) p

/-- An action comes back to the depth at which it started. -/
theorem Throughout.depth_eq (h : x.Throughout I p) : (x p).2.depth = p.depth := by
  induction h with
  | pure | ask => rfl
  | @bind _ _ x f p _ _ ih ihf =>
    rw [bind_apply]
    rcases hr : x p with ⟨_ | a, q⟩ <;> rw [hr] at ih
    · exact ih
    · exact (ihf a q hr).trans ih
  | @advance p => exact (forward_advance p).depth
  | @expect k p => exact (forward_expect k p).depth
  | refuse => rfl
  | total _ ih => exact ih
  | nested _ _ _ _ ih => exact congrArg (· - 1) ih

/-- Whether an action, at the depth `d`, stays at depths from `low` up to the
    greatest one. -/
def Within (low d : Nat) (x : Action α) : Prop :=
  ∀ p : Parser, p.depth = d → x.Throughout (fun s => low ≤ s.depth ∧ s.depth ≤ maxDepth) p

variable {low d n : Nat}

theorem Within.bind {f : α → Action β} (hx : Within low d x) (hf : ∀ a, Within low d (f a)) :
    Within low d (x >>= f) := by
  intro p hp
  refine .bind (hx p hp) fun a q hq => hf a q ?_
  have hd := (hx p hp).depth_eq
  rwa [hq, hp] at hd

/-- At a depth between `low` and the greatest one, all that does not go deeper
    stays there. -/
theorem stepCongruence_within (hlow : low ≤ d) (hd : d ≤ maxDepth) :
    StepCongruence fun x _ => Within low d x := by
  have hI : ∀ q : Parser, q.depth = d → low ≤ q.depth ∧ q.depth ≤ maxDepth := by
    rintro q rfl
    exact ⟨hlow, hd⟩
  exact {
    pure := fun _ p hp => .pure (hI p hp)
    bind := Within.bind
    ask := fun _ p hp => .ask (hI p hp)
    advance := fun p hp => .advance (hI p hp) (hI _ ((forward_advance p).depth.trans hp))
    expect := fun k p hp => .expect (hI p hp) (hI _ ((forward_expect k p).depth.trans hp))
    refuse := fun _ p hp => .refuse (hI p hp) (hI _ hp)
    total := fun hx p hp => .total (hx p hp) }

/-- With `n` levels left to the greatest depth, an expression in which at most `n`
    expressions stand in each other stays within it. -/
theorem within_expressionWithin : ∀ n {d}, low ≤ d → d + n = maxDepth → ∀ q,
    Within low d (expressionWithin n q)
  | 0, d, hlow, hd, _ => (stepCongruence_within hlow (by omega)).refuse _
  | n + 1, d, hlow, hd, q => by
    have hsteps : StepCongruence fun x _ => Within low (d + 1) x :=
      stepCongruence_within (by omega) (by omega)
    have hform : Within low (d + 1) (Form.expression (expressionWithin n) q) :=
      hsteps.congruence.expression (g := expressionWithin n)
        (within_expressionWithin n (by omega) (by omega)) q
    rintro p rfl
    have hin := hform p.enter rfl
    have hdepth : (Form.expression (expressionWithin n) q p.enter).2.depth = p.depth + 1 :=
      hin.depth_eq
    have hleave : (Form.expression (expressionWithin n) q p.enter).2.leave.depth = p.depth :=
      congrArg (· - 1) hdepth
    exact .nested ⟨hlow, by omega⟩ hin (by omega) ⟨by omega, by omega⟩

theorem within_expression (hlow : low ≤ d) (hd : d ≤ maxDepth) (q : Precedence) :
    Within low d (Parser.expression q) := by
  rintro p rfl
  -- The levels that the reader finds are those that are left to the greatest depth.
  refine .bind (x := ask Parser.levels) (f := fun n => expressionWithin n q) (.ask ⟨hlow, hd⟩) ?_
  rintro _ _ ⟨⟩
  exact within_expressionWithin p.levels hlow (Nat.add_sub_cancel' hd) q p rfl

end Action

namespace Parser

open ScriptFront.Action

/-- What a parser may be asked to read, by the dialect or by a form of the client's
    choice. -/
inductive Entry : {α : Type} → Action α → Prop
  /-- A program. -/
  | program : Entry (total program)
  /-- The block whose opening brace is the current token. -/
  | block : Entry (total block)
  /-- The statement at the current token. -/
  | stmt : Entry stmt
  /-- A statement of a form. -/
  | stmtOf (f : StmtForm) : Entry (Form.stmtOf expression f)
  /-- An expression at a precedence. -/
  | expression (q : Precedence) : Entry (expression q)
  /-- An expression of a form. -/
  | prefixOf (f : PrefixForm) : Entry (Form.prefixOf expression f)
  /-- What an expression goes on to by a form. -/
  | infixOf (left : Expr) (q : Precedence) (f : InfixForm) :
      Entry (Form.infixOf expression left q f)

/-- By cases on what is asked for: all of it is put together from steps and
    readers that stay within bounds. -/
theorem Entry.within {α : Type} {x : Action α} (h : Entry x) {low d : Nat} (hlow : low ≤ d)
    (hd : d ≤ maxDepth) : Within low d x := by
  have hsteps := (stepCongruence_within hlow hd).congruence
  have hexpr : ∀ q, Within low d (Parser.expression q) := within_expression hlow hd
  cases h with
  | program => exact hsteps.program (g := Parser.expression) hexpr
  | block => exact hsteps.block (g := Parser.expression) hexpr
  | stmt => exact hsteps.stmt (g := Parser.expression) hexpr
  | stmtOf f => exact hsteps.stmtOf (g := Parser.expression) hexpr f
  | expression q => exact hexpr q
  | prefixOf f => exact hsteps.prefixOf (g := Parser.expression) hexpr f
  | infixOf left q f => exact hsteps.infixOf (g := Parser.expression) hexpr left q f

variable {p : Parser}

/-- Where a level is left, an expression is read by its form, one level deeper, and
    with the same reader for the expressions in it. -/
theorem expression_eq_nested (hp : p.depth < maxDepth) (q : Precedence) :
    expression q p = nested (Form.expression expression q) p := by
  have hlevels : p.levels = maxDepth - (p.depth + 1) + 1 := by
    rw [levels]
    omega
  have hagree := (congruence_agreeAt (p.depth + 1)).expression
    (agreeAt_expression (p.depth + 1)) q p.enter rfl
  rw [expression, hlevels, expressionWithin, nested, nested, hagree.1]

/-- At the greatest depth an expression is refused, with a report at the current
    token. -/
theorem expression_eq_refuse (hp : p.depth = maxDepth) (q : Precedence) :
    expression q p = (none, p.blameCurrent (.nestingTooDeep maxDepth)) := by
  have hlevels : p.levels = 0 := by rw [levels, hp, Nat.sub_self]
  rw [expression, hlevels]
  rfl

/-- Whatever a parser is asked to read, it comes back to the depth at which it was
    asked, with or without a value; on the way it is at that depth or a greater one,
    up to `maxDepth`, and every level that it leaves is one that it is in. An
    expression stands one level deeper than what is around it. Where no level is
    left, it is refused, and the report of it is all that changes. -/
theorem nesting_balanced (hp : p.depth ≤ maxDepth) :
    (∀ {α : Type} {x : Action α}, Entry x → (x p).2.depth = p.depth ∧
      x.Throughout (fun s => p.depth ≤ s.depth ∧ s.depth ≤ maxDepth) p) ∧
    (∀ q, p.depth < maxDepth →
      expression q p = nested (Form.expression expression q) p ∧
      (Form.expression expression q p.enter).2.depth = p.depth + 1) ∧
    ∀ q, p.depth = maxDepth → expression q p = (none, { p with
      reports := p.reports.push ⟨⟨.nestingTooDeep maxDepth, p.current⟩, p.index, p.depth⟩ }) := by
  refine ⟨fun h => ?_, fun q hlt => ⟨expression_eq_nested hlt q, ?_⟩, fun q hmax =>
    expression_eq_refuse hmax q⟩
  · have hx := h.within (Nat.le_refl p.depth) hp p rfl
    exact ⟨hx.depth_eq, hx⟩
  · have hsteps := (stepCongruence_within (Nat.zero_le (p.depth + 1)) hlt).congruence
    exact (hsteps.expression (g := expression) (within_expression (Nat.zero_le _) hlt) q
      p.enter rfl).depth_eq

/-- At the last level but one, in a language in which a closing brace opens a group:
    the expression in it is one too deep. -/
theorem nesting_balanced_group :
    let p := (ofString "{ } (1 + ) !x").run
      (.setPrefix .rbrace .group :: .advance :: List.replicate 255 .enter)
    p.depth = 255 ∧ p.program.2.depth = 255 ∧ (expression .lowest p).1 = none ∧
      (expression .lowest p).2.depth = 255 ∧ (expression .lowest p.enter).2.depth = 256 := by
  intro p
  have hp : p.depth = 255 := by decide +kernel
  have hnone : (expression .lowest p).1 = none := by decide +kernel
  clear_value p
  obtain ⟨hentry, -, -⟩ := nesting_balanced (p := p) (by rw [hp]; decide)
  have hdeepest : p.enter.depth = maxDepth := congrArg (· + 1) hp
  obtain ⟨-, -, hmax⟩ := nesting_balanced (Nat.le_of_eq hdeepest)
  refine ⟨hp, (hentry .program).1.trans hp, hnone, (hentry (.expression .lowest)).1.trans hp, ?_⟩
  rw [hmax .lowest hdeepest]
  exact hdeepest

end Parser

end ScriptFront

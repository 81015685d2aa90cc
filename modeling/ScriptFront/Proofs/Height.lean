import ScriptFront.Proofs.RoundTrip

/-!
# The height of trees

The cap on nesting is a cap on the height of trees, but for one kind of step.
An expression goes on from its left part in a loop, which nests nothing, so the
steps to a left operand and to a callee are not capped. The cap bounds the
height without them (`Form.returns_expressionWithin`), whatever is wrong with
the text, and so the height is at most the cap times the longest row of such
steps (`Expr.height_add_le`). There is no bound on these rows: a sum is as high
as it is long (`height_sum`).
-/

namespace ScriptFront

/-! ### Measures of trees -/

section

variable (w : Nat)

mutual

/-- The number of expressions on the longest way down from an expression, where
    a step to a left operand or to a callee counts `w`. -/
def Expr.height : Expr → Nat
  | .ident _ | .int _ _ | .bool _ _ => 1
  | .prefixOp _ _ e => e.height + 1
  | .infixOp _ _ l r => max (l.height + w) (r.height + 1)
  | .cond _ c a b => max c.height (max a.height (alternativeHeight b)) + 1
  | .func _ _ b => b.height + 1
  | .call _ c as => max (c.height + w) (Expr.heightAll as + 1)

/-- The height of the highest one of some expressions. -/
def Expr.heightAll : List Expr → Nat
  | [] => 0
  | e :: es => max e.height (Expr.heightAll es)

/-- The height of the second block of a choice. -/
def alternativeHeight : Option Block → Nat
  | none => 0
  | some b => b.height

/-- The height of a value. -/
def valueHeight : Option Expr → Nat
  | none => 0
  | some e => e.height

/-- The height of the value of a statement. -/
def Stmt.height : Stmt → Nat
  | .letStmt _ _ v | .returnStmt _ v | .exprStmt _ v => valueHeight v

/-- The height of the highest value of some statements. -/
def Stmt.heightAll : List Stmt → Nat
  | [] => 0
  | s :: ss => max s.height (Stmt.heightAll ss)

/-- The height of the highest value in a block. -/
def Block.height : Block → Nat
  | .mk _ ss => Stmt.heightAll ss

end

/-- The height of the highest expression of a program. -/
def Program.height (p : Program) : Nat := Stmt.heightAll w p.statements

end

/-- The number of expressions on the way down from an expression that goes to
    left operands and callees only. -/
def Expr.spine : Expr → Nat
  | .infixOp _ _ l _ => l.spine + 1
  | .call _ c _ => c.spine + 1
  | _ => 1

mutual

/-- The length of the longest row of left operands and callees anywhere in an
    expression. -/
def Expr.chain : Expr → Nat
  | .ident _ | .int _ _ | .bool _ _ => 1
  | .prefixOp _ _ e => e.chain
  | .infixOp _ _ l r => max (l.spine + 1) (max l.chain r.chain)
  | .cond _ c a b => max c.chain (max a.chain (alternativeChain b))
  | .func _ _ b => max 1 b.chain
  | .call _ c as => max (c.spine + 1) (max c.chain (Expr.chainAll as))

/-- The length of the longest row of left operands and callees in some
    expressions. -/
def Expr.chainAll : List Expr → Nat
  | [] => 0
  | e :: es => max e.chain (Expr.chainAll es)

/-- The length of the longest row of left operands and callees in the second
    block of a choice. -/
def alternativeChain : Option Block → Nat
  | none => 0
  | some b => b.chain

/-- The length of the longest row of left operands and callees in a value. -/
def valueChain : Option Expr → Nat
  | none => 0
  | some e => e.chain

/-- The length of the longest row of left operands and callees in the value of a
    statement. -/
def Stmt.chain : Stmt → Nat
  | .letStmt _ _ v | .returnStmt _ v | .exprStmt _ v => valueChain v

/-- The length of the longest row of left operands and callees in some
    statements. -/
def Stmt.chainAll : List Stmt → Nat
  | [] => 0
  | s :: ss => max s.chain (Stmt.chainAll ss)

/-- The length of the longest row of left operands and callees in a block. -/
def Block.chain : Block → Nat
  | .mk _ ss => Stmt.chainAll ss

end

/-- The length of the longest row of left operands and callees in a program. -/
def Program.chain (p : Program) : Nat := Stmt.chainAll p.statements

/-- The row at the top of an expression has the expression itself in it. -/
theorem Expr.spine_pos (e : Expr) : 1 ≤ e.spine := by
  cases e <;> simp [spine]

/-- The row at the top of an expression is one of its rows. -/
theorem Expr.spine_le_chain : ∀ e : Expr, e.spine ≤ e.chain
  | .ident _ | .int _ _ | .bool _ _ => Nat.le_refl 1
  | .prefixOp _ _ e => Nat.le_trans e.spine_pos e.spine_le_chain
  | .infixOp _ _ _ _ | .call _ _ _ => Nat.le_max_left _ _
  | .cond _ c _ _ =>
    Nat.le_trans (Nat.le_trans c.spine_pos c.spine_le_chain) (Nat.le_max_left _ _)
  | .func _ _ _ => Nat.le_max_left _ _

/-! ### Heights by rows -/

section

variable {c : Nat}

/-- Of two bounds that are multiples of `c`, the greater one bounds both heights. -/
theorem max_le_max_mul {a b m n : Nat} (ha : a ≤ m * c) (hb : b ≤ n * c) :
    max a b ≤ max m n * c :=
  Nat.max_le.2 ⟨Nat.le_trans ha (Nat.mul_le_mul_right c (Nat.le_max_left m n)),
    Nat.le_trans hb (Nat.mul_le_mul_right c (Nat.le_max_right m n))⟩

/-- A step down that the cap counts. -/
theorem succ_add_le {a m : Nat} (h : a ≤ m * c) : a + 1 + c ≤ 1 + (m + 1) * c := by
  rw [Nat.succ_mul]
  omega

/-- A step to a left part, which makes the row longer, or one to a right part,
    which the cap counts. -/
theorem max_succ_add_le {a b m n s : Nat} (ha : a + c ≤ s + m * c) (hb : b ≤ n * c) :
    max (a + 1) (b + 1) + c ≤ s + 1 + max (m + 0) (n + 1) * c := by
  have hleft : m * c ≤ max (m + 0) (n + 1) * c := Nat.mul_le_mul_right c (Nat.le_max_left _ _)
  have hright : (n + 1) * c ≤ max (m + 0) (n + 1) * c :=
    Nat.mul_le_mul_right c (Nat.le_max_right _ _)
  have hstep := succ_add_le hb
  omega

mutual

/-- If no row is longer than `c`, every step that the cap counts is followed by
    fewer than `c` others. -/
theorem Expr.height_add_le : ∀ e : Expr, e.chain ≤ c →
    e.height 1 + c ≤ e.spine + e.height 0 * c
  | .ident _, _ | .int _ _, _ | .bool _ _, _ => by simp [Expr.height, Expr.spine]
  | .prefixOp _ _ e, h => succ_add_le (e.height_le h)
  | .infixOp _ _ l r, h => by
    simp only [Expr.chain, Nat.max_le] at h
    exact max_succ_add_le (l.height_add_le h.2.1) (r.height_le h.2.2)
  | .cond _ d a b, h => by
    simp only [Expr.chain, Nat.max_le] at h
    exact succ_add_le (max_le_max_mul (d.height_le h.1)
      (max_le_max_mul (a.height_le h.2.1) (alternativeHeight_le b h.2.2)))
  | .func _ _ b, h => succ_add_le (b.height_le (Nat.max_le.1 h).2)
  | .call _ d as, h => by
    simp only [Expr.chain, Nat.max_le] at h
    exact max_succ_add_le (d.height_add_le h.2.1) (Expr.heightAll_le as h.2.2)

/-- The height of an expression by the length of its rows. -/
theorem Expr.height_le (e : Expr) (h : e.chain ≤ c) : e.height 1 ≤ e.height 0 * c := by
  have hadd := e.height_add_le h
  have hspine := e.spine_le_chain
  omega

theorem Expr.heightAll_le : ∀ es : List Expr, Expr.chainAll es ≤ c →
    Expr.heightAll 1 es ≤ Expr.heightAll 0 es * c
  | [], _ => Nat.zero_le _
  | e :: es, h => max_le_max_mul (e.height_le (Nat.max_le.1 h).1)
    (Expr.heightAll_le es (Nat.max_le.1 h).2)

theorem alternativeHeight_le : ∀ b : Option Block, alternativeChain b ≤ c →
    alternativeHeight 1 b ≤ alternativeHeight 0 b * c
  | none, _ => Nat.zero_le _
  | some b, h => b.height_le h

theorem valueHeight_le : ∀ v : Option Expr, valueChain v ≤ c →
    valueHeight 1 v ≤ valueHeight 0 v * c
  | none, _ => Nat.zero_le _
  | some e, h => e.height_le h

theorem Stmt.height_le : ∀ s : Stmt, s.chain ≤ c → s.height 1 ≤ s.height 0 * c
  | .letStmt _ _ v, h | .returnStmt _ v, h | .exprStmt _ v, h => valueHeight_le v h

theorem Stmt.heightAll_le : ∀ ss : List Stmt, Stmt.chainAll ss ≤ c →
    Stmt.heightAll 1 ss ≤ Stmt.heightAll 0 ss * c
  | [], _ => Nat.zero_le _
  | s :: ss, h => max_le_max_mul (s.height_le (Nat.max_le.1 h).1)
    (Stmt.heightAll_le ss (Nat.max_le.1 h).2)

theorem Block.height_le : ∀ b : Block, b.chain ≤ c → b.height 1 ≤ b.height 0 * c
  | .mk _ ss, h => Stmt.heightAll_le ss h

end

end

/-! ### What is read -/

namespace Action

variable {α β : Type} {Q : β → Prop} {R : α → Prop} {x : Action α} {f : α → Action β}

/-- Whether everything that an action returns has a property. -/
def Returns (R : α → Prop) (x : Action α) : Prop := ∀ p, ∀ a ∈ (x p).1, R a

theorem returns_pure {a : α} (h : R a) : Returns R (pure a) := fun _ b hb => by
  cases hb
  exact h

theorem returns_refuse (cause : Cause) : Returns R (refuse cause) := fun _ _ hb => by cases hb

/-- What the second action returns may depend on what is known of the first
    one's answer. -/
theorem Returns.bind (hx : Returns R x) (hf : ∀ a, R a → Returns Q (f a)) :
    Returns Q (x >>= f) := by
  intro p b hb
  rw [bind_apply] at hb
  rcases hr : x p with ⟨_ | a, q⟩ <;> rw [hr] at hb
  · cases hb
  · exact hf a (hx p a (by rw [hr]; rfl)) q b hb

/-- The last step of an action makes its value of what was returned before. -/
theorem Returns.bind_pure {g : α → β} (hx : Returns R x) (hg : ∀ a, R a → Q (g a)) :
    Returns Q (x >>= fun a => pure (g a)) :=
  hx.bind fun a ha => returns_pure (hg a ha)

/-- What was returned before does not matter. -/
theorem returns_after (hf : ∀ a, Returns Q (f a)) : Returns Q (x >>= f) :=
  Returns.bind (R := fun _ => True) (fun _ _ _ => trivial) fun a _ => hf a

/-- What cannot fail returns its value always. -/
theorem returns_total {g : Parser → α × Parser} (h : ∀ p, R (g p).1) : Returns R (total g) :=
  fun p _ hb => by
    cases hb
    exact h p

end Action

namespace Form

open ScriptFront.Action

/-- Whether an expression is at most `n` high, but for steps to the left. -/
def Low (n : Nat) (e : Expr) : Prop := e.height 0 ≤ n

variable {expr : Precedence → Action Expr} {n : Nat} (hexpr : ∀ q, Returns (Low n) (expr q))

/-- Items that are low make a list that is. -/
theorem returns_repeatedUpTo {k : Kind} {item : Action Expr} (hi : Returns (Low n) item) :
    ∀ m, Returns (fun es => Expr.heightAll 0 es ≤ n) (repeatedUpTo k item m)
  | 0 => returns_pure (Nat.zero_le n)
  | m + 1 => by
    refine returns_after fun more => ?_
    split
    · refine returns_after fun _ => ?_
      refine hi.bind fun e he => ?_
      exact (returns_repeatedUpTo hi m).bind_pure fun es hes => Nat.max_le.2 ⟨he, hes⟩
    · exact returns_pure (Nat.zero_le n)

theorem returns_parenthesised {item : Action Expr} (hi : Returns (Low n) item) :
    Returns (fun es => Expr.heightAll 0 es ≤ n) (parenthesised item) := by
  have hmore : Returns (fun es => Expr.heightAll 0 es ≤ n) (repeated .comma item) :=
    fun p => returns_repeatedUpTo hi _ p
  refine returns_after fun closed => ?_
  split
  · exact returns_after fun _ => returns_pure (Nat.zero_le n)
  · refine hi.bind fun e he => ?_
    refine hmore.bind fun es hes => ?_
    exact returns_after fun _ => returns_pure (Nat.max_le.2 ⟨he, hes⟩)

include hexpr

/-! #### Statements -/

/-- A value is low, or it is missing. -/
theorem returns_value : Returns (fun v => valueHeight 0 v ≤ n) (Form.value expr) := by
  have htotal : Returns (fun v => valueHeight 0 v ≤ n) (total (expr .lowest)) := by
    refine returns_total fun p => ?_
    have he := hexpr .lowest p
    rcases hv : (expr .lowest p).1 with _ | e
    · exact Nat.zero_le n
    · exact he e hv
  refine htotal.bind fun v hv => ?_
  exact returns_after fun _ => returns_pure hv

/-- A statement is as high as its value. -/
theorem returns_stmtOf (f : StmtForm) :
    Returns (fun s => s.height 0 ≤ n) (Form.stmtOf expr f) := by
  have hvalue := returns_value hexpr
  cases f with
  | letStmt =>
    refine returns_after fun token => ?_
    refine returns_after fun _ => ?_
    refine returns_after fun name => ?_
    refine returns_after fun _ => ?_
    refine returns_after fun _ => ?_
    exact hvalue.bind_pure fun _ hv => hv
  | returnStmt =>
    refine returns_after fun token => ?_
    refine returns_after fun _ => ?_
    exact hvalue.bind_pure fun _ hv => hv
  | exprStmt =>
    refine returns_after fun token => ?_
    exact hvalue.bind_pure fun _ hv => hv

/-- The statements of a row are low, as each of them is that was not left out. -/
theorem heightAll_stmts_le (stop : List Kind) (p : Parser) :
    Stmt.heightAll 0 (Form.stmts expr stop p).1 ≤ n := by
  have hloop : ∀ m p, Stmt.heightAll 0 (Form.stmtsUpTo expr stop m p).1 ≤ n := by
    intro m
    induction m with
    | zero => exact fun _ => Nat.zero_le n
    | succ m ih =>
      intro p
      rw [Form.stmtsUpTo]
      split
      · exact Nat.zero_le n
      have hs := returns_stmtOf hexpr (p.dialect.stmtForm p.current.kind) p
      change Stmt.heightAll 0 ((Form.stmt expr p).1.toList ++ _) ≤ n
      rw [Form.stmt]
      rcases hr : (Form.stmtOf expr (p.dialect.stmtForm p.current.kind) p).1 with _ | s
      · exact ih _
      · exact Nat.max_le.2 ⟨hs s hr, ih _⟩
  exact hloop _ p

/-! #### Expressions -/

theorem returns_block : Returns (fun b => b.height 0 ≤ n) (total (Form.block expr)) :=
  returns_total fun p => heightAll_stmts_le hexpr [.rbrace] p.advance

theorem returns_alternative :
    Returns (fun b => alternativeHeight 0 b ≤ n) (Form.alternative expr) := by
  refine returns_after fun more => ?_
  split
  · refine returns_after fun _ => ?_
    refine returns_after fun _ => ?_
    exact (returns_block hexpr).bind_pure fun _ hb => hb
  · exact returns_pure (Nat.zero_le n)

/-- The first part of an expression is one higher than what is in it. -/
theorem returns_prefixOf (f : PrefixForm) : Returns (Low (n + 1)) (Form.prefixOf expr f) := by
  have hblock := returns_block hexpr
  have hleaf : 1 ≤ n + 1 := Nat.succ_le_succ (Nat.zero_le n)
  cases f with
  | identifier => exact returns_after fun _ => returns_pure hleaf
  | integer =>
    refine returns_after fun t => ?_
    split
    · exact returns_pure hleaf
    · exact returns_refuse _
  | boolean => exact returns_after fun _ => returns_pure hleaf
  | operator =>
    refine returns_after fun token => ?_
    refine returns_after fun _ => ?_
    exact (hexpr .prefixOp).bind_pure fun _ he => Nat.succ_le_succ he
  | group =>
    refine returns_after fun _ => ?_
    refine (hexpr .lowest).bind fun e he => ?_
    exact returns_after fun _ => returns_pure (Nat.le_succ_of_le he)
  | cond =>
    refine returns_after fun token => ?_
    refine returns_after fun _ => ?_
    refine returns_after fun _ => ?_
    refine (hexpr .lowest).bind fun c hc => ?_
    refine returns_after fun _ => ?_
    refine returns_after fun _ => ?_
    refine hblock.bind fun a ha => ?_
    refine (returns_alternative hexpr).bind_pure fun b hb => ?_
    -- All three parts stand one step below the choice.
    have hparts : max (c.height 0) (max (a.height 0) (alternativeHeight 0 b)) ≤ n :=
      Nat.max_le.2 ⟨hc, Nat.max_le.2 ⟨ha, hb⟩⟩
    exact Nat.succ_le_succ hparts
  | func =>
    refine returns_after fun token => ?_
    refine returns_after fun _ => ?_
    refine returns_after fun parameters => ?_
    refine returns_after fun _ => ?_
    exact hblock.bind_pure fun _ hb => Nat.succ_le_succ hb

/-- A step to the right costs a level of nesting, one to the left does not. -/
theorem returns_infixOf {left : Expr} (hleft : Low (n + 1) left) (q : Precedence)
    (f : InfixForm) : Returns (Low (n + 1)) (Form.infixOf expr left q f) := by
  cases f with
  | operator =>
    refine returns_after fun token => ?_
    refine returns_after fun _ => ?_
    exact (hexpr q).bind_pure fun right hr => Nat.max_le.2 ⟨hleft, Nat.succ_le_succ hr⟩
  | call =>
    have hargument : Returns (Low n) (Form.argument expr) := returns_after fun _ => hexpr .lowest
    refine returns_after fun token => ?_
    exact (returns_parenthesised hargument).bind_pure fun es hes =>
      Nat.max_le.2 ⟨hleft, Nat.succ_le_succ hes⟩

/-- By recursion on the bound: what was read so far is the left part of what
    comes. -/
theorem returns_extendUpTo (q : Precedence) : ∀ m left, Low (n + 1) left →
    Returns (Low (n + 1)) (Form.extendUpTo expr q m left)
  | 0, _, hleft => returns_pure hleft
  | m + 1, left, hleft => by
    refine returns_after fun c => ?_
    rcases c with _ | ⟨r, f⟩
    · exact returns_pure hleft
    · refine returns_after fun _ => ?_
      exact (returns_infixOf hexpr hleft r f).bind fun e he => returns_extendUpTo q m e he

/-- The first part of an expression is one higher than what is in it, whatever
    its form is. -/
theorem returns_start : Returns (Low (n + 1)) (Form.start expr) := by
  refine returns_after fun t => ?_
  refine returns_after fun f => ?_
  cases f with
  | none => exact returns_refuse _
  | some f => exact returns_prefixOf hexpr f

/-- An expression is at most one higher, but for steps to the left, than those
    that are read inside it. -/
theorem returns_expression (q : Precedence) :
    Returns (Low (n + 1)) (Form.expression expr q) := by
  refine (returns_start hexpr).bind fun left hleft => ?_
  exact fun p => returns_extendUpTo hexpr q _ left hleft p

omit hexpr in
/-- Within `n` levels of nesting, expressions are at most `n` high, but for
    steps to the left. -/
theorem returns_expressionWithin : ∀ n q, Returns (Low n) (expressionWithin n q)
  | 0, _ => returns_refuse _
  | n + 1, q => fun p => returns_expression (returns_expressionWithin n) q p.enter

end Form

/-! ### Programs -/

/-- The cap on nesting is one on the height of a program, but for steps to left
    operands and to callees; and on its height by the longest row of them. -/
theorem height_parse_le (source : String) :
    (parse source).1.height 0 ≤ maxDepth ∧
      (parse source).1.height 1 ≤ maxDepth * (parse source).1.chain := by
  have hlow : (parse source).1.height 0 ≤ maxDepth := by
    rw [parse, Parser.program_eq rfl]
    exact Form.heightAll_stmts_le (Form.returns_expressionWithin maxDepth) [] _
  exact ⟨hlow, Nat.le_trans (Stmt.heightAll_le _ (Nat.le_refl _)) (Nat.mul_le_mul_right _ hlow)⟩

theorem height_sum (n : Nat) : (sum n).height 1 = n + 1 := by
  induction n with
  | zero => rfl
  | succ n ih =>
    rw [sum, Expr.height, ih]
    exact Nat.max_eq_left (Nat.succ_le_succ (Nat.succ_le_succ (Nat.zero_le n)))

/-- The height itself has no bound: a sum is as high as it is long. -/
theorem not_height_parse_le : ¬∃ b, ∀ source, (parse source).1.height 1 ≤ b := by
  rintro ⟨b, hb⟩
  have h := hb (sumText b)
  rw [(parse_sumText b).2] at h
  change max ((sum b).height 1) 0 ≤ b at h
  rw [height_sum] at h
  omega

end ScriptFront

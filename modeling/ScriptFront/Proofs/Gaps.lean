import ScriptFront.Proofs.Soundness

/-!
# Gaps

A statement whose value could not be read stands in the tree without one: a gap.
Each gap has a report of its own, and so has each statement that is left out and
each expression that is given up, whatever is left of them in the tree.

The invariant is one of book-keeping (`Action.Accounts`). An action may be
handed gaps, in the part of the tree that was read before; it answers with
gaps, and makes at least as many reports as there are more of them. If it gives
up, the tree that it was building is lost with all its gaps, but one more report
is made.
-/

namespace ScriptFront

/-! ### Trees with gaps -/

mutual

/-- The number of statements in an expression that have no value. -/
def Expr.gaps : Expr → Nat
  | .ident _ | .int _ _ | .bool _ _ => 0
  | .prefixOp _ _ e => e.gaps
  | .infixOp _ _ l r => l.gaps + r.gaps
  | .cond _ c a b => c.gaps + a.gaps + alternativeGaps b
  | .func _ _ b => b.gaps
  | .call _ c as => c.gaps + Expr.gapsAll as

/-- The number of gaps in some expressions. -/
def Expr.gapsAll : List Expr → Nat
  | [] => 0
  | e :: es => e.gaps + Expr.gapsAll es

/-- The number of gaps in the second block of a choice. -/
def alternativeGaps : Option Block → Nat
  | none => 0
  | some b => b.gaps

/-- The number of gaps in the value of a statement, and one if it is missing. -/
def valueGaps : Option Expr → Nat
  | none => 1
  | some e => e.gaps

/-- The number of gaps in a statement: itself, if it has no value. -/
def Stmt.gaps : Stmt → Nat
  | .letStmt _ _ v | .returnStmt _ v | .exprStmt _ v => valueGaps v

/-- The number of gaps in some statements. -/
def Stmt.gapsAll : List Stmt → Nat
  | [] => 0
  | s :: ss => s.gaps + Stmt.gapsAll ss

/-- The number of gaps in a block. -/
def Block.gaps : Block → Nat
  | .mk _ ss => Stmt.gapsAll ss

end

/-- The number of statements in a program, in its blocks too, that have no
    value. -/
def Program.gaps (P : Program) : Nat := Stmt.gapsAll P.statements

/-! ### Book-keeping -/

namespace Action

variable {α β : Type} {c k : Nat} {g : α → Nat} {g' : β → Nat} {x : Action α} {f : α → Action β}

/-- The number of gaps in a list. -/
def gapsIn (g : α → Nat) : List α → Nat
  | [] => 0
  | a :: as => g a + gapsIn g as

theorem gapsIn_zero : ∀ as : List α, gapsIn (fun _ => 0) as = 0
  | [] => rfl
  | _ :: as => by rw [gapsIn, gapsIn_zero as]

/-- The gaps in some expressions are those in each of them. -/
theorem gapsAll_eq_gapsIn : ∀ es : List Expr, Expr.gapsAll es = gapsIn Expr.gaps es
  | [] => rfl
  | _ :: es => by rw [Expr.gapsAll, gapsIn, gapsAll_eq_gapsIn es]

/-- Whether what an action comes to, from `n` reports and with `c` gaps in hand,
    is covered by reports: one for each gap more, or one for giving up. -/
def Covered (n c : Nat) (g : α → Nat) : Option α × Parser → Prop
  | (none, q) => n < q.reports.size
  | (some a, q) => n ≤ q.reports.size ∧ n + g a ≤ q.reports.size + c

/-- With `c` gaps in hand, `x` answers with a value that has `g` gaps, and has
    made a report for each one more. If it gives up, it has made a report. -/
def Accounts (c : Nat) (x : Action α) (g : α → Nat) : Prop :=
  ∀ p, Covered p.reports.size c g (x p)

/-- A value may have as many gaps as are in hand. -/
theorem accounts_pure {a : α} (h : g a ≤ c) : Accounts c (pure a) g :=
  fun _ => ⟨Nat.le_refl _, Nat.add_le_add_left h _⟩

/-- The gaps in what one action answers with are in hand for the next one. -/
theorem Accounts.bind (hx : Accounts c x g) (hf : ∀ a, Accounts (g a) (f a) g') :
    Accounts c (x >>= f) g' := by
  intro p
  have hp := hx p
  rw [bind_apply]
  rcases hr : x p with ⟨_ | a, q⟩ <;> rw [hr] at hp
  · exact hp
  · have hq := hf a q
    change Covered p.reports.size c g' (f a q)
    rcases hs : f a q with ⟨_ | b, r⟩ <;> rw [hs] at hq
    · exact Nat.lt_of_le_of_lt hp.1 hq
    · obtain ⟨hp, hpg⟩ := hp
      obtain ⟨hq, hqg⟩ := hq
      exact ⟨by omega, by omega⟩

/-- The last step of an action makes its value, with no more gaps than it has in
    hand. -/
theorem Accounts.bind_pure {m : α → β} (hx : Accounts c x g) (hm : ∀ a, g' (m a) ≤ g a) :
    Accounts c (x >>= fun a => pure (m a)) g' :=
  hx.bind fun a => accounts_pure (hm a)

/-- Gaps that an action does not touch stay in hand. -/
theorem Accounts.frame (hx : Accounts 0 x g) (k : Nat) : Accounts k x fun a => k + g a := by
  intro p
  have hp := hx p
  rcases hr : x p with ⟨_ | a, q⟩ <;> rw [hr] at hp
  · exact hp
  · refine ⟨hp.1, ?_⟩
    have hpg := hp.2
    simp only
    omega

theorem accounts_ask (f : Parser → α) : Accounts c (ask f) fun _ => c :=
  fun _ => ⟨Nat.le_refl _, Nat.le_refl _⟩

/-- Advancing makes no report and leaves the gaps in hand. -/
theorem accounts_advance : Accounts c advance fun _ => c := by
  intro p
  have hsize : p.advance.reports.size = p.reports.size := by
    rw [Parser.advance]
    split <;> rfl
  exact ⟨Nat.le_of_eq hsize.symm, Nat.le_of_eq (by rw [hsize])⟩

theorem size_record (p : Parser) (r : Report) : p.reports.size < (p.record r).reports.size := by
  rw [Parser.record, Array.size_push]
  exact Nat.lt_succ_self _

/-- Giving up pays with a report for all that is lost. -/
theorem accounts_refuse (cause : Cause) : Accounts c (refuse cause : Action α) g :=
  fun p => size_record p _

/-- A token that is not the expected one is reported before the action gives up. -/
theorem accounts_expect (kind : Kind) : Accounts c (expect kind) fun _ => c := by
  intro p
  rw [expect]
  split
  · exact accounts_advance p
  · exact size_record p _

/-- An action that has given up counts as one gap from there on. -/
theorem Accounts.total (hx : Accounts 0 x g) : Accounts 0 (total x) fun v => v.elim 1 g := by
  intro p
  have hp := hx p
  change Covered _ 0 _ (some (x p).1, (x p).2)
  rcases hr : x p with ⟨_ | a, q⟩ <;> rw [hr] at hp
  · exact ⟨Nat.le_of_lt hp, hp⟩
  · exact hp

theorem Accounts.nested (hx : Accounts c x g) : Accounts c (nested x) g := by
  intro p
  have hp := hx p.enter
  change Covered _ c g ((x p.enter).1, (x p.enter).2.leave)
  rcases hr : x p.enter with ⟨_ | a, q⟩ <;> rw [hr] at hp <;> exact hp

theorem Accounts.ite {b : Prop} [Decidable b] {y : Action α} (hx : Accounts c x g)
    (hy : Accounts c y g) : Accounts c (if b then x else y) g := by
  split
  · exact hx
  · exact hy

/-- The gaps in the items that were read are in hand while the others are. -/
theorem Accounts.repeatedUpTo {kind : Kind} (hx : Accounts 0 x g) :
    ∀ n, Accounts 0 (repeatedUpTo kind x n) (gapsIn g)
  | 0 => accounts_pure (Nat.le_refl _)
  | n + 1 => by
    refine (accounts_ask _).bind fun _ => .ite ?_ (accounts_pure (Nat.le_refl _))
    refine accounts_advance.bind fun _ => ?_
    refine hx.bind fun a => ?_
    have hrest : Accounts (g a) (Action.repeatedUpTo kind x n) fun as => g a + gapsIn g as :=
      (hx.repeatedUpTo n).frame (g a)
    exact hrest.bind_pure fun _ => Nat.le_refl _

/-- The gaps in a repetition are those in its items. -/
theorem Accounts.repeated {kind : Kind} (hx : Accounts 0 x g) :
    Accounts 0 (repeated kind x) (gapsIn g) :=
  (accounts_ask fun p => p.ahead.length).bind hx.repeatedUpTo

theorem Accounts.parenthesised (hx : Accounts 0 x g) :
    Accounts 0 (parenthesised x) (gapsIn g) := by
  refine (accounts_ask _).bind fun _ => .ite ?_ ?_
  · exact accounts_advance.bind_pure fun _ => Nat.le_refl _
  · refine hx.bind fun a => ?_
    have hrest : Accounts (g a) (Action.repeated .comma x) fun as => g a + gapsIn g as :=
      hx.repeated.frame (g a)
    refine hrest.bind fun as => ?_
    exact (accounts_expect .rparen).bind_pure fun _ => Nat.le_refl _

/-- Whether an action that gives up says why: reports are added then to those
    that were there. -/
def Explains (x : Action α) : Prop :=
  ∀ p, (x p).1 = none → ∃ g gs, (x p).2.diagnostics = p.diagnostics ++ g :: gs

/-- An action that accounts for giving up says why it did. -/
theorem Accounts.explains (hx : Accounts c x g) (hf : Forward x) : x.Explains := by
  intro p hnone
  have hp := hx p
  obtain ⟨rs, hrs⟩ := (hf p).reports
  rcases hr : x p with ⟨_ | a, q⟩ <;> rw [hr] at hp hrs hnone
  · change p.reports.size < q.reports.size at hp
    change p.reports.toList ++ rs = q.reports.toList at hrs
    obtain _ | ⟨r, rs⟩ := rs
    · rw [List.append_nil] at hrs
      exact absurd (congrArg List.length hrs) (Nat.ne_of_lt hp)
    · refine ⟨r.diagnostic, rs.map Report.diagnostic, ?_⟩
      simp only [Parser.diagnostics, ← hrs, List.map_append, List.map_cons]
  · cases hnone

end Action

/-! ### Forms -/

namespace Form

open ScriptFront.Action

variable {expr : Precedence → Action Expr} (h : ∀ q, Accounts 0 (expr q) Expr.gaps)

include h

/-- A value that could not be read is missing, which is a gap. -/
theorem accounts_value : Accounts 0 (value expr) valueGaps := by
  have hv : Accounts 0 (total (expr .lowest)) valueGaps := by
    intro p
    have hp := (h .lowest).total p
    rcases hx : total (expr .lowest) p with ⟨_ | _ | e, q⟩ <;> rw [hx] at hp <;> exact hp
  refine hv.bind fun v => ?_
  rw [skipSemicolon_eq]
  have hskip : Accounts (valueGaps v) (do if ← peekIs .semicolon then advance)
      fun _ => valueGaps v :=
    (accounts_ask _).bind fun _ => .ite accounts_advance (accounts_pure (Nat.le_refl _))
  exact hskip.bind_pure fun _ => Nat.le_refl _

/-- The gaps in a statement are those in its value. -/
theorem accounts_stmtOf (f : StmtForm) : Accounts 0 (stmtOf expr f) Stmt.gaps := by
  have hvalue := accounts_value h
  cases f with
  | letStmt =>
    refine (accounts_ask _).bind fun token => ?_
    refine (accounts_expect .ident).bind fun _ => ?_
    refine (accounts_ask _).bind fun name => ?_
    refine (accounts_expect .assign).bind fun _ => ?_
    refine accounts_advance.bind fun _ => ?_
    exact hvalue.bind_pure fun _ => Nat.le_refl _
  | returnStmt =>
    refine (accounts_ask _).bind fun token => ?_
    refine accounts_advance.bind fun _ => ?_
    exact hvalue.bind_pure fun _ => Nat.le_refl _
  | exprStmt =>
    refine (accounts_ask _).bind fun token => ?_
    exact hvalue.bind_pure fun _ => Nat.le_refl _

theorem accounts_stmt : Accounts 0 (stmt expr) Stmt.gaps := fun p => accounts_stmtOf h _ p

/-- A statement that could not be read is left out, so that its report is one
    more than there have to be. -/
theorem accounts_stmtsUpTo (stop : List Kind) :
    ∀ n, Accounts 0 (total (stmtsUpTo expr stop n)) Stmt.gapsAll
  | 0 => accounts_pure (Nat.le_refl _)
  | n + 1 => by
    rw [stmtsUpTo_succ]
    refine (accounts_ask _).bind fun _ => .ite (accounts_pure (Nat.le_refl _)) ?_
    refine (accounts_stmt h).total.bind fun s => ?_
    refine accounts_advance.bind fun _ => ?_
    refine ((accounts_stmtsUpTo stop n).frame _).bind_pure fun ss => ?_
    cases s with
    | none => exact Nat.le_add_left _ _
    | some s => exact Nat.le_refl _

theorem accounts_stmts (stop : List Kind) : Accounts 0 (total (stmts expr stop)) Stmt.gapsAll :=
  (accounts_ask fun p => p.ahead.length).bind (accounts_stmtsUpTo h stop)

theorem accounts_block : Accounts 0 (total (block expr)) Block.gaps := by
  rw [total_block]
  refine (accounts_ask _).bind fun o => ?_
  refine accounts_advance.bind fun _ => ?_
  exact (accounts_stmts h [.rbrace]).bind_pure fun _ => Nat.le_refl _

theorem accounts_alternative : Accounts 0 (alternative expr) alternativeGaps := by
  refine (accounts_ask _).bind fun _ => .ite ?_ (accounts_pure (Nat.le_refl _))
  refine accounts_advance.bind fun _ => ?_
  refine (accounts_expect .lbrace).bind fun _ => ?_
  exact (accounts_block h).bind_pure fun _ => Nat.le_refl _

omit h in
theorem accounts_parameter : Accounts 0 parameter fun _ => 0 := by
  refine (accounts_expect .ident).bind fun _ => ?_
  exact (accounts_ask _).bind_pure fun _ => Nat.le_refl _

omit h in
/-- An integer has no gaps, and one that has no value is reported. -/
theorem accounts_integer : Accounts 0 integer Expr.gaps := by
  refine (accounts_ask _).bind fun t => ?_
  cases Numeral.value? t.literal with
  | none => exact accounts_refuse _
  | some n => exact accounts_pure (Nat.le_refl _)

/-- The gaps in the condition of a choice are in hand while its first block is
    read, and those in that block too while the second one is. -/
theorem accounts_cond : Accounts 0 (cond expr) Expr.gaps := by
  refine (accounts_ask _).bind fun token => ?_
  refine (accounts_expect .lparen).bind fun _ => ?_
  refine accounts_advance.bind fun _ => ?_
  refine (h .lowest).bind fun c => ?_
  refine (accounts_expect .rparen).bind fun _ => ?_
  refine (accounts_expect .lbrace).bind fun _ => ?_
  have ha : Accounts c.gaps (total (block expr)) fun a => c.gaps + a.gaps :=
    (accounts_block h).frame c.gaps
  refine ha.bind fun a => ?_
  have hb : Accounts (c.gaps + a.gaps) (alternative expr)
      fun b => c.gaps + a.gaps + alternativeGaps b :=
    (accounts_alternative h).frame (c.gaps + a.gaps)
  exact hb.bind_pure fun _ => Nat.le_refl _

/-- The parameters of a function are names, which have no gaps. -/
theorem accounts_func : Accounts 0 (func expr) Expr.gaps := by
  refine (accounts_ask _).bind fun token => ?_
  refine (accounts_expect .lparen).bind fun _ => ?_
  refine accounts_parameter.parenthesised.bind fun ps => ?_
  rw [gapsIn_zero]
  refine (accounts_expect .lbrace).bind fun _ => ?_
  exact (accounts_block h).bind_pure fun _ => Nat.le_refl _

/-- The gaps in an expression are those in its parts. -/
theorem accounts_prefixOf (f : PrefixForm) : Accounts 0 (prefixOf expr f) Expr.gaps := by
  cases f with
  | identifier => exact (accounts_ask _).bind_pure fun _ => Nat.le_refl _
  | integer => exact accounts_integer
  | boolean => exact (accounts_ask _).bind_pure fun _ => Nat.le_refl _
  | operator =>
    refine (accounts_ask _).bind fun token => ?_
    refine accounts_advance.bind fun _ => ?_
    exact (h .prefixOp).bind_pure fun _ => Nat.le_refl _
  | group =>
    refine accounts_advance.bind fun _ => ?_
    refine (h .lowest).bind fun e => ?_
    exact (accounts_expect .rparen).bind_pure fun _ => Nat.le_refl _
  | cond => exact accounts_cond h
  | func => exact accounts_func h

theorem accounts_argument : Accounts 0 (argument expr) Expr.gaps :=
  accounts_advance.bind fun _ => h .lowest

/-- The expression on the left was read before, with the gaps in it. -/
theorem accounts_infixOf (left : Expr) (q : Precedence) (f : InfixForm) :
    Accounts left.gaps (infixOf expr left q f) Expr.gaps := by
  cases f with
  | operator =>
    refine (accounts_ask _).bind fun token => ?_
    refine accounts_advance.bind fun _ => ?_
    have hright : Accounts left.gaps (expr q) fun e => left.gaps + e.gaps :=
      (h q).frame left.gaps
    exact hright.bind_pure fun _ => Nat.le_refl _
  | call =>
    refine (accounts_ask _).bind fun token => ?_
    have harguments : Accounts left.gaps (Action.parenthesised (argument expr))
        fun es => left.gaps + gapsIn Expr.gaps es :=
      (accounts_argument h).parenthesised.frame left.gaps
    refine harguments.bind_pure fun es => ?_
    exact Nat.add_le_add_left (Nat.le_of_eq (gapsAll_eq_gapsIn es)) _

/-- By recursion on the bound: what was read so far is the left part of what
    comes. -/
theorem accounts_extendUpTo (q : Precedence) :
    ∀ n left, Accounts left.gaps (extendUpTo expr q n left) Expr.gaps
  | 0, _ => accounts_pure (Nat.le_refl _)
  | n + 1, left => by
    refine (accounts_ask _).bind fun c => ?_
    rcases c with _ | ⟨r, f⟩
    · exact accounts_pure (Nat.le_refl _)
    · refine accounts_advance.bind fun _ => ?_
      exact (accounts_infixOf h left r f).bind (accounts_extendUpTo q n)

theorem accounts_extend (q : Precedence) (left : Expr) :
    Accounts left.gaps (extend expr q left) Expr.gaps :=
  (accounts_ask fun p => p.ahead.length).bind fun n => accounts_extendUpTo h q n left

theorem accounts_start : Accounts 0 (start expr) Expr.gaps := by
  refine (accounts_ask _).bind fun _ => (accounts_ask _).bind fun f => ?_
  cases f with
  | none => exact accounts_refuse _
  | some f => exact accounts_prefixOf h f

/-- An expression accounts for its gaps if the reader of the expressions inside
    it does. -/
theorem accounts_expression (q : Precedence) : Accounts 0 (expression expr q) Expr.gaps :=
  (accounts_start h).bind (accounts_extend h q)

end Form

namespace Parser

open ScriptFront.Action

/-- By induction on the levels of nesting that are left: with none, the reader
    refuses. -/
theorem accounts_expressionWithin : ∀ n q, Accounts 0 (expressionWithin n q) Expr.gaps
  | 0, _ => accounts_refuse _
  | n + 1, q => (Form.accounts_expression (accounts_expressionWithin n) q).nested

/-- Every reader of expressions accounts for the gaps in what it answers with. -/
theorem accounts_expression (q : Precedence) : Accounts 0 (expression q) Expr.gaps :=
  (accounts_ask levels).bind fun n => accounts_expressionWithin n q

/-- Of a program there are no more gaps than reports were made. -/
theorem accounts_program : Accounts 0 (total program) Program.gaps :=
  (Form.accounts_stmts accounts_expression []).bind_pure (m := Program.mk) fun _ => Nat.le_refl _

end Parser

/-- Of the statements of a program, in its blocks too, there are at most as many
    without a value as diagnostics were made. Whatever is asked for and not
    answered, a statement, an expression or any form of them, is explained by a
    diagnostic. So a program that is read without one lacks no value, and no
    statement: its statements are derived from all tokens of the text, with a
    closing brace for each block that is open at its end. -/
theorem gaps_parse_le (source : String) :
    (parse source).1.gaps ≤ (parse source).2.diagnostics.length ∧
    (Parser.stmt.Explains ∧ (∀ q, (Parser.expression q).Explains) ∧
      (∀ f, (Form.stmtOf Parser.expression f).Explains) ∧
      (∀ f, (Form.prefixOf Parser.expression f).Explains) ∧
      ∀ left q f, (Form.infixOf Parser.expression left q f).Explains) ∧
    ((parse source).2.diagnostics = [] → (parse source).1.gaps = 0 ∧
      ∃ k n, Derives ((Token.tokenize source).dropLast ++ closing k)
        (.body (parse source).1.statements) n) := by
  have hle : (parse source).1.gaps ≤ (parse source).2.diagnostics.length := by
    have hp : 0 + (parse source).1.gaps ≤ (parse source).2.reports.size :=
      (Parser.accounts_program (Parser.ofString source)).2
    rwa [Nat.zero_add, ← Array.length_toList, ← List.length_map Report.diagnostic] at hp
  have he := Parser.accounts_expression
  have hf := Parser.forward_expression
  refine ⟨hle, ⟨?_, ?_, ?_, ?_, ?_⟩, fun hnil => ⟨?_, ?_⟩⟩
  · exact (Form.accounts_stmt he).explains (Form.forward_stmt hf)
  · exact fun q => (he q).explains (hf q)
  · exact fun f => (Form.accounts_stmtOf he f).explains (Action.compositional_forward.stmtOf hf f)
  · exact fun f =>
      (Form.accounts_prefixOf he f).explains (Action.compositional_forward.prefixOf hf f)
  · exact fun left q f =>
      (Form.accounts_infixOf he left q f).explains (Form.forward_infixOf hf left q f)
  · rw [hnil] at hle
    exact Nat.eq_zero_of_le_zero hle
  · obtain ⟨k, n, -, hd⟩ := exists_derives_of_parse hnil
    exact ⟨k, n, hd⟩

/-- Two gaps, one in the block of the other statement, each with a
    diagnostic; and a block without any. -/
theorem gaps_parse_le_function :
    (parse "let f = fn() { let x = ; y }; return ;").1.gaps = 2 ∧
      (parse "let f = fn() { let x = ; y }; return ;").2.diagnostics.length = 2 ∧
      (parse "let f = fn() { return x; };").2.diagnostics = [] ∧
      (parse "let f = fn() { return x; };").1.gaps = 0 := by
  have h : (parse "let f = fn() { return x; };").2.diagnostics = [] := by decide +kernel
  exact ⟨by decide +kernel, by decide +kernel, h, ((gaps_parse_le _).2.2 h).1⟩

end ScriptFront

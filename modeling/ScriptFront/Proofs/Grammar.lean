import Mathlib.Data.List.Basic
import ScriptFront.Numeral
import ScriptFront.Parser.Dialect
import ScriptFront.Tree.Basic

/-!
# The grammar

Which rows of tokens are programs, and which trees they stand for. An
expression has a *level*: how tightly its outermost parts are held together. An
operator with the precedence `p` has on its left an expression of level at
least `p` and on its right one above `p`, so that operators of one precedence
group from the left; what is called is of level `call` at least. Names,
literals, groups, choices and functions are `closed`: nothing comes between
their parts, and they are above every precedence.

A derivation (`Derives`) also counts its *nesting*: how many expressions stand
in each other. What is in parentheses, an operand on the right, an argument, a
condition and the value of a statement in a block are one deeper than what they
are in; an operand on the left and what is called are not.

Statements may be separated by semicolons. Without one, the token after a
statement must not be one that would continue it.
-/

namespace ScriptFront

/-! ### Levels -/

namespace Kind

/-- How tightly an operator between two operands binds. -/
def operator? : Kind → Option Precedence
  | eq | notEq => some .equals
  | lt | gt => some .lessGreater
  | plus | minus => some .sum
  | asterisk | slash => some .product
  | _ => none

/-- How tightly a token that continues an expression binds what stands before
    it: an operator, or the parenthesis that opens the arguments of a call. -/
def continues? (k : Kind) : Option Precedence := if k = lparen then some .call else k.operator?

/-- Whether an expression may start with this kind of token. -/
def opens : Kind → Bool
  | ident | int | kwTrue | kwFalse | bang | minus | lparen | kwIf | kwFn => true
  | _ => false

/-- Whether a statement may start with this kind of token. -/
def starts (k : Kind) : Bool := k == kwLet || k == kwReturn || k.opens

/-- An operator continues an expression at its own precedence. -/
theorem continues?_of_operator {k : Kind} {p : Precedence} (h : k.operator? = some p) :
    k.continues? = some p := by
  cases k <;> simp_all [continues?, operator?]

theorem ne_of_operator {k k' : Kind} {p : Precedence} (h : k.operator? = some p)
    (h' : k'.operator? = none) : k ≠ k' := by
  rintro rfl
  rw [h'] at h
  cases h

/-- An operator between operands binds less tightly than one in front. -/
theorem operator_lt_prefixOp {k : Kind} {p : Precedence} (h : k.operator? = some p) :
    p < .prefixOp := by
  cases k <;> simp only [operator?, reduceCtorEq, Option.some.injEq] at h <;> subst h <;> decide

/-- Whatever continues an expression binds more tightly than the lowest
    precedence. -/
theorem lowest_lt_of_continues {k : Kind} {p : Precedence} (h : k.continues? = some p) :
    .lowest < p := by
  cases k <;> simp only [continues?, operator?, reduceCtorEq, if_true, if_false,
    Option.some.injEq] at h <;> subst h <;> decide

end Kind

/-- How tightly the outermost parts of an expression are held together. -/
inductive Level
  /-- By an operator of this precedence. -/
  | operator (p : Precedence)
  /-- So that nothing can come between them. -/
  | closed
  deriving DecidableEq

namespace Level

/-- Whether a level is `p` or above it. -/
def AtLeast (p : Precedence) : Level → Prop
  | operator q => p ≤ q
  | closed => True

/-- Whether a level is above `p`. -/
def Above (p : Precedence) : Level → Prop
  | operator q => p < q
  | closed => True

instance {p : Precedence} : ∀ l : Level, Decidable (l.AtLeast p)
  | operator q => inferInstanceAs (Decidable (p ≤ q))
  | closed => .isTrue trivial

instance {p : Precedence} : ∀ l : Level, Decidable (l.Above p)
  | operator q => inferInstanceAs (Decidable (p < q))
  | closed => .isTrue trivial

/-- Whether an expression of this level is read as a whole at the precedence
    `q`. What starts with an operator always is. -/
def ReadAt (q : Precedence) : Level → Prop
  | operator p => p = .prefixOp ∨ q < p
  | closed => True

/-- Whether the first of the tokens `rest` takes nothing away from an expression
    of level `l` before it. -/
def Holds (l : Level) (rest : List Token) : Prop :=
  ∀ t ∈ rest.head?, ∀ p, t.kind.continues? = some p → l.AtLeast p

variable {l : Level} {p q : Precedence} {t : Token} {rest : List Token}

/-- What is at least as tight as `q` is at least as tight as what is below `q`. -/
theorem AtLeast.mono (h : l.AtLeast q) (hpq : p ≤ q) : l.AtLeast p := by
  cases l with
  | operator r => exact Nat.le_trans hpq h
  | closed => trivial

theorem AtLeast.above (h : l.AtLeast q) (hpq : p < q) : l.Above p := by
  cases l with
  | operator r => exact Nat.lt_of_lt_of_le hpq h
  | closed => trivial

theorem Above.readAt (h : l.Above p) : l.ReadAt p := by
  cases l with
  | operator r => exact .inr h
  | closed => trivial

theorem AtLeast.readAt (h : l.AtLeast p) (hq : q < p) : l.ReadAt q := by
  cases l with
  | operator r => exact .inr (Nat.lt_of_lt_of_le hq h)
  | closed => trivial

/-- What starts with an operator is read as a whole at the precedence of such
    operators. -/
theorem AtLeast.readAt_prefixOp (h : l.AtLeast .prefixOp) : l.ReadAt .prefixOp := by
  cases l with
  | operator r => exact (Nat.eq_or_lt_of_le h).imp (fun h => Precedence.rank_inj.1 h.symm) id
  | closed => trivial

theorem ReadAt.atLeast (h : l.ReadAt q) (hq : q ≤ .prefixOp) : l.AtLeast q := by
  cases l with
  | operator r =>
    rcases h with rfl | h
    · exact hq
    · exact Nat.le_of_lt h
  | closed => trivial

/-- Below that precedence, what is read as a whole is above it. -/
theorem ReadAt.above (h : l.ReadAt q) (hq : q < .prefixOp) : l.Above q := by
  cases l with
  | operator r =>
    rcases h with rfl | h
    · exact hq
    · exact h
  | closed => trivial

theorem ReadAt.lt (h : (operator p).ReadAt q) (hp : p ≠ .prefixOp) : q < p := h.resolve_left hp

/-- A token that takes nothing away from a weaker expression takes nothing away
    from a tighter one. -/
theorem Holds.mono (h : (operator q).Holds rest) (hl : l.AtLeast q) : l.Holds rest :=
  fun t ht p hp => hl.mono (h t ht p hp)

/-- Nothing takes a part away from a name, a literal or what ends with its own
    delimiter. -/
theorem holds_closed : closed.Holds rest := fun _ _ _ _ => trivial

theorem holds_call : (operator .call).Holds rest := by
  intro t _ p _
  cases p <;> decide

/-- A token that continues nothing takes nothing away. -/
theorem holds_of_none (h : ∀ t ∈ rest.head?, t.kind.continues? = none) : l.Holds rest := by
  intro t ht p hp
  rw [h t ht] at hp
  cases hp

/-- At the lowest precedence only such a token takes nothing away. -/
theorem Holds.continues?_eq_none (h : (operator .lowest).Holds rest) :
    ∀ t ∈ rest.head?, t.kind.continues? = none := by
  intro t ht
  rcases hc : t.kind.continues? with _ | p
  · rfl
  · exact absurd (Kind.lowest_lt_of_continues hc) (Nat.not_lt_of_le (h t ht p hc))

end Level

/-! ### Derivations -/

/-- `{, name}`. -/
inductive Derives.Names : List Token → List Ident → Prop
  | nil : Names [] []
  | cons {c t : Token} {ts : List Token} {ps : List Ident} : c.kind = .comma → t.kind = .ident →
      Names ts ps → Names (c :: t :: ts) (⟨t, t.literal⟩ :: ps)

/-- `[name {, name}]`, the parameters of a function. -/
inductive Derives.Params : List Token → List Ident → Prop
  | nil : Params [] []
  | cons {t : Token} {ts : List Token} {ps : List Ident} : t.kind = .ident →
      Derives.Names ts ps → Params (t :: ts) (⟨t, t.literal⟩ :: ps)

/-- What a row of tokens can stand for. -/
inductive Phrase
  /-- An expression of some level. -/
  | expr (e : Expr) (l : Level)
  /-- The arguments of a call. -/
  | args (es : List Expr)
  /-- The arguments after the first one, each after a comma. -/
  | moreArgs (es : List Expr)
  /-- A block, with its braces. -/
  | block (b : Block)
  /-- A statement, without the semicolon after it. -/
  | stmt (s : Stmt)
  /-- What a program or a block consists of. -/
  | body (ss : List Stmt)

/-- `Derives ts ph n`: the tokens `ts` stand for `ph`, with `n` expressions in
    each other. -/
inductive Derives : List Token → Phrase → Nat → Prop
  | ident {t : Token} : t.kind = .ident → Derives [t] (.expr (.ident ⟨t, t.literal⟩) .closed) 1
  | int {t : Token} {v : Nat} : t.kind = .int → Numeral.value? t.literal = some v →
      Derives [t] (.expr (.int t v) .closed) 1
  | kwTrue {t : Token} : t.kind = .kwTrue → Derives [t] (.expr (.bool t true) .closed) 1
  | kwFalse {t : Token} : t.kind = .kwFalse → Derives [t] (.expr (.bool t false) .closed) 1
  /-- `( e )`, which stands for the same as `e`. -/
  | group {o c : Token} {ts : List Token} {e : Expr} {l : Level} {n : Nat} : o.kind = .lparen →
      Derives ts (.expr e l) n → c.kind = .rparen →
      Derives (o :: ts ++ [c]) (.expr e .closed) (n + 1)
  /-- `if ( e ) block`. -/
  | cond {i o c : Token} {ts us : List Token} {e : Expr} {l : Level} {b : Block} {m n : Nat} :
      i.kind = .kwIf → o.kind = .lparen → Derives ts (.expr e l) m → c.kind = .rparen →
      Derives us (.block b) n →
      Derives (i :: o :: ts ++ c :: us) (.expr (.cond i e b none) .closed) (max m n + 1)
  /-- `if ( e ) block else block`. -/
  | condElse {i o c s : Token} {ts us vs : List Token} {e : Expr} {l : Level} {a b : Block}
      {m n k : Nat} : i.kind = .kwIf → o.kind = .lparen → Derives ts (.expr e l) m →
      c.kind = .rparen → Derives us (.block a) n → s.kind = .kwElse → Derives vs (.block b) k →
      Derives (i :: o :: ts ++ c :: us ++ s :: vs) (.expr (.cond i e a (some b)) .closed)
        (max (max m n) k + 1)
  /-- `fn ( names ) block`. -/
  | func {f o c : Token} {ts us : List Token} {ps : List Ident} {b : Block} {n : Nat} :
      f.kind = .kwFn → o.kind = .lparen → Derives.Params ts ps → c.kind = .rparen →
      Derives us (.block b) n →
      Derives (f :: o :: ts ++ c :: us) (.expr (.func f ps b) .closed) (n + 1)
  /-- `!e` and `-e`. -/
  | prefixOp {o : Token} {ts : List Token} {e : Expr} {l : Level} {n : Nat} :
      o.kind = .bang ∨ o.kind = .minus → Derives ts (.expr e l) n → l.AtLeast .prefixOp →
      Derives (o :: ts) (.expr (.prefixOp o o.literal e) (.operator .prefixOp)) (n + 1)
  /-- `e operator e`. -/
  | infixOp {o : Token} {ts us : List Token} {e f : Expr} {l r : Level} {p : Precedence}
      {m n : Nat} : Derives ts (.expr e l) m → l.AtLeast p → o.kind.operator? = some p →
      Derives us (.expr f r) n → r.Above p →
      Derives (ts ++ o :: us) (.expr (.infixOp o o.literal e f) (.operator p)) (max m (n + 1))
  /-- `e ( arguments )`. -/
  | call {o c : Token} {ts us : List Token} {e : Expr} {l : Level} {es : List Expr} {m n : Nat} :
      Derives ts (.expr e l) m → l.AtLeast .call → o.kind = .lparen → Derives us (.args es) n →
      c.kind = .rparen →
      Derives (ts ++ o :: us ++ [c]) (.expr (.call o e es) (.operator .call)) (max m (n + 1))
  | noArgs : Derives [] (.args []) 0
  | args {ts us : List Token} {e : Expr} {l : Level} {es : List Expr} {m n : Nat} :
      Derives ts (.expr e l) m → Derives us (.moreArgs es) n →
      Derives (ts ++ us) (.args (e :: es)) (max m n)
  | noMoreArgs : Derives [] (.moreArgs []) 0
  | moreArgs {c : Token} {ts us : List Token} {e : Expr} {l : Level} {es : List Expr} {m n : Nat} :
      c.kind = .comma → Derives ts (.expr e l) m → Derives us (.moreArgs es) n →
      Derives (c :: ts ++ us) (.moreArgs (e :: es)) (max m n)
  /-- `{ body }`. -/
  | block {o c : Token} {ts : List Token} {ss : List Stmt} {n : Nat} : o.kind = .lbrace →
      Derives ts (.body ss) n → c.kind = .rbrace →
      Derives (o :: ts ++ [c]) (.block (.mk o ss)) n
  /-- `let name = e`. -/
  | letStmt {t x a : Token} {ts : List Token} {e : Expr} {l : Level} {n : Nat} :
      t.kind = .kwLet → x.kind = .ident → a.kind = .assign → Derives ts (.expr e l) n →
      Derives (t :: x :: a :: ts) (.stmt (.letStmt t ⟨x, x.literal⟩ (some e))) n
  /-- `return e`. -/
  | returnStmt {t : Token} {ts : List Token} {e : Expr} {l : Level} {n : Nat} :
      t.kind = .kwReturn → Derives ts (.expr e l) n →
      Derives (t :: ts) (.stmt (.returnStmt t (some e))) n
  | exprStmt {t : Token} {ts : List Token} {e : Expr} {l : Level} {n : Nat} :
      Derives (t :: ts) (.expr e l) n → Derives (t :: ts) (.stmt (.exprStmt t (some e))) n
  | noStmts : Derives [] (.body []) 0
  /-- A statement with the semicolon after it. -/
  | stmtsSemicolon {c : Token} {ts us : List Token} {s : Stmt} {ss : List Stmt} {m n : Nat} :
      Derives ts (.stmt s) m → c.kind = .semicolon → Derives us (.body ss) n →
      Derives (ts ++ c :: us) (.body (s :: ss)) (max m n)
  /-- A statement without a semicolon after it. -/
  | stmts {ts us : List Token} {s : Stmt} {ss : List Stmt} {m n : Nat} :
      Derives ts (.stmt s) m → Derives us (.body ss) n →
      (∀ t ∈ us.head?, t.kind.continues? = none) → Derives (ts ++ us) (.body (s :: ss)) (max m n)

namespace Derives

/-- An expression starts with a token that opens one. -/
theorem opens : ∀ {ts e l n}, Derives ts (.expr e l) n → ∃ t us, ts = t :: us ∧ t.kind.opens
  | _, _, _, _, ident h | _, _, _, _, int h _ | _, _, _, _, kwTrue h | _, _, _, _, kwFalse h
  | _, _, _, _, group h _ _ | _, _, _, _, cond h _ _ _ _ | _, _, _, _, condElse h _ _ _ _ _ _
  | _, _, _, _, func h _ _ _ _ => ⟨_, _, rfl, by rw [h]; rfl⟩
  | _, _, _, _, prefixOp h _ _ => ⟨_, _, rfl, by rcases h with h | h <;> rw [h] <;> rfl⟩
  | _, _, _, _, infixOp h _ _ _ _ | _, _, _, _, call h _ _ _ _ => by
    obtain ⟨t, us, rfl, ht⟩ := h.opens
    exact ⟨t, _, rfl, ht⟩

/-- An expression is one expression at least. -/
theorem nesting_pos : ∀ {ts e l n}, Derives ts (.expr e l) n → 0 < n
  | _, _, _, _, ident _ | _, _, _, _, int _ _ | _, _, _, _, kwTrue _ | _, _, _, _, kwFalse _
  | _, _, _, _, group _ _ _ | _, _, _, _, cond _ _ _ _ _ | _, _, _, _, condElse _ _ _ _ _ _ _
  | _, _, _, _, func _ _ _ _ _ | _, _, _, _, prefixOp _ _ _ => Nat.succ_pos _
  | _, _, _, _, infixOp h _ _ _ _ | _, _, _, _, call h _ _ _ _ =>
    Nat.lt_of_lt_of_le h.nesting_pos (Nat.le_max_left _ _)

/-- A block starts with its opening brace. -/
theorem opens_block {ts : List Token} {b : Block} {n : Nat} (h : Derives ts (.block b) n) :
    ∃ o us, ts = o :: us ∧ o.kind = .lbrace := by
  cases h with
  | block h => exact ⟨_, _, rfl, h⟩

/-- Arguments after the first one start with a comma. -/
theorem head?_moreArgs {ts : List Token} {es : List Expr} {n : Nat}
    (h : Derives ts (.moreArgs es) n) : ∀ t ∈ ts.head?, t.kind = .comma := by
  cases h with
  | noMoreArgs => simp
  | moreArgs h => simpa using h

/-- A statement starts with a token that starts one. -/
theorem starts {ts : List Token} {s : Stmt} {n : Nat} (h : Derives ts (.stmt s) n) :
    ∃ t us, ts = t :: us ∧ t.kind.starts := by
  cases h with
  | letStmt h | returnStmt h => exact ⟨_, _, rfl, by rw [h]; rfl⟩
  | exprStmt h =>
    obtain ⟨t, us, ht, ho⟩ := h.opens
    exact ⟨t, us, ht, by simp [Kind.starts, ho]⟩

theorem starts_head? {ts : List Token} {ss : List Stmt} {n : Nat} (h : Derives ts (.body ss) n) :
    ∀ t ∈ ts.head?, t.kind.starts := by
  cases h with
  | noStmts => simp
  | stmtsSemicolon h | stmts h =>
    obtain ⟨t, us, rfl, ht⟩ := h.starts
    simpa using ht

/-- A block ends with its closing brace. -/
theorem closes_block {ts : List Token} {b : Block} {n : Nat} (h : Derives ts (.block b) n) :
    ∃ us c, ts = us ++ [c] ∧ c.kind = .rbrace := by
  cases h with
  | block _ _ h => exact ⟨_, _, rfl, h⟩

/-- The semicolon after an expression is no part of it. -/
theorem closes : ∀ {ts e l n}, Derives ts (.expr e l) n →
    ∃ us c, ts = us ++ [c] ∧ c.kind ≠ .semicolon
  | _, _, _, _, ident h | _, _, _, _, int h _ | _, _, _, _, kwTrue h | _, _, _, _, kwFalse h =>
    ⟨[], _, rfl, by simp [h]⟩
  | _, _, _, _, group _ _ h | _, _, _, _, call _ _ _ _ h => ⟨_, _, rfl, by simp [h]⟩
  | _, _, _, _, cond _ _ _ _ h | _, _, _, _, condElse _ _ _ _ _ _ h
  | _, _, _, _, func _ _ _ _ h => by
    obtain ⟨us, c, rfl, hc⟩ := h.closes_block
    exact ⟨_, c, (List.append_assoc _ (_ :: us) [c]).symm, by simp [hc]⟩
  | _, _, _, _, prefixOp _ h _ => by
    obtain ⟨us, c, rfl, hc⟩ := h.closes
    exact ⟨_ :: us, c, rfl, hc⟩
  | _, _, _, _, infixOp _ _ _ h _ => by
    obtain ⟨us, c, rfl, hc⟩ := h.closes
    exact ⟨_, c, (List.append_assoc _ (_ :: us) [c]).symm, hc⟩

/-- A semicolon is no part of the statement before it. -/
theorem closes_stmt {ts : List Token} {s : Stmt} {n : Nat} (h : Derives ts (.stmt s) n) :
    ∃ us c, ts = us ++ [c] ∧ c.kind ≠ .semicolon := by
  cases h with
  | letStmt _ _ _ h =>
    obtain ⟨us, c, rfl, hc⟩ := h.closes
    exact ⟨_ :: _ :: _ :: us, c, rfl, hc⟩
  | returnStmt _ h =>
    obtain ⟨us, c, rfl, hc⟩ := h.closes
    exact ⟨_ :: us, c, rfl, hc⟩
  | exprStmt h => exact h.closes

end Derives

/-! ### Tokens of a derivation -/

/-- The number of tokens of a kind. -/
def countKind (k : Kind) (ts : List Token) : Nat := ts.countP fun t => t.kind == k

section

variable {k : Kind} {t : Token} {ts us : List Token}

@[simp] theorem countKind_nil : countKind k [] = 0 := rfl

@[simp] theorem countKind_cons :
    countKind k (t :: ts) = countKind k ts + if t.kind = k then 1 else 0 := by
  simp [countKind, List.countP_cons]

@[simp] theorem countKind_append : countKind k (ts ++ us) = countKind k ts + countKind k us :=
  List.countP_append

end

/-- Whether a token can be a part of a program: it is not a character that
    belongs to nothing, nor an integer that is too large. -/
def Token.legal (t : Token) : Bool :=
  t.kind != .illegal && (t.kind != .int || (Numeral.value? t.literal).isSome)

namespace Derives

variable {ts : List Token} {ps : List Ident} {ph : Phrase} {n : Nat}

/-- Names have no braces. -/
theorem Names.balanced (h : Names ts ps) : countKind .lbrace ts = countKind .rbrace ts := by
  induction h with
  | nil => rfl
  | cons hc ht _ ih => simp [hc, ht, ih]

theorem Params.balanced (h : Params ts ps) : countKind .lbrace ts = countKind .rbrace ts := by
  cases h with
  | nil => rfl
  | cons ht h => simp [ht, h.balanced]

/-- Every brace that a derivation opens it closes. -/
theorem balanced (h : Derives ts ph n) : countKind .lbrace ts = countKind .rbrace ts := by
  induction h with
  | noArgs | noMoreArgs | noStmts => rfl
  | func hf ho hps hc _ ih => simp [hf, ho, hc, hps.balanced, ih]
  | prefixOp ho _ _ ih => rcases ho with ho | ho <;> simp [ho, ih]
  | @infixOp o _ _ _ _ _ _ _ _ _ _ _ ho _ _ ih ih' =>
    -- What stands between two operands is an operator, and so no brace.
    have hl : o.kind ≠ .lbrace := Kind.ne_of_operator ho rfl
    have hr : o.kind ≠ .rbrace := Kind.ne_of_operator ho rfl
    simp [hl, hr, ih, ih']
  | _ => simp_all

/-- Names and the commas between them are legal. -/
theorem Names.legal (h : Names ts ps) : ts.all Token.legal = true := by
  induction h with
  | nil => rfl
  | cons hc ht _ ih => simp_all [Token.legal]

theorem Params.legal (h : Params ts ps) : ts.all Token.legal = true := by
  cases h with
  | nil => rfl
  | cons ht h => simpa [Token.legal, ht] using h.legal

/-- Every token of a derivation is legal. -/
theorem legal (h : Derives ts ph n) : ts.all Token.legal = true := by
  induction h with
  | noArgs | noMoreArgs | noStmts => rfl
  | int h hv => simp [Token.legal, h, hv]
  | func hf ho hps hc _ ih => simp_all [Token.legal, hps.legal]
  | prefixOp ho _ _ ih => rcases ho with ho | ho <;> simp_all [Token.legal]
  | @infixOp o _ _ _ _ _ _ _ _ _ _ _ ho _ _ ih ih' =>
    have hl : o.kind ≠ .illegal := Kind.ne_of_operator ho rfl
    have hr : o.kind ≠ .int := Kind.ne_of_operator ho rfl
    simp [Token.legal, hl, hr, ih, ih']
  | _ => simp_all [Token.legal]

end Derives

end ScriptFront

import ScriptFront.Proofs.RoundTrip

/-!
# Unique readability

A text has one meaning only. The grammar is unambiguous (`Derives.body_unique`):
a row of tokens that is derived as two rows of statements is read as each of
them, by a reader that has as many levels of nesting as both derivations need,
and a reader comes to one result. That reader need not be one of programs, whose
levels are limited.

The tokens of a text are the tokens of the tree that was written, so trees with
the same text have the same tokens, and are the same tree (`text_eq_iff`), up to
the tokens of expressions on their own, of which the text says nothing.
-/

namespace ScriptFront

open Token

/-! ### The grammar -/

/-- What the tokens of a text are derived as is unique, however deep it is
    nested. -/
theorem Derives.body_unique {source : String} {ss ss' : List Stmt} {m n : Nat}
    (h : Derives (tokenize source).dropLast (.body ss) m)
    (h' : Derives (tokenize source).dropLast (.body ss') n) : ss = ss' := by
  have hp : (Parser.ofString source).Before 0 #[] ((tokenize source).dropLast ++ []) := by
    simpa using Parser.before_ofString source
  have hread {rs : List Stmt} {k : Nat} (hd : Derives (tokenize source).dropLast (.body rs) k)
      (hk : k ≤ max m n) :
      (Form.stmts (expressionWithin (max m n)) [] (Parser.ofString source)).1 = rs :=
    ((hd.isRead (max m n) [] _ 0 #[] [] (List.nil_subset _) (by simp) hp).fit hk).1
  rw [← hread h (Nat.le_max_left m n), hread h' (Nat.le_max_right m n)]

/-! ### The tokens of expressions on their own -/

section

variable (f g : Option Expr → Token)

mutual

/-- By structural induction: of two changes of tokens in turn the second one
    sees the values that the first one made. -/
theorem Expr.retoken_retoken : ∀ e : Expr,
    (e.retoken f).retoken g = e.retoken fun v => g (retokenValue f v)
  | .ident _ | .int _ _ | .bool _ _ => rfl
  | .prefixOp _ _ e => by simp only [Expr.retoken, e.retoken_retoken]
  | .infixOp _ _ l r => by simp only [Expr.retoken, l.retoken_retoken, r.retoken_retoken]
  | .cond _ c a b => by
    simp only [Expr.retoken, c.retoken_retoken, a.retoken_retoken, retokenAlternative_retoken b]
  | .func _ _ b => by simp only [Expr.retoken, b.retoken_retoken]
  | .call _ c as => by simp only [Expr.retoken, c.retoken_retoken, Expr.retokenAll_retoken as]

theorem Expr.retokenAll_retoken : ∀ es : List Expr,
    Expr.retokenAll g (Expr.retokenAll f es) = Expr.retokenAll (fun v => g (retokenValue f v)) es
  | [] => rfl
  | e :: es => by simp only [Expr.retokenAll, e.retoken_retoken, Expr.retokenAll_retoken es]

theorem retokenAlternative_retoken : ∀ b : Option Block,
    retokenAlternative g (retokenAlternative f b) =
      retokenAlternative (fun v => g (retokenValue f v)) b
  | none => rfl
  | some b => by simp only [retokenAlternative, b.retoken_retoken]

theorem retokenValue_retoken : ∀ v : Option Expr,
    retokenValue g (retokenValue f v) = retokenValue (fun v => g (retokenValue f v)) v
  | none => rfl
  | some e => by simp only [retokenValue, e.retoken_retoken]

/-- The same of a statement, whose own token is told from its new value. -/
theorem Stmt.retoken_retoken : ∀ s : Stmt,
    (s.retoken f).retoken g = s.retoken fun v => g (retokenValue f v)
  | .letStmt _ _ v | .returnStmt _ v | .exprStmt _ v => by
    simp only [Stmt.retoken, retokenValue_retoken v]

theorem Stmt.retokenAll_retoken : ∀ ss : List Stmt,
    Stmt.retokenAll g (Stmt.retokenAll f ss) = Stmt.retokenAll (fun v => g (retokenValue f v)) ss
  | [] => rfl
  | s :: ss => by simp only [Stmt.retokenAll, s.retoken_retoken, Stmt.retokenAll_retoken ss]

theorem Block.retoken_retoken : ∀ b : Block,
    (b.retoken f).retoken g = b.retoken fun v => g (retokenValue f v)
  | .mk _ ss => by simp only [Block.retoken, Stmt.retokenAll_retoken ss]

end

end

/-- Statements that are alike with some tokens for the expressions on their own
    are alike with one token for all of these. -/
theorem Stmt.retokenAll_const {f : Option Expr → Token} {ss us : List Stmt}
    (h : Stmt.retokenAll f ss = Stmt.retokenAll f us) (t : Token) :
    Stmt.retokenAll (fun _ => t) ss = Stmt.retokenAll (fun _ => t) us := by
  have hss := Stmt.retokenAll_retoken f (fun _ => t) ss
  rw [h, Stmt.retokenAll_retoken] at hss
  exact hss.symm

/-! ### Trees with the same text -/

/-- A well-formed statement is derived from its text, alone. -/
theorem Stmt.derives_alone {s : Stmt} (h : s.WellFormed) :
    Derives (tokenize s.text).dropLast (.body [s.retoken firstToken]) s.nesting := by
  have hall : Stmt.AllWellFormed [s] := ⟨h, trivial⟩
  have hd := derives_text hall (by simp)
  rw [tokenize, Stmt.tokens_text_last h, List.dropLast_concat]
  simpa [Stmt.retokenAll, Stmt.nestingAll] using hd

/-- The text of the statements in a block, before the blank that stands between
    it and the closing brace. -/
theorem Stmt.derives_texts {ss : List Stmt} (h : Stmt.AllWellFormed ss) :
    Derives (tokenize (" ".intercalate (Stmt.texts ss) ++ " ")).dropLast
      (.body (Stmt.retokenAll firstToken ss)) (Stmt.nestingAll ss) := by
  have hscan := Stmt.scans_list ss h []
  rw [tokens_nil] at hscan
  rw [tokenize, String.toList_append, show " ".toList = [' '] from rfl, hscan,
    List.dropLast_concat]
  exact Stmt.derives_all ss h

/-- A well-formed statement can be told from its text. -/
theorem Stmt.retoken_eq_of_text {s u : Stmt} (hs : s.WellFormed) (hu : u.WellFormed)
    (h : s.text = u.text) (t : Token) : (s.retoken fun _ => t) = u.retoken fun _ => t := by
  have hbody : Stmt.retokenAll firstToken [s] = Stmt.retokenAll firstToken [u] :=
    (h ▸ Stmt.derives_alone hs).body_unique (Stmt.derives_alone hu)
  exact (List.cons.inj (Stmt.retokenAll_const hbody t)).1

/-- An expression has the text of the statement that it is on its own. -/
theorem Expr.retoken_eq_of_text {e f : Expr} (he : e.WellFormed) (hf : f.WellFormed)
    (h : e.text = f.text) (t : Token) : (e.retoken fun _ => t) = f.retoken fun _ => t := by
  have hs := Stmt.retoken_eq_of_text (s := .exprStmt t (some e)) (u := .exprStmt t (some f))
    he hf h t
  simp only [Stmt.retoken, retokenValue, Stmt.exprStmt.injEq, Option.some.injEq] at hs
  exact hs.2

theorem Block.retoken_eq_of_text {b c : Block} (hb : b.WellFormed) (hc : c.WellFormed)
    (h : b.text = c.text) (t : Token) : (b.retoken fun _ => t) = c.retoken fun _ => t := by
  obtain ⟨o, ss⟩ := b
  obtain ⟨o', us⟩ := c
  obtain ⟨rfl, hss⟩ := hb
  obtain ⟨rfl, hus⟩ := hc
  rw [Block.text, Block.text] at h
  have hbody := (h ▸ Stmt.derives_texts hss).body_unique (Stmt.derives_texts hus)
  rw [Block.retoken, Block.retoken, Stmt.retokenAll_const hbody t]

/-- Two well-formed expressions have the same text exactly if they are the same,
    with one token `t` in the place of those of all expressions on their own in
    them. So it is with statements, and with blocks, whose text is that of the
    statements in them. How deep they are nested does not matter. -/
theorem text_eq_iff :
    (∀ e f : Expr, e.WellFormed → f.WellFormed →
      (e.text = f.text ↔ ∀ t, (e.retoken fun _ => t) = f.retoken fun _ => t)) ∧
    (∀ s u : Stmt, s.WellFormed → u.WellFormed →
      (s.text = u.text ↔ ∀ t, (s.retoken fun _ => t) = u.retoken fun _ => t)) ∧
    ∀ b c : Block, b.WellFormed → c.WellFormed →
      (b.text = c.text ↔ ∀ t, (b.retoken fun _ => t) = c.retoken fun _ => t) := by
  refine ⟨fun e f he hf => ⟨Expr.retoken_eq_of_text he hf, fun h => ?_⟩,
    fun s u hs hu => ⟨Stmt.retoken_eq_of_text hs hu, fun h => ?_⟩,
    fun b c hb hc => ⟨Block.retoken_eq_of_text hb hc, fun h => ?_⟩⟩
  · rw [← Expr.text_retoken (fun _ => .eof) e, h, Expr.text_retoken]
  · rw [← Stmt.text_retoken (fun _ => .eof) s, h, Stmt.text_retoken]
  · rw [← Block.text_retoken (fun _ => .eof) b, h, Block.text_retoken]

/-- Two functions that differ in the token of the expression in their blocks. -/
theorem text_eq_iff_function :
    ∃ e f : Expr, e.WellFormed ∧ f.WellFormed ∧ e.text = "fn(x) \x7b (-x); \x7d" ∧
      f.text = e.text ∧ e ≠ f ∧ ∀ t, (e.retoken fun _ => t) = f.retoken fun _ => t := by
  have hx : Ident.WellFormed ⟨⟨.ident, "x"⟩, "x"⟩ :=
    ⟨rfl, .name ⟨'x', [], rfl, rfl, rfl⟩ rfl, rfl⟩
  have h : ∀ t, (Expr.func Kind.kwFn.token [⟨⟨.ident, "x"⟩, "x"⟩] (.mk Kind.lbrace.token
      [.exprStmt t (some (.prefixOp Kind.minus.token "-"
        (.ident ⟨⟨.ident, "x"⟩, "x"⟩)))])).WellFormed :=
    fun _ => ⟨rfl, by simpa using hx, rfl, ⟨.inr rfl, rfl, hx⟩, trivial⟩
  exact ⟨_, _, h Kind.minus.token, h Kind.lparen.token, by decide +kernel, rfl, by decide +kernel,
    (text_eq_iff.1 _ _ (h _) (h _)).1 rfl⟩

end ScriptFront

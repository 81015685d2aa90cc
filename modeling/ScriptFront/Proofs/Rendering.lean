import Mathlib.Data.List.Forall2
import ScriptFront.Proofs.WellFormed

/-!
# The text of a well-formed tree

The text of a well-formed tree consists of tokens that can be told from the
tree (`Expr.tokens`, `Stmt.tokens`): they follow each other so that scanning
the text finds them again (`Expr.scans`, `Stmt.scans`). They are a
derivation of the same tree, up to the tokens of expressions on their own,
whose nesting can be told from the tree as well (`Expr.nesting`): an operator
is in parentheses of its own, which is one level more than the tree shows
(`Expr.exists_derives`).
-/

namespace ScriptFront

open Token

/-! ### Tokens -/

mutual

/-- The tokens of the text of an expression. -/
def Expr.tokens : Expr → List Token
  | .ident x => [x.token]
  | .int t _ | .bool t _ => [t]
  | .prefixOp t _ e => Kind.lparen.token :: t :: e.tokens ++ [Kind.rparen.token]
  | .infixOp t _ l r => Kind.lparen.token :: l.tokens ++ t :: r.tokens ++ [Kind.rparen.token]
  | .cond t c a b =>
    t :: Kind.lparen.token :: c.tokens ++ Kind.rparen.token :: a.tokens ++ alternativeTokens b
  | .func t ps b =>
    t :: Kind.lparen.token :: [Kind.comma.token].intercalate (ps.map fun p => [p.token]) ++
      Kind.rparen.token :: b.tokens
  | .call t c as =>
    c.tokens ++ t :: [Kind.comma.token].intercalate (Expr.tokenLists as) ++ [Kind.rparen.token]

/-- The tokens of the texts of some expressions. -/
def Expr.tokenLists : List Expr → List (List Token)
  | [] => []
  | e :: es => e.tokens :: Expr.tokenLists es

/-- The tokens of the text of the second block of a choice. -/
def alternativeTokens : Option Block → List Token
  | none => []
  | some b => Kind.kwElse.token :: b.tokens

/-- The tokens of the text of a value. -/
def valueTokens : Option Expr → List Token
  | none => []
  | some e => e.tokens

/-- The tokens of the text of a statement, without the semicolon after it. -/
def Stmt.tokens : Stmt → List Token
  | .letStmt t x v => t :: x.token :: Kind.assign.token :: valueTokens v
  | .returnStmt t v => t :: valueTokens v
  | .exprStmt _ v => valueTokens v

/-- The tokens of some statements, each with a semicolon after it. -/
def Stmt.tokensAll : List Stmt → List Token
  | [] => []
  | s :: ss => s.tokens ++ Kind.semicolon.token :: Stmt.tokensAll ss

/-- The tokens of the text of a block, with its braces. -/
def Block.tokens : Block → List Token
  | .mk t ss => t :: Stmt.tokensAll ss ++ [Kind.rbrace.token]

end

mutual

/-- How many expressions stand in each other in the text of an expression. -/
def Expr.nesting : Expr → Nat
  | .ident _ | .int _ _ | .bool _ _ => 1
  | .prefixOp _ _ e => e.nesting + 2
  | .infixOp _ _ l r => max (l.nesting + 1) (r.nesting + 2)
  | .cond _ c a b => max (max c.nesting a.nesting) (alternativeNesting b) + 1
  | .func _ _ b => b.nesting + 1
  | .call _ c as => max c.nesting (Expr.argumentsNesting as)

/-- How deep some arguments are nested in a call of them. -/
def Expr.argumentsNesting : List Expr → Nat
  | [] => 0
  | e :: es => max (e.nesting + 1) (Expr.argumentsNesting es)

/-- How many expressions stand in each other in the second block of a
    choice. -/
def alternativeNesting : Option Block → Nat
  | none => 0
  | some b => b.nesting

/-- How many expressions stand in each other in a value. -/
def valueNesting : Option Expr → Nat
  | none => 0
  | some e => e.nesting

/-- How many expressions stand in each other in a statement. -/
def Stmt.nesting : Stmt → Nat
  | .letStmt _ _ v | .returnStmt _ v | .exprStmt _ v => valueNesting v

/-- How many expressions stand in each other in some statements. -/
def Stmt.nestingAll : List Stmt → Nat
  | [] => 0
  | s :: ss => max s.nesting (Stmt.nestingAll ss)

/-- How many expressions stand in each other in a block. -/
def Block.nesting : Block → Nat
  | .mk _ ss => Stmt.nestingAll ss

end

/-! ### Scanning -/

namespace Token

/-- Whether no letter or digit follows. -/
def Breaks (rest : List Char) : Prop := ∀ c ∈ rest.head?, isWordChar c = false

/-- The tokens of a text that is followed by no letter or digit. -/
def Scans (w : String) (ts : List Token) : Prop :=
  ∀ rest, Breaks rest → tokens (w.toList ++ rest) = ts ++ tokens rest

variable {t : Token} {c : Char} {rest : List Char} {w : String}

@[simp] theorem breaks_cons : Breaks (c :: rest) ↔ isWordChar c = false := by
  simp [Breaks]

@[simp] theorem tokens_space : tokens (' ' :: rest) = tokens rest := tokens_blank rfl

@[simp] theorem tokens_lparen : tokens ('(' :: rest) = Kind.lparen.token :: tokens rest :=
  tokens_symbol rfl (by simp)

@[simp] theorem tokens_rparen : tokens (')' :: rest) = Kind.rparen.token :: tokens rest :=
  tokens_symbol rfl (by simp)

@[simp] theorem tokens_lbrace : tokens ('\x7b' :: rest) = Kind.lbrace.token :: tokens rest :=
  tokens_symbol rfl (by simp)

@[simp] theorem tokens_rbrace : tokens ('\x7d' :: rest) = Kind.rbrace.token :: tokens rest :=
  tokens_symbol rfl (by simp)

@[simp] theorem tokens_comma : tokens (',' :: rest) = Kind.comma.token :: tokens rest :=
  tokens_symbol rfl (by simp)

@[simp] theorem tokens_semicolon : tokens (';' :: rest) = Kind.semicolon.token :: tokens rest :=
  tokens_symbol rfl (by simp)

@[simp] theorem tokens_minus : tokens ('-' :: rest) = Kind.minus.token :: tokens rest :=
  tokens_symbol rfl (by simp)

/-- An exclamation mark is a token of its own unless `=` follows. -/
theorem tokens_bang (h : ∀ c ∈ rest.head?, c ≠ '=') :
    tokens ('!' :: rest) = Kind.bang.token :: tokens rest :=
  tokens_symbol rfl fun _ => h

/-- Before a blank, whatever is spelled as a token is scanned as that token. -/
theorem tokens_spelled_space (h : t.Spelled) :
    tokens (t.literal.toList ++ ' ' :: rest) = t :: tokens rest := by
  rw [tokens_spelled h, tokens_space]
  rintro c ⟨⟩
  exact ⟨fun _ => rfl, fun _ => by decide⟩

/-- A word or a number is scanned where no letter or digit follows. -/
theorem scans_of_isWord (h : t.Spelled) (hk : t.kind.isWord = true) : Scans t.literal [t] := by
  intro rest hr
  refine tokens_spelled h fun c hc => ⟨fun _ => hr c hc, fun hs => ?_⟩
  rcases hs with hs | hs <;> simp [hs, Kind.isWord] at hk

/-- Texts with a comma and a blank between any two are scanned as their tokens
    with commas between. -/
theorem scans_intercalate {xs : List String} {tss : List (List Token)}
    (h : List.Forall₂ Scans xs tss) :
    Scans (separator.intercalate xs) ([Kind.comma.token].intercalate tss) := by
  induction h with
  | nil => exact fun rest _ => rfl
  | @cons x ts xs tss hx hxs ih =>
    cases hxs with
    | nil => simpa [-String.toList_intercalate] using hx
    | @cons y us ys uss hy hys =>
      intro rest hr
      have hsplit : (x ++ separator ++ separator.intercalate (y :: ys)).toList ++ rest =
          x.toList ++ ',' :: ' ' :: ((separator.intercalate (y :: ys)).toList ++ rest) := by
        simp [separator, -String.toList_intercalate]
      rw [String.intercalate_cons_cons, hsplit, hx _ (breaks_cons.2 rfl), tokens_comma,
        tokens_space, ih rest hr, List.intercalate_cons_cons]
      simp

end Token

/-- What has a value as a numeral is a number. -/
theorem Numeral.isNumber {w : String} {n : Nat} (h : value? w = some n) : IsNumber w := by
  obtain ⟨⟨hne, hall⟩, -⟩ := value?_eq_some h
  obtain ⟨c, cs, hw⟩ := List.exists_cons_of_ne_nil hne
  rw [hw, List.all_cons, Bool.and_eq_true] at hall
  exact ⟨c, cs, hw, hall.1, hall.2⟩

/-- A name is written as a word. -/
theorem Token.Spelled.isWord {t : Token} (h : t.Spelled) (hk : t.kind = .ident) :
    IsWord t.literal := by
  cases h with
  | fixed hw => cases hk; cases hw
  | name hw => exact hw
  | number => cases hk

/-- An expression does not start with `=`. -/
theorem Expr.head?_text : ∀ e : Expr, e.WellFormed → ∀ rest : List Char,
    ∀ c ∈ (e.text.toList ++ rest).head?, c ≠ '='
  | .ident x, h, rest => by
    obtain ⟨hk, hs, hv⟩ := h
    obtain ⟨c, cs, hw, hc, -⟩ := hs.isWord hk
    rw [Expr.text, hv, hw]
    rintro _ ⟨⟩ rfl
    cases hc
  | .int t _, h, rest => by
    obtain ⟨-, n, hn, -⟩ := h
    obtain ⟨c, cs, hw, hc, -⟩ := Numeral.isNumber hn
    rw [Expr.text, hw]
    rintro _ ⟨⟩ rfl
    cases hc
  | .bool t true, h, rest | .bool t false, h, rest => by
    obtain rfl := h
    rintro _ ⟨⟩
    decide
  | .prefixOp _ _ _, _, rest | .infixOp _ _ _ _, _, rest | .cond _ _ _ _, _, rest => by
    simp [Expr.text]
  | .func t _ _, h, rest => by
    obtain ⟨rfl, -⟩ := h
    simp [Expr.text, Kind.token, Kind.spelling?]
  | .call _ c as, h, rest => by
    have hc := c.head?_text h.2.1
      ('(' :: ((separator.intercalate (Expr.texts as)).toList ++ ')' :: rest))
    simpa [Expr.text] using hc

theorem tokens_if {rest : List Char} :
    Token.tokens ('i' :: 'f' :: ' ' :: rest) = Kind.kwIf.token :: Token.tokens rest :=
  tokens_spelled_space (t := Kind.kwIf.token) (Kind.spelled_token rfl)

theorem tokens_else {rest : List Char} :
    Token.tokens ('e' :: 'l' :: 's' :: 'e' :: ' ' :: rest) =
      Kind.kwElse.token :: Token.tokens rest :=
  tokens_spelled_space (t := Kind.kwElse.token) (Kind.spelled_token rfl)

theorem tokens_assign {rest : List Char} :
    Token.tokens ('=' :: ' ' :: rest) = Kind.assign.token :: Token.tokens rest :=
  tokens_spelled_space (t := Kind.assign.token) (Kind.spelled_token rfl)

/-- A well-formed name is scanned as its token. -/
theorem Ident.scans {x : Ident} (h : x.WellFormed) : Scans x.value [x.token] := by
  obtain ⟨hk, hs, hv⟩ := h
  rw [hv]
  exact scans_of_isWord hs (by rw [hk]; rfl)

mutual

/-- By structural induction: the text of a well-formed expression is scanned as
    its tokens. -/
theorem Expr.scans : ∀ e : Expr, e.WellFormed → Scans e.text e.tokens
  | .ident x, h => Ident.scans h
  | .int t v, h => by
    obtain ⟨hk, n, hn, -⟩ := h
    obtain ⟨k, w⟩ := t
    obtain rfl : k = .int := hk
    exact scans_of_isWord (.number (Numeral.isNumber hn)) rfl
  | .bool t true, h | .bool t false, h => by
    obtain rfl := h
    exact scans_of_isWord (Kind.spelled_token rfl) rfl
  | .prefixOp t o e, ⟨ht, ho, he⟩ => by
    intro rest _
    -- `!` would be read as `!=` before `=`, which no expression starts with.
    have hin := e.scans he (')' :: rest) (breaks_cons.2 rfl)
    have hsplit : (Expr.prefixOp t o e).text.toList ++ rest =
        '(' :: (o.toList ++ (e.text.toList ++ ')' :: rest)) := by simp [Expr.text]
    rw [hsplit, tokens_lparen, ho]
    rcases ht with rfl | rfl
    · rw [show Kind.bang.token.literal.toList = ['!'] from rfl, List.singleton_append,
        tokens_bang (e.head?_text he _), hin, tokens_rparen]
      simp [Expr.tokens]
    · rw [show Kind.minus.token.literal.toList = ['-'] from rfl, List.singleton_append,
        tokens_minus, hin, tokens_rparen]
      simp [Expr.tokens]
  | .infixOp t o l r, ⟨⟨hk, ht, ho⟩, hl, hr⟩ => by
    intro rest _
    have hs : t.Spelled := ht ▸ Kind.spelled_token (Kind.spelling?_of_operator hk)
    have hsplit : (Expr.infixOp t o l r).text.toList ++ rest =
        '(' :: (l.text.toList ++ ' ' :: (o.toList ++ ' ' :: (r.text.toList ++ ')' :: rest))) := by
      simp [Expr.text]
    rw [hsplit, tokens_lparen, l.scans hl _ (breaks_cons.2 rfl), tokens_space, ho,
      tokens_spelled_space hs, r.scans hr _ (breaks_cons.2 rfl), tokens_rparen]
    simp [Expr.tokens]
  | .cond t c a b, ⟨ht, hc, ha, hb⟩ => by
    intro rest hrest
    have hsplit : (Expr.cond t c a b).text.toList ++ rest =
        'i' :: 'f' :: ' ' :: '(' :: (c.text.toList ++ ')' :: ' ' ::
          ((braced a.text).toList ++ ((alternativeText b).toList ++ rest))) := by simp [Expr.text]
    rw [hsplit, tokens_if, tokens_lparen, c.scans hc _ (breaks_cons.2 rfl), tokens_rparen,
      tokens_space, a.scans ha, alternative_scans b hb rest hrest, ← ht]
    simp [Expr.tokens]
  | .func t ps b, ⟨ht, hps, hb⟩ => by
    intro rest _
    have hparams : Scans (separator.intercalate (ps.map Ident.value))
        ([Kind.comma.token].intercalate (ps.map fun p => [p.token])) := by
      refine scans_intercalate (List.forall₂_map_left_iff.2 (List.forall₂_map_right_iff.2 ?_))
      exact List.forall₂_same.2 fun p hp => Ident.scans (hps p hp)
    have hsplit : (Expr.func t ps b).text.toList ++ rest =
        t.literal.toList ++ '(' :: ((separator.intercalate (ps.map Ident.value)).toList ++
          ')' :: ' ' :: ((braced b.text).toList ++ rest)) := by
      simp [Expr.text, -String.toList_intercalate]
    have hfn := scans_of_isWord (t := t) (ht ▸ Kind.spelled_token rfl) (by rw [ht]; rfl)
    rw [hsplit, hfn _ (breaks_cons.2 rfl), tokens_lparen, hparams _ (breaks_cons.2 rfl),
      tokens_rparen, tokens_space, b.scans hb]
    simp [Expr.tokens]
  | .call t c as, ⟨ht, hc, has⟩ => by
    intro rest _
    have hsplit : (Expr.call t c as).text.toList ++ rest =
        c.text.toList ++
          '(' :: ((separator.intercalate (Expr.texts as)).toList ++ ')' :: rest) := by
      simp [Expr.text, -String.toList_intercalate]
    rw [hsplit, c.scans hc _ (breaks_cons.2 rfl), tokens_lparen,
      scans_intercalate (Expr.scans_list as has) _ (breaks_cons.2 rfl), tokens_rparen, ← ht]
    simp [Expr.tokens]

/-- The same of arguments, one by one. -/
theorem Expr.scans_list : ∀ es : List Expr, Expr.AllWellFormed es →
    List.Forall₂ Scans (Expr.texts es) (Expr.tokenLists es)
  | [], _ => .nil
  | e :: es, ⟨he, hes⟩ => .cons (e.scans he) (Expr.scans_list es hes)

theorem alternative_scans : ∀ b : Option Block, alternativeWellFormed b →
    Scans (alternativeText b) (alternativeTokens b)
  | none, _ => fun _ _ => rfl
  | some b, hb => by
    intro rest _
    have hsplit : (alternativeText (some b)).toList ++ rest =
        ' ' :: 'e' :: 'l' :: 's' :: 'e' :: ' ' :: ((braced b.text).toList ++ rest) := by
      simp [alternativeText]
    rw [hsplit, tokens_space, tokens_else, b.scans hb, alternativeTokens, List.cons_append]

theorem value_scans : ∀ v : Option Expr, valueWellFormed v → Scans (valueText v) (valueTokens v)
  | some e, h => e.scans h

/-- A statement in a block, with the semicolon that it ends with there. -/
theorem Stmt.scans : ∀ s : Stmt, s.WellFormed → ∀ rest : List Char,
    Token.tokens ((s.text ++ s.terminator).toList ++ rest) =
      s.tokens ++ Kind.semicolon.token :: Token.tokens rest
  | .letStmt t x v, ⟨ht, hx, hv⟩, rest => by
    have hsplit : ((Stmt.letStmt t x v).text ++ (Stmt.letStmt t x v).terminator).toList ++ rest =
        t.literal.toList ++ ' ' :: (x.value.toList ++ ' ' :: '=' :: ' ' ::
          ((valueText v).toList ++ ';' :: rest)) := by simp [Stmt.text, Stmt.terminator]
    rw [hsplit, tokens_spelled_space (ht ▸ Kind.spelled_token rfl),
      Ident.scans hx _ (breaks_cons.2 rfl), tokens_space, tokens_assign,
      value_scans v hv _ (breaks_cons.2 rfl), tokens_semicolon]
    simp [Stmt.tokens]
  | .returnStmt t v, ⟨ht, hv⟩, rest => by
    have hsplit : ((Stmt.returnStmt t v).text ++ (Stmt.returnStmt t v).terminator).toList ++ rest =
        t.literal.toList ++ ' ' :: ((valueText v).toList ++ ';' :: rest) := by
      simp [Stmt.text, Stmt.terminator]
    rw [hsplit, tokens_spelled_space (ht ▸ Kind.spelled_token rfl),
      value_scans v hv _ (breaks_cons.2 rfl), tokens_semicolon]
    simp [Stmt.tokens]
  | .exprStmt t (some e), he, rest => by
    have hsplit :
        ((Stmt.exprStmt t (some e)).text ++ (Stmt.exprStmt t (some e)).terminator).toList ++ rest =
          e.text.toList ++ ';' :: rest := by simp [Stmt.text, Stmt.terminator, valueText]
    rw [hsplit, e.scans he _ (breaks_cons.2 rfl), tokens_semicolon]
    rfl

/-- The same of the statements in a block, with a blank after each of them. -/
theorem Stmt.scans_list : ∀ ss : List Stmt, Stmt.AllWellFormed ss → ∀ rest : List Char,
    Token.tokens ((" ".intercalate (Stmt.texts ss)).toList ++ ' ' :: rest) =
      Stmt.tokensAll ss ++ Token.tokens rest
  | [], _, rest => by simp [Stmt.texts, Stmt.tokensAll]
  | [s], ⟨hs, _⟩, rest => by
    rw [Stmt.texts, Stmt.texts, String.intercalate_singleton, s.scans hs, tokens_space]
    simp [Stmt.tokensAll]
  | s :: s' :: ss, ⟨hs, hss⟩, rest => by
    have hsplit : (" ".intercalate (Stmt.texts (s :: s' :: ss))).toList ++ ' ' :: rest =
        (s.text ++ s.terminator).toList ++ ' ' ::
          ((" ".intercalate (Stmt.texts (s' :: ss))).toList ++ ' ' :: rest) := by
      simp [Stmt.texts, -String.toList_intercalate]
    rw [hsplit, s.scans hs, tokens_space, Stmt.scans_list (s' :: ss) hss]
    simp [Stmt.tokensAll]

/-- The same of a block, with its braces. -/
theorem Block.scans : ∀ b : Block, b.WellFormed → ∀ rest : List Char,
    Token.tokens ((braced b.text).toList ++ rest) = b.tokens ++ Token.tokens rest
  | .mk t ss, ⟨ht, hss⟩, rest => by
    have hsplit : (braced (Block.mk t ss).text).toList ++ rest =
        '\x7b' :: ' ' :: ((" ".intercalate (Stmt.texts ss)).toList ++ ' ' :: '\x7d' :: rest) := by
      simp [braced, Block.text, -String.toList_intercalate]
    rw [hsplit, tokens_lbrace, tokens_space, Stmt.scans_list ss hss, tokens_rbrace, ← ht]
    simp [Block.tokens]

end

/-! ### Derivations -/

/-- What stands between two parts may be counted to the second one. -/
theorem intercalate_cons_eq_flatMap {α : Type} (s x : List α) (xs : List (List α)) :
    s.intercalate (x :: xs) = x ++ xs.flatMap (s ++ ·) := by
  induction xs generalizing x with
  | nil => simp
  | cons y ys ih => simp [ih]

/-- Well-formed names, each after a comma, are derived as they are. -/
theorem Derives.names_of_wellFormed : ∀ {ps : List Ident}, (∀ p ∈ ps, p.WellFormed) →
    Derives.Names ((ps.map fun p => [p.token]).flatMap ([Kind.comma.token] ++ ·)) ps
  | [], _ => .nil
  | ⟨t, v⟩ :: ps, h => by
    obtain ⟨ht, -, hv⟩ := h _ List.mem_cons_self
    obtain rfl : v = t.literal := hv
    exact .cons rfl ht (names_of_wellFormed fun p hp => h p (List.mem_cons_of_mem _ hp))

/-- Well-formed parameters are derived, the first of them without a comma before
    it. -/
theorem Derives.params_of_wellFormed : ∀ {ps : List Ident}, (∀ p ∈ ps, p.WellFormed) →
    Derives.Params ([Kind.comma.token].intercalate (ps.map fun p => [p.token])) ps
  | [], _ => .nil
  | ⟨t, v⟩ :: ps, h => by
    obtain ⟨ht, -, hv⟩ := h _ List.mem_cons_self
    obtain rfl : v = t.literal := hv
    rw [List.map_cons, intercalate_cons_eq_flatMap]
    exact .cons ht (names_of_wellFormed fun p hp => h p (List.mem_cons_of_mem _ hp))

/-- The first token of the text of a value. -/
def firstToken (v : Option Expr) : Token := (valueTokens v).headD .eof

mutual

/-- The tokens of the text of an expression are a derivation of it, with the
    tokens that the expression statements in it have there. What has been
    written can be called as it is. -/
theorem Expr.exists_derives : ∀ e : Expr, e.WellFormed →
    ∃ l, l.AtLeast .call ∧ Derives e.tokens (.expr (e.retoken firstToken) l) e.nesting
  | .ident ⟨t, v⟩, ⟨ht, _, hv⟩ => by
    obtain rfl : v = t.literal := hv
    exact ⟨.closed, trivial, .ident ht⟩
  | .int t _, ⟨ht, n, hn, hv⟩ => by
    subst hv
    exact ⟨.closed, trivial, .int ht hn⟩
  | .bool t true, h => by
    obtain rfl := h
    exact ⟨.closed, trivial, .kwTrue rfl⟩
  | .bool t false, h => by
    obtain rfl := h
    exact ⟨.closed, trivial, .kwFalse rfl⟩
  | .prefixOp t o e, ⟨ht, ho, he⟩ => by
    obtain ⟨l, hl, hd⟩ := e.exists_derives he
    have hk : t.kind = .bang ∨ t.kind = .minus := by
      rcases ht with rfl | rfl
      · exact .inl rfl
      · exact .inr rfl
    subst ho
    exact ⟨.closed, trivial, .group rfl (.prefixOp hk hd (hl.mono (by decide))) rfl⟩
  | .infixOp t o l r, ⟨⟨hk, _, ho⟩, hl, hr⟩ => by
    obtain ⟨a, ha, hld⟩ := l.exists_derives hl
    obtain ⟨b, hb, hrd⟩ := r.exists_derives hr
    obtain ⟨p, hp⟩ := Option.isSome_iff_exists.1 hk
    -- Whatever has been written can be an operand, on both sides.
    have hlt : p < .call := Nat.lt_trans (Kind.operator_lt_prefixOp hp) (by decide)
    have hd := Derives.group (o := Kind.lparen.token) (c := Kind.rparen.token) rfl
      (.infixOp hld (ha.mono (Nat.le_of_lt hlt)) hp hrd (hb.above hlt)) rfl
    refine ⟨.closed, trivial, ?_⟩
    rw [Expr.nesting, show max (l.nesting + 1) (r.nesting + 2) =
      max l.nesting (r.nesting + 1) + 1 by omega]
    simpa [Expr.tokens, Expr.retoken, ho] using hd
  | .cond t c a none, ⟨ht, hc, ha, _⟩ => by
    obtain ⟨l, -, hcd⟩ := c.exists_derives hc
    have hd := Derives.cond (i := t) (o := Kind.lparen.token) (c := Kind.rparen.token)
      (by rw [ht]; rfl) rfl hcd rfl (a.derives ha)
    refine ⟨.closed, trivial, ?_⟩
    simpa [Expr.tokens, Expr.nesting, Expr.retoken, alternativeTokens, alternativeNesting,
      retokenAlternative] using hd
  | .cond t c a (some b), ⟨ht, hc, ha, hb⟩ => by
    obtain ⟨l, -, hcd⟩ := c.exists_derives hc
    have hd := Derives.condElse (i := t) (o := Kind.lparen.token) (c := Kind.rparen.token)
      (s := Kind.kwElse.token) (by rw [ht]; rfl) rfl hcd rfl (a.derives ha) rfl (b.derives hb)
    exact ⟨.closed, trivial, hd⟩
  | .func t ps b, ⟨ht, hps, hb⟩ => by
    refine ⟨.closed, trivial, ?_⟩
    exact .func (by rw [ht]; rfl) rfl (Derives.params_of_wellFormed hps) rfl (b.derives hb)
  | .call t c as, ⟨ht, hc, has⟩ => by
    obtain ⟨l, hl, hcd⟩ := c.exists_derives hc
    obtain ⟨n, hasd, hn⟩ := Expr.exists_derives_args as has
    -- Without arguments, `n + 1` is one, and what is called has one at least.
    have hpos := hcd.nesting_pos
    refine ⟨.operator .call, Nat.le_refl _, ?_⟩
    rw [Expr.nesting, show max c.nesting (Expr.argumentsNesting as) = max c.nesting (n + 1) by
      omega]
    exact .call hcd hl (by rw [ht]; rfl) hasd rfl

/-- The same of arguments, whose nesting counts from the call that they are in. -/
theorem Expr.exists_derives_args : ∀ es : List Expr, Expr.AllWellFormed es →
    ∃ n, Derives ([Kind.comma.token].intercalate (Expr.tokenLists es))
      (.args (Expr.retokenAll firstToken es)) n ∧ n + 1 = max 1 (Expr.argumentsNesting es)
  | [], _ => ⟨0, .noArgs, rfl⟩
  | e :: es, ⟨he, hes⟩ => by
    obtain ⟨l, -, hd⟩ := e.exists_derives he
    obtain ⟨n, hds, hn⟩ := Expr.exists_derives_moreArgs es hes
    refine ⟨max e.nesting n, ?_, ?_⟩
    · rw [Expr.tokenLists, intercalate_cons_eq_flatMap]
      exact .args hd hds
    · rw [Expr.argumentsNesting]
      omega

/-- The same of the arguments after the first one. -/
theorem Expr.exists_derives_moreArgs : ∀ es : List Expr, Expr.AllWellFormed es →
    ∃ n, Derives ((Expr.tokenLists es).flatMap ([Kind.comma.token] ++ ·))
      (.moreArgs (Expr.retokenAll firstToken es)) n ∧ n + 1 = max 1 (Expr.argumentsNesting es)
  | [], _ => ⟨0, .noMoreArgs, rfl⟩
  | e :: es, ⟨he, hes⟩ => by
    obtain ⟨l, -, hd⟩ := e.exists_derives he
    obtain ⟨n, hds, hn⟩ := Expr.exists_derives_moreArgs es hes
    refine ⟨max e.nesting n, .moreArgs rfl hd hds, ?_⟩
    rw [Expr.argumentsNesting]
    omega

theorem value_exists_derives : ∀ v : Option Expr, valueWellFormed v →
    ∃ e l, retokenValue firstToken v = some e ∧
      Derives (valueTokens v) (.expr e l) (valueNesting v)
  | some e, h => by
    obtain ⟨l, -, hd⟩ := e.exists_derives h
    exact ⟨_, l, rfl, hd⟩

/-- A well-formed statement is derived from its tokens. -/
theorem Stmt.derives : ∀ s : Stmt, s.WellFormed →
    Derives s.tokens (.stmt (s.retoken firstToken)) s.nesting
  | .letStmt t ⟨u, w⟩ v, ⟨ht, ⟨hu, _, hw⟩, hv⟩ => by
    obtain ⟨e, l, heq, hd⟩ := value_exists_derives v hv
    obtain rfl : w = u.literal := hw
    rw [Stmt.retoken, heq]
    exact .letStmt (by rw [ht]; rfl) hu rfl hd
  | .returnStmt t v, ⟨ht, hv⟩ => by
    obtain ⟨e, l, heq, hd⟩ := value_exists_derives v hv
    rw [Stmt.retoken, heq]
    exact .returnStmt (by rw [ht]; rfl) hd
  | .exprStmt t v, hv => by
    obtain ⟨e, l, heq, hd⟩ := value_exists_derives v hv
    obtain ⟨u, us, hus, -⟩ := hd.opens
    rw [Stmt.retoken, heq, firstToken, Stmt.tokens, hus]
    rw [hus] at hd
    exact .exprStmt hd

theorem Stmt.derives_all : ∀ ss : List Stmt, Stmt.AllWellFormed ss →
    Derives (Stmt.tokensAll ss) (.body (Stmt.retokenAll firstToken ss)) (Stmt.nestingAll ss)
  | [], _ => .noStmts
  | s :: ss, ⟨hs, hss⟩ => .stmtsSemicolon (s.derives hs) rfl (Stmt.derives_all ss hss)

/-- A well-formed block is derived with its braces. -/
theorem Block.derives : ∀ b : Block, b.WellFormed →
    Derives b.tokens (.block (b.retoken firstToken)) b.nesting
  | .mk t ss, ⟨ht, hss⟩ => .block (by rw [ht]; rfl) (Stmt.derives_all ss hss) rfl

end

end ScriptFront

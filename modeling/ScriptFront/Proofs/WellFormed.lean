import ScriptFront.Proofs.Grammar
import ScriptFront.Proofs.Spelling
import ScriptFront.Tree.Text

/-!
# Well-formed trees

Nothing forces the fields of a node to agree with its token. In a well-formed
tree they do, and every statement has a value; these are the trees of the
derivations from tokens that are written as their kind says
(`Derives.wellFormed`).

The token of an expression on its own is the exception: it is the first token
of the expression, which is another one if parentheses are added. Trees that
differ in these tokens alone (`Program.retoken`) have the same text.
-/

namespace ScriptFront

/-- The token of a kind that is always written in the same way. -/
def Kind.token (k : Kind) : Token := ⟨k, k.spelling?.getD ""⟩

/-- A token of a kind with one spelling is the token of that kind. -/
theorem Token.Spelled.eq_token {t : Token} (h : t.Spelled) (hk : t.kind.spelling?.isSome) :
    t = t.kind.token := by
  obtain ⟨w, hw⟩ := Option.isSome_iff_exists.1 hk
  obtain ⟨k, v⟩ := t
  obtain rfl : v = w := h.literal_eq hw
  simp [Kind.token, show k.spelling? = some v from hw]

theorem Kind.spelled_token {k : Kind} (hk : k.spelling?.isSome) : k.token.Spelled := by
  obtain ⟨w, hw⟩ := Option.isSome_iff_exists.1 hk
  rw [Kind.token, hw]
  exact .fixed hw

/-- Every operator between operands has one spelling. -/
theorem Kind.spelling?_of_operator {k : Kind} (h : k.operator?.isSome = true) :
    k.spelling?.isSome = true := by
  cases k <;> first | rfl | cases h

/-- A token of a text that a program may hold is written as its kind says. -/
theorem Token.spelled_of_legal {source : String} {t : Token}
    (h : t ∈ (Token.tokenize source).dropLast) (ht : t.legal = true) : t.Spelled := by
  refine (spelled_of_mem h).resolve_left fun hk => ?_
  simp [Token.legal, hk] at ht

/-- A name that is what its token says. -/
def Ident.WellFormed (x : Ident) : Prop :=
  x.token.kind = .ident ∧ x.token.Spelled ∧ x.value = x.token.literal

mutual

/-- Whether every node of an expression is what its token says, and every
    statement in it has a value. -/
def Expr.WellFormed : Expr → Prop
  | .ident x => x.WellFormed
  | .int t v => t.kind = .int ∧ ∃ n, Numeral.value? t.literal = some n ∧ v = Int.ofNat n
  | .bool t v => t = (if v then Kind.kwTrue.token else Kind.kwFalse.token)
  | .prefixOp t o e => (t = Kind.bang.token ∨ t = Kind.minus.token) ∧ o = t.literal ∧ e.WellFormed
  | .infixOp t o l r =>
    (t.kind.operator?.isSome ∧ t = t.kind.token ∧ o = t.literal) ∧ l.WellFormed ∧ r.WellFormed
  | .cond t c a b =>
    t = Kind.kwIf.token ∧ c.WellFormed ∧ a.WellFormed ∧ alternativeWellFormed b
  | .func t ps b => t = Kind.kwFn.token ∧ (∀ p ∈ ps, p.WellFormed) ∧ b.WellFormed
  | .call t c as => t = Kind.lparen.token ∧ c.WellFormed ∧ Expr.AllWellFormed as

/-- Whether some expressions are well-formed. -/
def Expr.AllWellFormed : List Expr → Prop
  | [] => True
  | e :: es => e.WellFormed ∧ Expr.AllWellFormed es

/-- Whether the second block of a choice, if there is one, is well-formed. -/
def alternativeWellFormed : Option Block → Prop
  | none => True
  | some b => b.WellFormed

/-- Whether a value is there and is well-formed. -/
def valueWellFormed : Option Expr → Prop
  | none => False
  | some e => e.WellFormed

/-- Whether a statement is what its tokens say, with a value that is
    well-formed. -/
def Stmt.WellFormed : Stmt → Prop
  | .letStmt t x v => t = Kind.kwLet.token ∧ x.WellFormed ∧ valueWellFormed v
  | .returnStmt t v => t = Kind.kwReturn.token ∧ valueWellFormed v
  | .exprStmt _ v => valueWellFormed v

/-- Whether some statements are well-formed. -/
def Stmt.AllWellFormed : List Stmt → Prop
  | [] => True
  | s :: ss => s.WellFormed ∧ Stmt.AllWellFormed ss

/-- Whether a block has its brace and well-formed statements. -/
def Block.WellFormed : Block → Prop
  | .mk t ss => t = Kind.lbrace.token ∧ Stmt.AllWellFormed ss

end

/-- Whether all statements of a program are well-formed. -/
def Program.WellFormed (p : Program) : Prop := Stmt.AllWellFormed p.statements

/-! ### Derivations -/

/-- Whether what a phrase stands for is well-formed. -/
def Phrase.WellFormed : Phrase → Prop
  | expr e _ => e.WellFormed
  | args es | moreArgs es => Expr.AllWellFormed es
  | block b => b.WellFormed
  | stmt s => s.WellFormed
  | body ss => Stmt.AllWellFormed ss

namespace Derives

variable {ts : List Token} {ps : List Ident} {ph : Phrase} {n : Nat}

/-- Names of a derivation are what their tokens say. -/
theorem Names.wellFormed (h : Names ts ps) (hs : ∀ t ∈ ts, t.Spelled) :
    ∀ p ∈ ps, p.WellFormed := by
  induction h with
  | nil => simp
  | cons hc ht _ ih =>
    simp only [List.forall_mem_cons] at hs ⊢
    exact ⟨⟨ht, hs.2.1, rfl⟩, ih hs.2.2⟩

theorem Params.wellFormed (h : Params ts ps) (hs : ∀ t ∈ ts, t.Spelled) :
    ∀ p ∈ ps, p.WellFormed := by
  cases h with
  | nil => simp
  | cons ht h =>
    simp only [List.forall_mem_cons] at hs ⊢
    exact ⟨⟨ht, hs.1, rfl⟩, h.wellFormed hs.2⟩

theorem eq_token {t : Token} {k : Kind} (h : t.kind = k) (ht : t.Spelled)
    (hk : k.spelling?.isSome = true) : t = k.token := by
  subst h
  exact ht.eq_token hk

/-- The tree of a derivation is well-formed if the tokens are written as their
    kind says. -/
theorem wellFormed (h : Derives ts ph n) (hs : ∀ t ∈ ts, t.Spelled) : ph.WellFormed := by
  induction h with try simp only [List.forall_mem_append, List.forall_mem_cons] at hs
  | ident h => exact ⟨h, hs.1, rfl⟩
  | int h hv => exact ⟨h, _, hv, rfl⟩
  | kwTrue h => exact eq_token h hs.1 rfl
  | kwFalse h => exact eq_token h hs.1 rfl
  | group _ _ _ ih => exact ih hs.1.2
  | cond hi _ _ _ _ ih iha =>
    obtain ⟨⟨hi', -, hts⟩, -, hus⟩ := hs
    exact ⟨eq_token hi hi' rfl, ih hts, iha hus, trivial⟩
  | condElse hi _ _ _ _ _ _ ih iha ihb =>
    obtain ⟨⟨⟨hi', -, hts⟩, -, hus⟩, -, hvs⟩ := hs
    exact ⟨eq_token hi hi' rfl, ih hts, iha hus, ihb hvs⟩
  | func hf _ hps _ _ ih =>
    obtain ⟨⟨hf', -, hts⟩, -, hus⟩ := hs
    exact ⟨eq_token hf hf' rfl, hps.wellFormed hts, ih hus⟩
  | prefixOp ho _ _ ih =>
    obtain ⟨ho', hts⟩ := hs
    exact ⟨ho.imp (eq_token · ho' rfl) (eq_token · ho' rfl), rfl, ih hts⟩
  | infixOp _ _ ho _ _ ih ih' =>
    obtain ⟨hts, ho', hus⟩ := hs
    have hk := Option.isSome_of_eq_some ho
    exact ⟨⟨hk, ho'.eq_token (Kind.spelling?_of_operator hk), rfl⟩, ih hts, ih' hus⟩
  | call _ _ ho _ _ ih ihes =>
    obtain ⟨⟨hts, ho', hus⟩, -⟩ := hs
    exact ⟨eq_token ho ho' rfl, ih hts, ihes hus⟩
  | noArgs | noMoreArgs | noStmts => trivial
  | args _ _ ih ihes | stmts _ _ _ ih ihes => exact ⟨ih hs.1, ihes hs.2⟩
  | moreArgs _ _ _ ih ihes => exact ⟨ih hs.1.2, ihes hs.2⟩
  | stmtsSemicolon _ _ _ ih ihss => exact ⟨ih hs.1, ihss hs.2.2⟩
  | block ho _ _ ih => exact ⟨eq_token ho hs.1.1 rfl, ih hs.1.2⟩
  | letStmt ht hx _ _ ih =>
    obtain ⟨ht', hx', -, hts⟩ := hs
    exact ⟨eq_token ht ht' rfl, ⟨hx, hx', rfl⟩, ih hts⟩
  | returnStmt ht _ ih => exact ⟨eq_token ht hs.1 rfl, ih hs.2⟩
  | exprStmt _ ih => exact ih (List.forall_mem_cons.2 hs)

end Derives

/-! ### The tokens of expressions on their own -/

section

variable (f : Option Expr → Token)

mutual

/-- An expression with other tokens for the expression statements in it: `f`
    tells the token from the value. -/
def Expr.retoken : Expr → Expr
  | .ident x => .ident x
  | .int t v => .int t v
  | .bool t v => .bool t v
  | .prefixOp t o e => .prefixOp t o e.retoken
  | .infixOp t o l r => .infixOp t o l.retoken r.retoken
  | .cond t c a b => .cond t c.retoken a.retoken (retokenAlternative b)
  | .func t ps b => .func t ps b.retoken
  | .call t c as => .call t c.retoken (Expr.retokenAll as)

/-- Expressions with other tokens for the expression statements in them. -/
def Expr.retokenAll : List Expr → List Expr
  | [] => []
  | e :: es => e.retoken :: Expr.retokenAll es

/-- The second block of a choice with other tokens for its expression
    statements. -/
def retokenAlternative : Option Block → Option Block
  | none => none
  | some b => some b.retoken

/-- A value with other tokens for the expression statements in it. -/
def retokenValue : Option Expr → Option Expr
  | none => none
  | some e => some e.retoken

/-- A statement with other tokens for expression statements. -/
def Stmt.retoken : Stmt → Stmt
  | .letStmt t x v => .letStmt t x (retokenValue v)
  | .returnStmt t v => .returnStmt t (retokenValue v)
  | .exprStmt _ v => .exprStmt (f v) (retokenValue v)

/-- Statements with other tokens for expression statements. -/
def Stmt.retokenAll : List Stmt → List Stmt
  | [] => []
  | s :: ss => s.retoken :: Stmt.retokenAll ss

/-- A block with other tokens for its expression statements. -/
def Block.retoken : Block → Block
  | .mk t ss => .mk t (Stmt.retokenAll ss)

end

/-- A program with other tokens for its expression statements. -/
def Program.retoken (P : Program) : Program := ⟨Stmt.retokenAll f P.statements⟩

mutual

/-- By structural induction: the text of an expression says nothing of these
    tokens. -/
theorem Expr.text_retoken : ∀ e : Expr, (e.retoken f).text = e.text
  | .ident _ | .int _ _ | .bool _ _ => rfl
  | .prefixOp _ _ e => by rw [Expr.retoken, Expr.text, Expr.text, e.text_retoken]
  | .infixOp _ _ l r => by
    rw [Expr.retoken, Expr.text, Expr.text, l.text_retoken, r.text_retoken]
  | .cond _ c a b => by
    rw [Expr.retoken, Expr.text, Expr.text, c.text_retoken, a.text_retoken,
      alternativeText_retoken b]
  | .func _ _ b => by rw [Expr.retoken, Expr.text, Expr.text, b.text_retoken]
  | .call _ c as => by
    rw [Expr.retoken, Expr.text, Expr.text, c.text_retoken, Expr.texts_retoken as]

theorem Expr.texts_retoken : ∀ es : List Expr, Expr.texts (Expr.retokenAll f es) = Expr.texts es
  | [] => rfl
  | e :: es => by
    rw [Expr.retokenAll, Expr.texts, Expr.texts, e.text_retoken, Expr.texts_retoken es]

theorem alternativeText_retoken : ∀ b : Option Block,
    alternativeText (retokenAlternative f b) = alternativeText b
  | none => rfl
  | some b => by rw [retokenAlternative, alternativeText, alternativeText, b.text_retoken]

theorem valueText_retoken : ∀ v : Option Expr, valueText (retokenValue f v) = valueText v
  | none => rfl
  | some e => by rw [retokenValue, valueText, valueText, e.text_retoken]

theorem Stmt.text_retoken : ∀ s : Stmt, (s.retoken f).text = s.text
  | .letStmt _ _ v | .returnStmt _ v | .exprStmt _ v => by
    rw [Stmt.retoken, Stmt.text, Stmt.text, valueText_retoken v]

/-- The texts of statements say nothing of them either, nor does what ends a
    statement. -/
theorem Stmt.texts_retoken : ∀ ss : List Stmt, Stmt.texts (Stmt.retokenAll f ss) = Stmt.texts ss
  | [] => rfl
  | s :: ss => by
    have ht : (s.retoken f).terminator = s.terminator := by
      rcases s with _ | _ | ⟨_, _ | _⟩ <;> rfl
    rw [Stmt.retokenAll, Stmt.texts, Stmt.texts, s.text_retoken, Stmt.texts_retoken ss, ht]

/-- The text of a block says nothing of them either. -/
theorem Block.text_retoken : ∀ b : Block, (b.retoken f).text = b.text
  | .mk _ ss => by rw [Block.retoken, Block.text, Block.text, Stmt.texts_retoken ss]

end

/-- The token of an expression on its own leaves no trace in the text. -/
theorem Program.text_retoken (P : Program) : (P.retoken f).text = P.text := by
  have h : ∀ ss : List Stmt, (Stmt.retokenAll f ss).map Stmt.text = ss.map Stmt.text := by
    intro ss
    induction ss with
    | nil => rfl
    | cons s ss ih => rw [Stmt.retokenAll, List.map_cons, List.map_cons, s.text_retoken, ih]
  rw [Program.text, Program.text, Program.retoken, h]

end

end ScriptFront

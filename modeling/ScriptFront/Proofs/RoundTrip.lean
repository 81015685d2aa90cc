import ScriptFront.Proofs.Completeness
import ScriptFront.Proofs.Rendering
import ScriptFront.Proofs.Soundness
import ScriptFront.Tree.Equality

/-!
# Writing a program and reading it again

A well-formed program is read from its own text as the same program, up to the
tokens of expressions on their own, if no value in it is nested deeper than
`maxDepth` in the text. As statements follow each other directly in the text of
a program, only its last one may be an expression on its own: `let` and `return`
bring a semicolon.

What was read without a diagnostic is well-formed (`wellFormed_parse`), but need
not be read again: the parentheses of its text count as nesting, and a long sum
is nested as deep in its text as it is long.
-/

namespace ScriptFront

open Token

/-! ### The text of a program -/

/-- Whether a statement is an expression on its own. -/
def Stmt.isExpr : Stmt → Bool
  | .exprStmt _ _ => true
  | _ => false

/-- The tokens of the text of a statement in a program, where an expression on
    its own has no semicolon. -/
def Stmt.tokensAlone (s : Stmt) : List Token :=
  if s.isExpr then s.tokens else s.tokens ++ [Kind.semicolon.token]

/-- A statement with a semicolon of its own is scanned in front of anything. -/
theorem Stmt.tokens_text {s : Stmt} (h : s.WellFormed) (hs : s.isExpr = false) (rest : List Char) :
    Token.tokens (s.text.toList ++ rest) = s.tokensAlone ++ Token.tokens rest := by
  have ht : s.text ++ s.terminator = s.text := by
    cases s with
    | exprStmt => cases hs
    | letStmt | returnStmt => simp [Stmt.terminator]
  have hscan := s.scans h rest
  rw [ht] at hscan
  rw [hscan, Stmt.tokensAlone, hs]
  simp

theorem Stmt.tokens_text_last {s : Stmt} (h : s.WellFormed) :
    Token.tokens s.text.toList = s.tokensAlone ++ [.eof] := by
  cases s with
  | letStmt | returnStmt => simpa [tokens_nil] using Stmt.tokens_text h rfl []
  | exprStmt t v =>
    have hscan := value_scans v h [] (by simp [Breaks])
    rwa [List.append_nil, tokens_nil] at hscan

/-- The tokens of the text of a program. -/
theorem tokenize_text {ss : List Stmt} (h : Stmt.AllWellFormed ss)
    (hs : ∀ s ∈ ss.dropLast, s.isExpr = false) :
    Token.tokens (ss.flatMap fun s => s.text.toList) = ss.flatMap Stmt.tokensAlone ++ [.eof] := by
  induction ss with
  | nil => exact tokens_nil
  | cons s ss ih =>
    cases ss with
    | nil => simpa using Stmt.tokens_text_last h.1
    | cons s' ss =>
      have hrest := ih h.2 fun u hu => hs u (by simp [hu])
      rw [List.flatMap_cons, Stmt.tokens_text h.1 (hs s (by simp)), hrest, ← List.append_assoc]
      rfl

/-- The tokens of the text of a program are a derivation of it. -/
theorem derives_text {ss : List Stmt} (h : Stmt.AllWellFormed ss)
    (hs : ∀ s ∈ ss.dropLast, s.isExpr = false) :
    Derives (ss.flatMap Stmt.tokensAlone) (.body (Stmt.retokenAll firstToken ss))
      (Stmt.nestingAll ss) := by
  induction ss with
  | nil => exact .noStmts
  | cons s ss ih =>
    have hd := s.derives h.1
    have hds := ih h.2 fun u hu => hs u (by cases ss <;> simp_all)
    rw [List.flatMap_cons, Stmt.tokensAlone, Stmt.nestingAll, Stmt.retokenAll]
    split
    next hexpr =>
      -- Only the last statement can be an expression on its own.
      cases ss with
      | nil => exact hd.stmts hds (by simp)
      | cons u us => simp [hs s (by simp)] at hexpr
    next =>
      rw [List.append_assoc, List.singleton_append]
      exact hd.stmtsSemicolon rfl hds

/-- A well-formed program is read from its text, with the tokens that its
    expression statements have there, if nothing in it is nested too deep; if
    something is, it is reported. -/
theorem reads_text {P : Program} (h : P.WellFormed)
    (hs : ∀ s ∈ P.statements.dropLast, s.isExpr = false) :
    Reads (Stmt.nestingAll P.statements ≤ maxDepth) (parse P.text) (P.retoken firstToken)
      (·.diagnostics = []) := by
  have htokens : tokenize P.text = P.statements.flatMap Stmt.tokensAlone ++ [.eof] := by
    rw [tokenize, Program.text, String.toList_join, List.flatMap_map, tokenize_text h hs]
  refine Derives.reads_parse ?_
  rw [htokens, List.dropLast_concat]
  exact derives_text h hs

theorem Stmt.nestingAll_le_iff {ss : List Stmt} {n : Nat} :
    Stmt.nestingAll ss ≤ n ↔ ∀ s ∈ ss, s.nesting ≤ n := by
  induction ss with
  | nil => simp [Stmt.nestingAll]
  | cons s ss ih => rw [Stmt.nestingAll, Nat.max_le, ih, List.forall_mem_cons]

/-- Of a well-formed program in which only the last statement may be an
    expression on its own, the text is read without a diagnostic, and as the
    same program, if no value is nested deeper than `maxDepth` in the text: only
    the tokens of expression statements are those that the text starts with. If
    a value is nested deeper, a diagnostic says so. -/
theorem parse_text {P : Program} (h : P.WellFormed)
    (hs : ∀ s ∈ P.statements.dropLast, s.isExpr = false) :
    ((∀ s ∈ P.statements, s.nesting ≤ maxDepth) →
      (parse P.text).2.diagnostics = [] ∧ (parse P.text).1 = P.retoken firstToken ∧
        (parse P.text).1.text = P.text) ∧
    ((∃ s ∈ P.statements, maxDepth < s.nesting) →
      ∃ g ∈ (parse P.text).2.diagnostics, g.cause = .nestingTooDeep maxDepth) := by
  have hr := reads_text h hs
  refine ⟨fun hn => ?_, fun ⟨s, hmem, hn⟩ => ?_⟩
  · obtain ⟨hP, hd⟩ := hr.fit (Stmt.nestingAll_le_iff.2 hn)
    exact ⟨hd, hP, by rw [hP, P.text_retoken]⟩
  · refine (hr.deep fun hle => ?_).diagnostics
    exact absurd (Stmt.nestingAll_le_iff.1 hle s hmem) (Nat.not_le_of_lt hn)

/-- A function with a block, and a call of it at the end. -/
theorem parse_text_function :
    ∃ P : Program, P.text = "let f = fn(x) \x7b (-x); \x7d;f(1)" ∧ P.WellFormed ∧
      (∀ s ∈ P.statements.dropLast, s.isExpr = false) ∧ (∀ s ∈ P.statements, s.nesting ≤ maxDepth) ∧
      (parse P.text).2.diagnostics = [] ∧ (parse P.text).1 = P.retoken firstToken := by
  have hf : Ident.WellFormed ⟨⟨.ident, "f"⟩, "f"⟩ :=
    ⟨rfl, .name ⟨'f', [], rfl, rfl, rfl⟩ rfl, rfl⟩
  have hx : Ident.WellFormed ⟨⟨.ident, "x"⟩, "x"⟩ :=
    ⟨rfl, .name ⟨'x', [], rfl, rfl, rfl⟩ rfl, rfl⟩
  have h : Program.WellFormed
      ⟨[.letStmt Kind.kwLet.token ⟨⟨.ident, "f"⟩, "f"⟩
          (some (.func Kind.kwFn.token [⟨⟨.ident, "x"⟩, "x"⟩] (.mk Kind.lbrace.token
            [.exprStmt Kind.minus.token (some (.prefixOp Kind.minus.token "-"
              (.ident ⟨⟨.ident, "x"⟩, "x"⟩)))]))),
        .exprStmt ⟨.ident, "f"⟩ (some (.call Kind.lparen.token (.ident ⟨⟨.ident, "f"⟩, "f"⟩)
          [.int ⟨.int, "1"⟩ 1]))]⟩ :=
    ⟨⟨rfl, hf, rfl, by simpa using hx, rfl, ⟨.inr rfl, rfl, hx⟩, trivial⟩,
      ⟨rfl, hf, ⟨rfl, 1, by decide +kernel, rfl⟩, trivial⟩, trivial⟩
  have hs := (parse_text h (by simp [Stmt.isExpr])).1 (by decide)
  exact ⟨_, by decide +kernel, h, by simp [Stmt.isExpr], by decide, hs.1, hs.2.1⟩

/-! ### What was read -/

/-- What is read without a diagnostic is well-formed. -/
theorem wellFormed_parse {source : String} (h : (parse source).2.diagnostics = []) :
    (parse source).1.WellFormed := by
  obtain ⟨k, n, -, hd⟩ := exists_derives_of_parse h
  refine hd.wellFormed fun t ht => ?_
  have hlegal := List.all_eq_true.1 hd.legal t ht
  rcases List.mem_append.1 ht with ht | ht
  · exact spelled_of_legal ht hlegal
  · obtain ⟨-, rfl⟩ := List.mem_replicate.1 ht
    exact .fixed rfl

/-- The text of a binding that was read without a diagnostic is read as the same
    binding again, without a diagnostic, if its value is not nested deeper than
    `maxDepth` in the text. If it is, a diagnostic says so. -/
theorem parse_text_of_parse {source : String} {t : Token} {x : Ident} {v : Option Expr}
    (h : (parse source).2.diagnostics = [])
    (hP : (parse source).1.statements = [.letStmt t x v]) :
    (valueNesting v ≤ maxDepth →
      (parse (parse source).1.text).2.diagnostics = [] ∧
      (∃ e, v = some e ∧ (parse (parse source).1.text).1.statements =
        [.letStmt t x (some (e.retoken firstToken))]) ∧
      (parse (parse source).1.text).1.text = (parse source).1.text) ∧
    (maxDepth < valueNesting v →
      ∃ g ∈ (parse (parse source).1.text).2.diagnostics,
        g.cause = .nestingTooDeep maxDepth) := by
  have hwf := wellFormed_parse h
  have hr := reads_text hwf (by simp [hP])
  have hn : Stmt.nestingAll (parse source).1.statements = valueNesting v := by
    simp [hP, Stmt.nestingAll, Stmt.nesting]
  rw [hn] at hr
  refine ⟨fun hle => ?_, fun hlt => (hr.deep (Nat.not_le_of_lt hlt)).diagnostics⟩
  obtain ⟨hQ, hd⟩ := hr.fit hle
  refine ⟨hd, ?_, by rw [hQ, Program.text_retoken]⟩
  rw [Program.WellFormed, hP] at hwf
  obtain ⟨⟨-, -, hv⟩, -⟩ := hwf
  cases v with
  | none => cases hv
  | some e => exact ⟨e, rfl, by rw [hQ, Program.retoken, hP]; rfl⟩

/-- A binding with a block, in which the expression gets another first token. -/
theorem parse_text_of_parse_function :
    ∃ t x v, (parse "let f = fn(x) \x7b -x * 2 \x7d").2.diagnostics = [] ∧
      (parse "let f = fn(x) \x7b -x * 2 \x7d").1.statements = [.letStmt t x v] ∧
      valueNesting v ≤ maxDepth ∧
      (parse (parse "let f = fn(x) \x7b -x * 2 \x7d").1.text).2.diagnostics = [] := by
  have h : (parse "let f = fn(x) \x7b -x * 2 \x7d").2.diagnostics = [] := by decide +kernel
  have hP : (parse "let f = fn(x) \x7b -x * 2 \x7d").1.statements =
      [.letStmt Kind.kwLet.token ⟨⟨.ident, "f"⟩, "f"⟩ (some (.func Kind.kwFn.token
        [⟨⟨.ident, "x"⟩, "x"⟩] (.mk Kind.lbrace.token [.exprStmt Kind.minus.token
          (some (.infixOp Kind.asterisk.token "*" (.prefixOp Kind.minus.token "-"
            (.ident ⟨⟨.ident, "x"⟩, "x"⟩)) (.int ⟨.int, "2"⟩ 2)))])))] := by decide +kernel
  exact ⟨_, _, _, h, hP, by decide, ((parse_text_of_parse h hP).1 (by decide)).1⟩

/-! ### Long sums

A sum without parentheses is nested two deep, however long it is. In its text,
where each `+` has parentheses of its own, it is nested deeper with every one of
them.
-/

/-- The text `let x = 1+1+…+1`, with `n` plus signs. -/
def sumText (n : Nat) : String := "let x = 1" ++ String.join (List.replicate n "+1")

/-- The tree of `1`. -/
def one : Expr := .int ⟨.int, "1"⟩ 1

/-- The tree of `1+1+…+1`, with `n` plus signs. -/
def sum : Nat → Expr
  | 0 => one
  | n + 1 => .infixOp Kind.plus.token "+" (sum n) one

/-- The tokens of `+1`. -/
def plusOne : List Token := [Kind.plus.token, ⟨.int, "1"⟩]

theorem tokens_one {rest : List Char} (h : Breaks rest) :
    Token.tokens ('1' :: rest) = ⟨.int, "1"⟩ :: Token.tokens rest :=
  tokens_number (w := "1") ⟨'1', [], rfl, rfl, rfl⟩ fun c hc => isDigit_of_isWordChar (h c hc)

theorem breaks_plusOnes (n : Nat) : Breaks (List.replicate n ['+', '1']).flatten := by
  cases n with
  | zero => simp [Breaks]
  | succ n => exact breaks_cons.2 rfl

theorem tokens_plusOnes (n : Nat) :
    Token.tokens (List.replicate n ['+', '1']).flatten =
      (List.replicate n plusOne).flatten ++ [.eof] := by
  induction n with
  | zero => exact tokens_nil
  | succ n ih =>
    have hplus : ∀ rest, Token.tokens ('+' :: rest) = Kind.plus.token :: Token.tokens rest :=
      fun rest => tokens_symbol rfl (by simp)
    rw [List.replicate_succ, List.flatten_cons, List.cons_append, List.cons_append,
      List.nil_append, hplus, tokens_one (breaks_plusOnes n), ih]
    rfl

/-- The tokens of a sum of any length, by induction on it. -/
theorem tokenize_sumText (n : Nat) :
    tokenize (sumText n) = Kind.kwLet.token :: ⟨.ident, "x"⟩ :: Kind.assign.token ::
      (⟨.int, "1"⟩ :: (List.replicate n plusOne).flatten) ++ [.eof] := by
  have hsplit : (sumText n).toList = Kind.kwLet.token.literal.toList ++ ' ' :: ("x".toList ++ ' ' ::
      '=' :: ' ' :: '1' :: (List.replicate n ['+', '1']).flatten) := by
    rw [sumText, String.toList_append, String.toList_join, List.flatMap_replicate]
    rfl
  have hx : Spelled ⟨.ident, "x"⟩ := .name ⟨'x', [], rfl, rfl, rfl⟩ rfl
  rw [tokenize, hsplit, tokens_spelled_space (Kind.spelled_token rfl),
    tokens_spelled_space (t := ⟨.ident, "x"⟩) hx, tokens_assign, tokens_one (breaks_plusOnes n),
    tokens_plusOnes]
  rfl

/-- A sum is derived with its operands one level deep, however long it is. -/
theorem derives_sum (n : Nat) :
    ∃ l m, l.AtLeast .sum ∧ m ≤ 2 ∧
      Derives (⟨.int, "1"⟩ :: (List.replicate n plusOne).flatten) (.expr (sum n) l) m := by
  have hone : Derives [⟨.int, "1"⟩] (.expr one .closed) 1 :=
    .int (v := 1) rfl (by decide +kernel)
  induction n with
  | zero => exact ⟨.closed, 1, trivial, by omega, hone⟩
  | succ n ih =>
    obtain ⟨l, m, hl, hm, hd⟩ := ih
    refine ⟨.operator .sum, max m 2, Nat.le_refl _, by omega, ?_⟩
    have hd' := Derives.infixOp (o := Kind.plus.token) hd hl rfl hone trivial
    rw [List.replicate_succ', List.flatten_concat, ← List.cons_append]
    exact hd'

/-- A sum of any length is read without a diagnostic. -/
theorem parse_sumText (n : Nat) :
    (parse (sumText n)).2.diagnostics = [] ∧ (parse (sumText n)).1 =
      ⟨[.letStmt Kind.kwLet.token ⟨⟨.ident, "x"⟩, "x"⟩ (some (sum n))]⟩ := by
  obtain ⟨l, m, -, hm, hd⟩ := derives_sum n
  have hlet : Derives (tokenize (sumText n)).dropLast
      (.body [.letStmt Kind.kwLet.token ⟨⟨.ident, "x"⟩, "x"⟩ (some (sum n))]) (max m 0) := by
    rw [tokenize_sumText, List.dropLast_concat]
    simpa using Derives.stmts (.letStmt (t := Kind.kwLet.token) rfl rfl rfl hd) .noStmts (by simp)
  have hfit := hlet.reads_parse.fit (Nat.le_trans (by omega) (show 2 ≤ maxDepth by decide))
  exact ⟨hfit.2, hfit.1⟩

/-- In the text of a sum each plus sign is one level deeper than the one after
    it. -/
theorem nesting_sum (n : Nat) : (sum (n + 1)).nesting = n + 3 := by
  induction n with
  | zero => rfl
  | succ n ih =>
    rw [sum, Expr.nesting, ih]
    change max (n + 3 + 1) (1 + 2) = n + 1 + 3
    omega

/-- A sum with `maxDepth - 1` plus signs is read without a diagnostic, but its
    text is not: each plus sign has a pair of parentheses there, and the
    innermost operands are one deeper. -/
theorem not_parse_text_sum :
    (parse (sumText 255)).2.diagnostics = [] ∧
      (∃ t x v, (parse (sumText 255)).1.statements = [.letStmt t x v]) ∧
      (parse (parse (sumText 255)).1.text).2.diagnostics ≠ [] := by
  obtain ⟨hd, hP⟩ := parse_sumText 255
  refine ⟨hd, ⟨_, _, _, by rw [hP]⟩, ?_⟩
  have hr := reads_text (wellFormed_parse hd) (by simp [hP])
  have hn : ¬Stmt.nestingAll (parse (sumText 255)).1.statements ≤ maxDepth := by
    rw [hP, Stmt.nestingAll, Stmt.nesting, valueNesting, nesting_sum]
    decide
  obtain ⟨g, hg, -⟩ := (hr.deep hn).diagnostics
  exact List.ne_nil_of_mem hg

end ScriptFront

import ScriptFront.Proofs.Grammar
import ScriptFront.Proofs.Loops
import ScriptFront.Proofs.Spelling

/-!
# What a parser sees

A parser of the standard language, by the tokens that are left: those from the
current one on (`Parser.Before`), or those after the current one (`Parser.Past`).
Both also fix its depth of nesting and its reports, so that a step that leaves
no report leads from one such description to another.

What the standard dialect does with a token is what the grammar says of its
kind: how it continues an expression (`standard_infixForm?_map`), and what it
opens (`of_standard_prefixForm?`, `of_standard_stmtForm?`).
-/

namespace ScriptFront

/-! ### The standard dialect -/

namespace Dialect

/-- The operators of the standard dialect are those of the grammar, at their
    precedences. -/
theorem standard_infixForm?_operator {k : Kind} {p : Precedence} :
    standard.infixForm? k = some (p, .operator) ↔ k.operator? = some p := by
  cases k <;> simp [standard, Kind.operator?]

/-- Nothing but an opening parenthesis is a call. -/
theorem standard_infixForm?_call {k : Kind} {p : Precedence} :
    standard.infixForm? k = some (p, .call) ↔ k = .lparen ∧ p = .call := by
  cases k <;> simp [standard, eq_comm]

/-- A kind continues an expression in the dialect where it does in the grammar,
    at the same precedence. -/
theorem standard_infixForm?_map {k : Kind} :
    (standard.infixForm? k).map Prod.fst = k.continues? := by
  cases k <;> rfl

/-- The kinds that open an expression of some form. -/
theorem of_standard_prefixForm? {k : Kind} : ∀ {f : PrefixForm}, standard.prefixForm? k = some f →
    match f with
    | .identifier => k = .ident
    | .integer => k = .int
    | .boolean => k = .kwTrue ∨ k = .kwFalse
    | .operator => k = .bang ∨ k = .minus
    | .group => k = .lparen
    | .cond => k = .kwIf
    | .func => k = .kwFn := by
  intro f h
  cases k <;> cases h <;> simp

/-- The kinds that open a statement of some form. -/
theorem of_standard_stmtForm? {k : Kind} : ∀ {f : StmtForm}, standard.stmtForm? k = some f →
    match f with
    | .letStmt => k = .kwLet
    | .returnStmt => k = .kwReturn
    | .exprStmt => False := by
  intro f h
  cases k <;> cases h <;> rfl

/-- What opens an expression opens a statement that is one. -/
theorem standard_stmtForm_of_opens {k : Kind} (h : k.opens = true) :
    standard.stmtForm k = .exprStmt := by
  cases k <;> first | rfl | cases h

end Dialect

/-! ### The tokens that are left -/

namespace Parser

/-- The parser reads the standard language, at the depth `d` and with the
    reports `rs`; the tokens from the current one on are `ts` and the end. -/
structure Before (p : Parser) (d : Nat) (rs : Array Report) (ts : List Token) : Prop where
  dialect : p.dialect = .standard
  depth : p.depth = d
  reports : p.reports = rs
  ahead : p.ahead = ts ++ [.eof]
  proper : ∀ t ∈ ts, t.kind ≠ .eof

/-- The parser is at the last token before `ts`. -/
def Past (p : Parser) (d : Nat) (rs : Array Report) (ts : List Token) : Prop :=
  ∃ t, p.Before d rs (t :: ts)

variable {p q : Parser} {d : Nat} {rs : Array Report} {t : Token} {ts : List Token}

/-- At first, a parser of a text is before all its tokens. -/
theorem before_ofString (source : String) :
    (ofString source).Before 0 #[] (Token.tokenize source).dropLast :=
  ⟨rfl, rfl, rfl, Token.tokenize_eq source, fun _ => Token.kind_ne_eof_of_mem⟩

/-- The tokens from the current one on end with the end of the text, which continues
    no expression. -/
theorem Before.toProper (h : p.Before d rs ts) : p.Proper :=
  ⟨⟨ts, h.ahead, h.proper⟩, by rw [h.dialect]; rfl⟩

theorem Past.toProper (h : p.Past d rs ts) : p.Proper := h.choose_spec.toProper

theorem Before.diagnostics (h : p.Before d #[] ts) : p.diagnostics = [] := by
  rw [Parser.diagnostics, h.reports]
  rfl

theorem Past.reports (h : p.Past d rs ts) : p.reports = rs := h.choose_spec.reports

/-- The last of the tokens that are ahead is the end of the text. -/
theorem Before.getLast? (h : p.Before d rs ts) : p.ahead.getLast? = some .eof := by
  rw [h.ahead, List.getLast?_concat]

/-- At the first of the tokens that are left, a parser is past all but those
    after it. -/
theorem Before.past (h : p.Before d rs (t :: ts)) : p.Past d rs ts := ⟨t, h⟩

theorem Before.current (h : p.Before d rs (t :: ts)) : p.current = t := by
  rw [Parser.current, h.ahead]
  rfl

theorem Before.current_nil (h : p.Before d rs []) : p.current = .eof := by
  rw [Parser.current, h.ahead]
  rfl

/-- The parser is at the end where no token is left. -/
theorem Before.atEnd_iff (h : p.Before d rs ts) : p.atEnd ↔ ts = [] := by
  cases ts with
  | nil => simp [atEnd, h.current_nil, Token.eof]
  | cons t ts => simp [atEnd, h.current, h.proper t List.mem_cons_self]

theorem Before.peek_nil (h : p.Before d rs []) : p.peek = .eof := by
  rw [Parser.peek, h.ahead]
  rfl

theorem Past.peek (h : p.Past d rs (t :: ts)) : p.peek = t := by
  obtain ⟨u, hu⟩ := h
  rw [Parser.peek, hu.ahead]
  rfl

theorem Past.peek_nil (h : p.Past d rs []) : p.peek = .eof := by
  obtain ⟨u, hu⟩ := h
  rw [Parser.peek, hu.ahead]
  rfl

/-- Advancing passes the first of the tokens that are left. -/
theorem Before.advance (h : p.Before d rs (t :: ts)) : p.advance.Before d rs ts := by
  have ht : ¬p.atEnd := by simp [h.atEnd_iff]
  refine ⟨?_, ?_, ?_, ?_, fun u hu => h.proper u (List.mem_cons_of_mem t hu)⟩
  · simp [Parser.advance, ht, h.dialect]
  · simp [Parser.advance, ht, h.depth]
  · simp [Parser.advance, ht, h.reports]
  · rw [ahead_advance ht, h.ahead]
    rfl

/-- At the end of the text advancing changes nothing. -/
theorem Before.advance_nil (h : p.Before d rs []) : p.advance = p := by
  simp [Parser.advance, h.atEnd_iff]

theorem Past.advance (h : p.Past d rs ts) : p.advance.Before d rs ts := by
  obtain ⟨u, hu⟩ := h
  exact hu.advance

theorem Past.advance_past (h : p.Past d rs (t :: ts)) : p.advance.Past d rs ts := h.advance.past

/-- Going a level deeper changes the depth alone. -/
theorem Before.enter (h : p.Before d rs ts) : p.enter.Before (d + 1) rs ts :=
  { h with depth := by simp [Parser.enter, h.depth] }

theorem Before.leave (h : p.Before (d + 1) rs ts) : p.leave.Before d rs ts :=
  { h with depth := by simp [Parser.leave, h.depth] }

theorem Past.leave (h : p.Past (d + 1) rs ts) : p.leave.Past d rs ts := ⟨_, h.choose_spec.leave⟩

/-- The next token continues no expression that is read at the precedence `q`
    if it continues none, or one whose precedence is not above `q`. -/
theorem Past.continuation?_eq_none {q : Precedence} (h : p.Past d rs ts)
    (hts : ∀ t ∈ ts.head?, ∀ r, t.kind.continues? = some r → r ≤ q) :
    p.continuation? q = none := by
  obtain ⟨u, hu⟩ := id h
  rw [continuation?, hu.dialect]
  -- A semicolon never continues an expression; any other token does if the
  -- dialect has a form for it, and if that binds more tightly than `q`.
  cases ts with
  | nil => simp [h.peek_nil, Token.eof, Dialect.standard]
  | cons t ts =>
    rw [h.peek]
    split
    · rfl
    rcases hf : Dialect.standard.infixForm? t.kind with _ | ⟨r, f⟩
    · rfl
    · have hr := hts t rfl r (by rw [← Dialect.standard_infixForm?_map, hf]; rfl)
      simpa [Option.filter, Precedence.lt_iff] using Precedence.le_iff.1 hr

/-- The next token continues an expression that is read at the precedence `q` if
    it has a greater one. -/
theorem Past.continuation?_eq_some {q r : Precedence} {f : InfixForm}
    (h : p.Past d rs (t :: ts)) (hf : Dialect.standard.infixForm? t.kind = some (r, f))
    (hr : q < r) : p.continuation? q = some (r, f) := by
  obtain ⟨u, hu⟩ := id h
  have hs : t.kind ≠ .semicolon := by
    intro hs
    simp [hs, Dialect.standard] at hf
  simp [continuation?, hu.dialect, h.peek, hs, hf, Option.filter, hr]

end Parser

/-! ### Semicolons -/

namespace Form

variable {p : Parser} {d : Nat} {rs : Array Report} {ts rest : List Token}

/-- The tokens after the semicolon that stands before all others, if one does. -/
def afterSemicolon : List Token → List Token
  | t :: ts => if t.kind = .semicolon then ts else t :: ts
  | [] => []

/-- Where no semicolon stands first, nothing is passed. -/
theorem afterSemicolon_of_ne (h : ∀ t ∈ rest.head?, t.kind ≠ .semicolon) :
    afterSemicolon rest = rest := by
  cases rest with
  | nil => rfl
  | cons t ts => exact if_neg (h t rfl)

/-- One semicolon is passed or none. -/
theorem eq_or_eq_cons_afterSemicolon (rest : List Token) :
    afterSemicolon rest = rest ∨
      ∃ c : Token, c.kind = .semicolon ∧ rest = c :: afterSemicolon rest := by
  rcases rest with _ | ⟨c, ts⟩
  · exact .inl rfl
  by_cases hc : c.kind = .semicolon
  · exact .inr ⟨c, hc, by rw [afterSemicolon, if_pos hc]⟩
  · exact .inl (if_neg hc)

theorem length_afterSemicolon_le (rest : List Token) :
    (afterSemicolon rest).length ≤ rest.length := by
  obtain h | ⟨c, -, h⟩ := eq_or_eq_cons_afterSemicolon rest
  · exact Nat.le_of_eq (congrArg List.length h)
  · have hlen := congrArg List.length h
    rw [List.length_cons] at hlen
    omega

/-- Passing a semicolon leads past it, or changes nothing. -/
theorem past_skipSemicolon (hp : p.Past d rs ts) :
    (skipSemicolon p).Past d rs (afterSemicolon ts) := by
  rw [skipSemicolon]
  cases ts with
  | nil => simpa [hp.peek_nil, Token.eof, afterSemicolon] using hp
  | cons t ts =>
    rw [hp.peek, afterSemicolon]
    split
    · exact hp.advance_past
    · exact hp

end Form

/-! ### Steps -/

namespace Action

variable {α β : Type} {p q : Parser}

/-- One action after the other, where what the first one comes to is known. -/
theorem bind_of_eq {x : Action α} {a : α} (h : x p = (some a, q)) (f : α → Action β) :
    (x >>= f) p = f a q := by
  rw [bind_apply, h]

theorem current_bind (f : Token → Action β) : (current >>= f) p = f p.current p := rfl

theorem ask_bind (g : Parser → α) (f : α → Action β) : (ask g >>= f) p = f (g p) p := rfl

theorem peekIs_bind (k : Kind) (f : Bool → Action β) :
    (peekIs k >>= f) p = f (p.peek.kind == k) p := rfl

theorem advance_bind (f : Unit → Action β) : (advance >>= f) p = f () p.advance := rfl

/-- A token of the expected kind is passed. -/
theorem expect_of_eq {k : Kind} (h : p.peek.kind = k) : expect k p = (some (), p.advance) := by
  rw [expect, if_pos h]

/-- The rest of an action goes on after a token of the expected kind. -/
theorem expect_bind_of_eq {k : Kind} (h : p.peek.kind = k) (f : Unit → Action β) :
    (expect k >>= f) p = f () p.advance :=
  bind_of_eq (expect_of_eq h) f

end Action

end ScriptFront

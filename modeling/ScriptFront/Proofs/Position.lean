import ScriptFront.Parser.Command
import ScriptFront.Proofs.Lookahead
import ScriptFront.Proofs.Window

/-!
# Where a parser stands

Whatever a client does with a parser of a text, and in whatever order, the two
tokens that it shows are neighbours among the tokens of the text, at the place
that it has counted to (`Among`): one command keeps this (`among_exec`), and so
do all (`among_run`). It is the place to which a window comes that reads its
tokens from the text one by one (`run_among_tokens`).

Reading a program ends at the last token, the end of the text, however the text
is faulty: a loop over statements stops nowhere else (`stops_stmts`).
-/

namespace ScriptFront

namespace Parser

/-- The parser stands at one of the tokens `ts`, and those from it on are ahead
    of it. -/
structure Among (p : Parser) (ts : List Token) : Prop where
  lt : p.index < ts.length
  ahead : p.ahead = ts.drop p.index

variable {p q : Parser} {ts : List Token}

theorem among_ofString (source : String) : (ofString source).Among (Token.tokenize source) := by
  refine ⟨?_, rfl⟩
  rw [Token.tokenize_eq, List.length_append]
  exact Nat.lt_of_lt_of_le Nat.zero_lt_one (Nat.le_add_left _ _)

/-- The current token is the one at the place that was counted to. -/
theorem Among.current (h : p.Among ts) : ts[p.index]? = some p.current := by
  rw [Parser.current, h.ahead, List.drop_eq_getElem_cons h.lt, List.getElem?_eq_getElem h.lt]
  rfl

/-- The next token is the one after it, and the end of the text behind the last
    one. -/
theorem Among.peek (h : p.Among ts) : p.peek = ts[p.index + 1]?.getD .eof := by
  rw [Parser.peek, h.ahead, List.tail_drop, List.headD_eq_head?_getD, List.head?_drop]

theorem Among.getLast? (h : p.Among ts) : p.ahead.getLast? = ts.getLast? := by
  rw [h.ahead, List.getLast?_drop, if_neg (Nat.not_le_of_lt h.lt)]

theorem Among.proper {source : String} (h : p.Among (Token.tokenize source))
    (hd : p.dialect.infixForm? .eof = none) : p.Proper := by
  have hlt := h.lt
  rw [Token.tokenize_eq, List.length_append, List.length_singleton] at hlt
  refine ⟨⟨(Token.tokenize source).dropLast.drop p.index, ?_, fun t ht => ?_⟩, hd⟩
  · rw [h.ahead, ← List.drop_append_of_le_length (Nat.le_of_lt_succ hlt), ← Token.tokenize_eq]
  · exact Token.kind_ne_eof_of_mem (List.mem_of_mem_drop ht)

/-- A parser that is later stands at a later token, or at the same one. -/
theorem Among.later (h : p.Among ts) (hts : ts.getLast? = some .eof) (hq : p.Later q) :
    q.Among ts := by
  have hpos := List.length_pos_iff.2 (hq.ends (h.getLast?.trans hts))
  have hdrop := List.suffix_iff_eq_drop.1 hq.ahead
  have hindex := hq.index
  have hle := hq.ahead.length_le
  have hlt := h.lt
  rw [h.ahead, List.length_drop] at hindex hle
  refine ⟨by omega, ?_⟩
  rw [hdrop, h.ahead, List.drop_drop, List.length_drop]
  congr 1
  omega

/-! ### Commands -/

/-- The commands that change neither the language nor the depth of nesting. -/
def Command.reads : Command → Bool
  | .enter | .leave | .setStmt _ _ | .setPrefix _ _ | .setInfix _ _ _ => false
  | _ => true

/-- Every command that reads, moves or writes something down goes forward. -/
theorem later_exec (p : Parser) {c : Command} (hc : c.reads) : p.Later (p.exec c).2 := by
  cases c with
  | currentIs | peekIs | currentPrecedence | peekPrecedence => exact .refl p
  | report => exact p.later_record _
  | advance => exact p.later_advance
  | expect k => exact Action.forward_expect k p
  | program => exact p.later_program
  | stmt => exact Form.forward_stmt forward_expression p
  | stmtOf f => exact Action.compositional_forward.stmtOf forward_expression f p
  | block => exact Form.forward_block forward_expression p
  | expression q => exact forward_expression q p
  | prefixOf f => exact Action.compositional_forward.prefixOf forward_expression f p
  | infixOf left q f => exact Form.forward_infixOf forward_expression left q f p
  | _ => cases hc

/-- The other commands change neither the tokens ahead nor the place. -/
theorem exec_of_not_reads (p : Parser) {c : Command} (hc : c.reads = false) :
    (p.exec c).2.ahead = p.ahead ∧ (p.exec c).2.index = p.index := by
  cases c with
  | setStmt | setPrefix | setInfix => exact ⟨rfl, rfl⟩
  | enter =>
    change p.tryEnter.2.ahead = p.ahead ∧ p.tryEnter.2.index = p.index
    rw [tryEnter]
    split <;> exact ⟨rfl, rfl⟩
  | leave =>
    rw [exec]
    split <;> exact ⟨rfl, rfl⟩
  | _ => cases hc

/-- No command leads back. -/
theorem index_le_exec (p : Parser) (c : Command) : p.index ≤ (p.exec c).2.index := by
  cases hc : c.reads with
  | true => exact (p.later_exec hc).index_le
  | false => exact Nat.le_of_eq (p.exec_of_not_reads hc).2.symm

theorem among_exec (h : p.Among ts) (hts : ts.getLast? = some .eof) (c : Command) :
    (p.exec c).2.Among ts := by
  cases hc : c.reads with
  | true => exact h.later hts (p.later_exec hc)
  | false =>
    obtain ⟨ha, hi⟩ := p.exec_of_not_reads hc
    exact ⟨hi ▸ h.lt, by rw [ha, hi, h.ahead]⟩

/-- By induction on the commands, so do all of them. -/
theorem among_run (h : p.Among ts) (hts : ts.getLast? = some .eof) (commands : List Command) :
    (p.run commands).Among ts := by
  induction commands generalizing p with
  | nil => exact h
  | cons c commands ih => exact ih (among_exec h hts c)

end Parser

/-! ### The end of a program -/

/-- Statements are read up to the end of the text, or to a token that they stop
    at. -/
theorem Form.stops_stmts {expr : Precedence → Action Expr} (h : ∀ q, Action.Forward (expr q))
    (stop : List Kind) : ∀ {p : Parser}, p.ahead.getLast? = some .eof →
    (stmts expr stop p).2.atEnd ∨ (stmts expr stop p).2.current.kind ∈ stop := by
  intro p
  induction hN : p.ahead.length using Nat.strongRecOn generalizing p with
  | ind N ih =>
  intro hl
  subst hN
  by_cases hs : p.atEnd ∨ p.current.kind ∈ stop
  · rwa [stmts_of_stop hs]
  · rw [not_or] at hs
    rw [stmts_of_not_stop h hl hs.1 hs.2]
    have hf := forward_stmt h p
    exact ih _ (hf.length_advance_lt hs.1) rfl ((hf.trans (Parser.later_advance _)).getLast? hl)

namespace Parser

variable {p : Parser} {source : String}

/-- Where the end of the text is the current token, all tokens are counted. -/
theorem Among.of_atEnd (h : p.Among (Token.tokenize source)) (hp : p.atEnd) :
    p.current = .eof ∧ p.consumed = (Token.tokenize source).length := by
  have hlt := h.lt
  have hc := h.current
  have hlast : p.index + 1 = (Token.tokenize source).length := by
    refine Nat.le_antisymm hlt (Nat.le_of_not_lt fun hi => ?_)
    rw [List.getElem?_eq_getElem hlt, Option.some.injEq] at hc
    refine Token.kind_getElem_ne_eof hi ?_
    rw [hc]
    exact eq_of_beq hp
  refine ⟨?_, hlast⟩
  rw [Nat.eq_sub_of_add_eq hlast, ← List.getLast?_eq_getElem?, Token.getLast?_tokenize] at hc
  exact (Option.some.inj hc).symm

/-- Reading a program ends at the end of the text, with all tokens counted. -/
theorem Among.program (h : p.Among (Token.tokenize source)) :
    p.program.2.current = .eof ∧ p.program.2.consumed = (Token.tokenize source).length := by
  have hts := Token.getLast?_tokenize source
  refine (h.later hts p.later_program).of_atEnd ?_
  rcases Form.stops_stmts forward_expression [] (h.getLast?.trans hts) with hp | hp
  · exact hp
  · cases hp

/-- Whatever was done with a parser of a text, it shows the token to which it
    has counted and the one after it, which is the end behind the last one. They
    are those of a window that reads its tokens from the text one by one. Reading
    a program then leads to the end of the text and counts all tokens. As nothing
    but the tokens of the text is seen, texts with equal tokens are read alike. -/
theorem run_among_tokens (source : String) (commands : List Command) :
    let ts := Token.tokenize source
    let p := (ofString source).run commands
    let w := Lookahead.advance^[p.consumed - 1] (.ofString source)
    (1 ≤ p.consumed ∧ p.consumed ≤ ts.length ∧ ts[p.consumed - 1]? = some p.current ∧
      p.peek = ts[p.consumed]?.getD .eof) ∧
    (w.current = p.current ∧ w.peek = p.peek ∧ w.consumed = p.consumed) ∧
    (p.program.2.current = .eof ∧ p.program.2.consumed = ts.length) ∧
    ∀ other : String, Token.tokenize other = ts →
      (ofString other).run commands = p ∧ parse other = parse source := by
  intro ts p w
  have h : p.Among ts :=
    among_run (among_ofString source) (Token.getLast?_tokenize source) commands
  have hw : w.Shows ts p.index := Lookahead.shows_iterate source p.index h.lt
  refine ⟨⟨Nat.succ_pos _, h.lt, h.current, h.peek⟩, ⟨?_, ?_, hw.consumed⟩, h.program, ?_⟩
  · have hc := h.current
    rw [List.getElem?_eq_getElem h.lt, Option.some.injEq] at hc
    rw [hw.current h.lt, hc]
  · rw [hw.peek h.lt, h.peek]
  · intro other hother
    have heq : ofString other = ofString source := congrArg ofTokens hother
    rw [parse, parse, heq]
    exact ⟨rfl, rfl⟩

end Parser

end ScriptFront

import ScriptFront.Proofs.Completeness
import ScriptFront.Proofs.MaximalMunch
import ScriptFront.Proofs.Position
import ScriptFront.Proofs.Soundness

/-!
# Texts one after the other

Statements leave nothing behind for those after them. What a parser does depends
on the tokens ahead, not on how many there were before nor on what was reported
then (`Action.Memoryless`); and after the semicolon of a statement that was read
without a report, it stands before the next tokens as if they were a text of
their own (`Derives.goesOn`). So two texts with a blank between them are read as
the one and then the other (`parse_append`), if the first one is closed: it ends
with a semicolon, and no brace in it is open.
-/

namespace ScriptFront

/-! ### What went before -/

/-- The report, if `n` more tokens had stood before it. -/
def Report.after (r : Report) (n : Nat) : Report := { r with index := n + r.index }

namespace Parser

/-- The parser, if `n` more tokens had stood before it and the reports `rs` had
    been made of them. -/
def after (p : Parser) (n : Nat) (rs : Array Report) : Parser :=
  { p with index := n + p.index, reports := rs ++ p.reports.map (·.after n) }

variable {p : Parser} {n : Nat} {rs : Array Report}

/-- A report is moved as the parser that makes it is. -/
theorem record_after (r : Report) :
    (p.after n rs).record (r.after n) = (p.record r).after n rs := by
  simp [record, after]

theorem blameCurrent_after (cause : Cause) :
    (p.after n rs).blameCurrent cause = (p.blameCurrent cause).after n rs :=
  record_after ⟨⟨cause, p.current⟩, p.index, p.depth⟩

theorem advance_after : (p.after n rs).advance = p.advance.after n rs := by
  rw [advance, advance]
  change (if p.atEnd then _ else _) = _
  split <;> rfl

/-- The place of the token after the current one is that of the parser once it
    has advanced. -/
theorem blamePeek_after (cause : Cause) :
    (p.after n rs).blamePeek cause = (p.blamePeek cause).after n rs := by
  rw [blamePeek, advance_after]
  exact record_after ⟨⟨cause, p.peek⟩, p.advance.index, p.depth⟩

/-- A diagnostic does not say where its token stands. -/
theorem diagnostics_after : (p.after n #[]).diagnostics = p.diagnostics := by
  simp [diagnostics, after, Report.after]

end Parser

namespace Action

variable {α β : Type} {n : Nat} {rs : Array Report}

/-- An action that does the same whatever went before. -/
def Memoryless (n : Nat) (rs : Array Report) (x : Action α) : Prop :=
  ∀ p, x (p.after n rs) = ((x p).1, (x p).2.after n rs)

theorem Memoryless.bind {x : Action α} {f : α → Action β} (hx : Memoryless n rs x)
    (hf : ∀ a, Memoryless n rs (f a)) : Memoryless n rs (x >>= f) := by
  intro p
  rw [bind_apply, bind_apply, hx p]
  rcases x p with ⟨_ | a, q⟩
  · rfl
  · exact hf a q

theorem memoryless_advance : Memoryless n rs advance :=
  fun _ => congrArg (Prod.mk (some ())) Parser.advance_after

theorem memoryless_refuse (cause : Cause) : Memoryless n rs (refuse cause : Action α) :=
  fun _ => congrArg (Prod.mk none) (Parser.blameCurrent_after cause)

theorem memoryless_expect (k : Kind) : Memoryless n rs (expect k) := by
  intro p
  rw [expect, expect]
  change (if p.peek.kind = k then _ else _) = _
  split
  · exact memoryless_advance p
  · exact congrArg (Prod.mk none) (Parser.blamePeek_after _)

/-- Whatever actions do is the same whatever went before. -/
theorem stepwise_memoryless : Stepwise (Memoryless n rs) where
  pure _ _ := rfl
  bind := Memoryless.bind
  ask _ _ := rfl
  advance := memoryless_advance
  expect := memoryless_expect
  refuse := memoryless_refuse
  total hx p := congrArg (fun r => (some r.1, r.2)) (hx p)
  nested hx p := congrArg (fun r => (r.1, r.2.leave)) (hx p.enter)

end Action

/-- A program is read alike, whatever stood before its tokens. -/
theorem Parser.program_after (p : Parser) (n : Nat) (rs : Array Report) :
    (p.after n rs).program = (p.program.1, p.program.2.after n rs) := by
  have h : (some (p.after n rs).program.1, (p.after n rs).program.2) =
      (some p.program.1, p.program.2.after n rs) :=
    Action.stepwise_memoryless.compositional.program p
  rw [Prod.mk.injEq, Option.some.injEq] at h
  exact Prod.ext h.1 h.2

/-! ### What goes on after statements -/

/-- From `p` on, the statements `ss` are read without a report, up to the tokens
    `rest`, and then the statements from there on. -/
def GoesOn (m d : Nat) (rs : Array Report) (p : Parser) (ss : List Stmt) (rest : List Token) :
    Prop :=
  ∃ q : Parser, p.Later q ∧ q.Before d rs rest ∧ Form.stmts (expressionWithin m) [] p =
    (ss ++ (Form.stmts (expressionWithin m) [] q).1, (Form.stmts (expressionWithin m) [] q).2)

variable {p : Parser} {d m n : Nat} {rs : Array Report} {ts us rest : List Token} {s : Stmt}
  {ss ss' : List Stmt}

theorem goesOn_nil (hp : p.Before d rs rest) : GoesOn m d rs p [] rest :=
  ⟨p, .refl p, hp, rfl⟩

/-- Statements and then others, each from where the ones before them end. -/
theorem GoesOn.trans (h : GoesOn m d rs p ss us)
    (h' : ∀ q : Parser, q.Before d rs us → GoesOn m d rs q ss' rest) :
    GoesOn m d rs p (ss ++ ss') rest := by
  obtain ⟨q, hpq, hq, heq⟩ := h
  obtain ⟨r, hqr, hr, heq'⟩ := h' q hq
  exact ⟨r, hpq.trans hqr, hr, by rw [heq, heq', List.append_assoc]⟩

/-- One turn of the loop over statements. -/
theorem Derives.goesOn_stmt (h : Derives ts (.stmt s) n) (hn : n ≤ m)
    (hrest : (Level.operator .lowest).Ends rest) (hp : p.Before d rs (ts ++ rest)) :
    GoesOn m d rs p [s] (Form.afterSemicolon rest) := by
  have hf := forward_expressionWithin m
  obtain ⟨q, hq, hpast⟩ := (h.isRead m p d rs rest hrest hp).eq hn
  have hlater := (Form.forward_stmt hf).later hq
  refine ⟨q.advance, hlater.trans q.later_advance, hpast.advance, ?_⟩
  obtain ⟨t, us, rfl, -⟩ := h.starts
  rw [Form.stmts_of_not_stop hf hp.getLast? (by simp [hp.atEnd_iff]) (by simp), hq]
  rfl

/-- After a semicolon, whatever follows takes nothing away from the statements
    before it. -/
theorem Derives.goesOn : ∀ {ts ss n p}, Derives ts (.body ss) n → n ≤ m →
    (∀ t ∈ ts.getLast?, t.kind = .semicolon) → p.Before d rs (ts ++ rest) →
    GoesOn m d rs p ss rest
  | _, _, _, _, noStmts, _, _, hp => goesOn_nil hp
  | _, _, _, p, @stmtsSemicolon c ts us _ _ _ _ hs hc hss, hn, hlast, hp => by
    rw [List.append_assoc] at hp
    have hends : (Level.operator .lowest).Ends (c :: us ++ rest) :=
      ⟨Level.holds_of_none (by simp [hc, Kind.continues?, Kind.operator?]), by simp [hc]⟩
    have hfirst := hs.goesOn_stmt (Nat.le_trans (Nat.le_max_left _ _) hn) hends hp
    rw [List.cons_append, Form.afterSemicolon, if_pos hc] at hfirst
    refine hfirst.trans fun q hq => hss.goesOn (Nat.le_trans (Nat.le_max_right _ _) hn) ?_ hq
    exact fun t ht =>
      hlast t (List.mem_getLast?_append_of_mem_getLast? (List.mem_getLast?_cons ht))
  | _, _, _, p, @Derives.stmts ts us _ _ _ _ hs hss hus, hn, hlast, hp => by
    -- The last token would be one of the statement, and so no semicolon.
    have hne : us ≠ [] := by
      rintro rfl
      obtain ⟨vs, c, rfl, hc⟩ := hs.closes_stmt
      exact hc (hlast c (by simp))
    have hbetween : (Level.operator .lowest).Ends (us ++ rest) ∧
        Form.afterSemicolon (us ++ rest) = us ++ rest := hss.between hus fun h => absurd h hne
    rw [List.append_assoc] at hp
    have hfirst := hs.goesOn_stmt (Nat.le_trans (Nat.le_max_left _ _) hn) hbetween.1 hp
    rw [hbetween.2] at hfirst
    refine hfirst.trans fun q hq => hss.goesOn (Nat.le_trans (Nat.le_max_right _ _) hn) ?_ hq
    exact fun t ht => hlast t (List.mem_getLast?_append_of_mem_getLast? ht)

/-- The rest of a program is the program that is read from there on. -/
theorem GoesOn.program (h : GoesOn maxDepth 0 rs p ss rest) (hp : p.depth = 0) :
    ∃ q : Parser, p.Later q ∧ q.Before 0 rs rest ∧
      p.program = (⟨ss ++ q.program.1.statements⟩, q.program.2) := by
  obtain ⟨q, hpq, hq, heq⟩ := h
  refine ⟨q, hpq, hq, ?_⟩
  rw [Parser.program_eq hp, Parser.program_eq hq.depth, Form.program, Form.program, heq]

/-! ### Two texts -/

/-- A text without a diagnostic in which no brace is open is derived as it
    stands. -/
theorem exists_derives_of_parse_closed {source : String} (h : (parse source).2.diagnostics = [])
    (hk : countKind .lbrace (Token.tokenize source) = countKind .rbrace (Token.tokenize source)) :
    ∃ n ≤ maxDepth,
      Derives (Token.tokenize source).dropLast (.body (parse source).1.statements) n := by
  obtain ⟨k, n, hn, hd⟩ := exists_derives_of_parse h
  have hbalanced := hd.balanced
  obtain ⟨hl, hr⟩ := countKind_closing k
  rw [countKind_append, countKind_append, hl, hr, countKind_dropLast_tokenize (by decide),
    countKind_dropLast_tokenize (by decide), hk] at hbalanced
  obtain rfl : k = 0 := by omega
  exact ⟨n, hn, by simpa [closing] using hd⟩

/-- A parser that has come to the tokens of `source` without a report is a new
    one of `source`, but for the tokens before them. -/
theorem Parser.Before.eq_after {q : Parser} {source : String}
    (h : q.Before 0 #[] (Token.tokenize source).dropLast) :
    q = (ofString source).after q.index #[] := by
  obtain ⟨dialect, ahead, index, depth, reports⟩ := q
  obtain ⟨rfl, rfl, rfl, hahead, -⟩ := h
  rw [← Token.tokenize_eq] at hahead
  simp_all [ofString, ofTokens, after]

/-- A text whose tokens are those of statements and then those of `b` is read as
    these statements and then as `b`. -/
theorem parse_of_derives_append {source b : String} (h : Derives ts (.body ss) n)
    (hn : n ≤ maxDepth) (hlast : ∀ t ∈ ts.getLast?, t.kind = .semicolon)
    (hts : Token.tokenize source = ts ++ Token.tokenize b) :
    parse source = (⟨ss ++ (parse b).1.statements⟩, (parse b).2.after ts.length #[]) := by
  have hne : Token.tokenize b ≠ [] := by
    rw [Token.tokenize_eq]
    simp
  have hp := Parser.before_ofString source
  rw [hts, List.dropLast_append_of_ne_nil hne] at hp
  obtain ⟨q, hlater, hq, heq⟩ := (h.goesOn hn hlast hp).program hp.depth
  -- As many tokens were passed as there are in the statements.
  have hindex : q.index = ts.length := by
    have hi := hlater.index
    rw [hq.ahead, ← Token.tokenize_eq] at hi
    change q.index + _ = 0 + (Token.tokenize source).length at hi
    rw [hts, List.length_append] at hi
    omega
  rw [hq.eq_after, Parser.program_after, hindex] at heq
  exact heq

/-- A text that ends with a semicolon, with no diagnostic and no open brace, and
    any other text after a blank: the statements are those of the one and then
    those of the other, and whatever is reported is reported of the second text
    alone. -/
theorem parse_append {a b : String} {w : Char} (ha : (parse a).2.diagnostics = [])
    (hlast : ∃ t ∈ (Token.tokenize a).dropLast.getLast?, t.kind = .semicolon)
    (hk : countKind .lbrace (Token.tokenize a) = countKind .rbrace (Token.tokenize a))
    (hw : Text.isBlank w = true) :
    (parse (a ++ String.singleton w ++ b)).1.statements =
        (parse a).1.statements ++ (parse b).1.statements ∧
      (parse (a ++ String.singleton w ++ b)).2.diagnostics = (parse b).2.diagnostics ∧
      (parse (a ++ String.singleton w ++ b)).2.consumed =
        (parse a).2.consumed - 1 + (parse b).2.consumed := by
  obtain ⟨n, hn, hd⟩ := exists_derives_of_parse_closed ha hk
  obtain ⟨c, hc, hkind⟩ := hlast
  have heq := parse_of_derives_append hd hn (fun t ht => Option.mem_unique ht hc ▸ hkind)
    (Token.tokenize_append_blank (b := b) hw)
  have hconsumed : (parse a).2.consumed = (Token.tokenize a).length :=
    (Parser.among_ofString a).program.2
  rw [heq, hconsumed, ← List.length_dropLast]
  exact ⟨rfl, Parser.diagnostics_after, Nat.add_assoc _ _ _⟩

/-- A function and, after it, a text that goes wrong twice: at the semicolon in
    the call, and at the end, where a name is missing. -/
theorem parse_append_function :
    (parse "let f = fn(x) \x7b x + 1; \x7d;").2.diagnostics = [] ∧
      (parse "f(1; let").2.diagnostics.length = 2 ∧
      (parse "let f = fn(x) \x7b x + 1; \x7d; f(1; let").1.statements =
        (parse "let f = fn(x) \x7b x + 1; \x7d;").1.statements ++
          (parse "f(1; let").1.statements ∧
      (parse "let f = fn(x) \x7b x + 1; \x7d; f(1; let").2.diagnostics =
        (parse "f(1; let").2.diagnostics ∧
      (parse "let f = fn(x) \x7b x + 1; \x7d; f(1; let").2.consumed =
        (parse "let f = fn(x) \x7b x + 1; \x7d;").2.consumed - 1 +
          (parse "f(1; let").2.consumed := by
  have ha : (parse "let f = fn(x) \x7b x + 1; \x7d;").2.diagnostics = [] := by decide +kernel
  obtain ⟨hstmts, hdiagnostics, hconsumed⟩ := parse_append (b := "f(1; let") (w := ' ') ha
    (by decide +kernel) (by decide +kernel) rfl
  exact ⟨ha, by decide +kernel, hstmts, hdiagnostics, hconsumed⟩

end ScriptFront

import ScriptFront.Proofs.Spelling
import ScriptFront.Token.Cursor

/-!
# What a cursor holds

Where a cursor stands in its text fixes all else that it holds, and every move
keeps this (`Cursor.Consistent`). So what a cursor does can be said of the text
that is left from it on (`Cursor.rest`), wherever it came from: a move drops a
character, skipping drops those that are accepted, and reading a token is
scanning what is left (`Consistent.reads_next`).

A client that moves a cursor by characters into the middle of a word or of `==`,
or that goes back to a saved one, therefore finds the tokens of what is left, as
if no text stood before it (`Session.run_consistent_memoryless`).
-/

namespace ScriptFront

namespace Cursor

/-- What a cursor holds agrees with the place where it stands in the text: the
    character there, and the place of the next one, which is the end at the
    latest. -/
structure Consistent (c : Cursor) : Prop where
  pos_le : c.pos ≤ c.source.size
  current? : c.current? = c.source[c.pos]?
  readPos : c.readPos = min (c.pos + 1) c.source.size

/-- The cursor `d` stands in the text of `c` where `rest` is left of it. -/
structure LeadsTo (c d : Cursor) (rest : List Char) : Prop where
  consistent : d.Consistent
  source : d.source = c.source
  rest : d.rest = rest

variable {c d e : Cursor} {rest rest' : List Char}

theorem LeadsTo.trans (hd : c.LeadsTo d rest) (he : d.LeadsTo e rest') : c.LeadsTo e rest' :=
  ⟨he.consistent, he.source.trans hd.source, he.rest⟩

theorem consistent_ofString (source : String) : (ofString source).Consistent := by
  refine ⟨Nat.zero_le _, rfl, ?_⟩
  simp only [ofString, advance]
  split <;> omega

namespace Consistent

/-- What is left and what was passed are the whole text. -/
theorem length_rest (h : c.Consistent) : c.pos + c.rest.length = c.source.size := by
  have hle := h.pos_le
  rw [Cursor.rest, List.length_drop, Array.length_toList]
  omega

/-- As much as is left less, as much further the cursor stands. -/
theorem pos_add_length (h : c.Consistent) (hd : c.LeadsTo d rest) :
    d.pos + rest.length = c.pos + c.rest.length := by
  rw [← hd.rest, hd.consistent.length_rest, hd.source, h.length_rest]

/-- The current character is the first one that is left. -/
theorem current?_eq_head? (h : c.Consistent) : c.current? = c.rest.head? := by
  rw [h.current?, Cursor.rest, List.head?_drop, Array.getElem?_toList]

theorem peek?_eq (h : c.Consistent) : c.peek? = c.source[c.pos + 1]? := by
  have hle := h.pos_le
  rw [peek?, h.readPos]
  rcases Nat.le_total (c.pos + 1) c.source.size with hlt | hge
  · rw [Nat.min_eq_left hlt]
  · rw [Nat.min_eq_right hge, Array.getElem?_eq_none (Nat.le_refl _), Array.getElem?_eq_none hge]

theorem atEnd_iff (h : c.Consistent) : c.atEnd = true ↔ c.pos = c.source.size := by
  have hle := h.pos_le
  rw [atEnd, Option.isNone_iff_eq_none, h.current?, Array.getElem?_eq_none_iff]
  omega

theorem atEnd_of_rest (h : c.Consistent) (hr : c.rest = []) : c.atEnd = true := by
  rw [atEnd, h.current?_eq_head?, hr]
  rfl

/-- Advancing drops the first character that is left. -/
theorem leadsTo_advance (h : c.Consistent) : c.LeadsTo c.advance c.rest.tail := by
  have hle := h.pos_le
  have hread := h.readPos
  refine ⟨⟨?_, rfl, ?_⟩, rfl, ?_⟩
  · change c.readPos ≤ c.source.size
    omega
  · simp only [advance]
    split <;> omega
  · rw [Cursor.rest, Cursor.rest, List.tail_drop]
    change c.source.toList.drop c.readPos = _
    rcases Nat.le_total (c.pos + 1) c.source.size with hlt | hge
    · rw [hread, Nat.min_eq_left hlt]
    · rw [hread, Nat.min_eq_right hge, List.drop_of_length_le (by simp),
        List.drop_of_length_le (by simpa using hge)]

/-- By the number of characters left: skipping drops those that are accepted. -/
theorem leadsTo_skipWhile (h : c.Consistent) (accept : Char → Bool) :
    c.LeadsTo (c.skipWhile accept) (c.rest.dropWhile accept) := by
  induction c using skipWhile.induct accept with
  | case1 c hany _ ih =>
    rw [skipWhile_of_any hany]
    obtain ⟨d, hd, haccept⟩ := Option.any_eq_true _ _ |>.1 hany
    obtain ⟨rest, hrest⟩ := List.head?_eq_some_iff.1 (h.current?_eq_head?.symm.trans hd)
    have hadv := h.leadsTo_advance
    rw [hrest, List.dropWhile_cons, if_pos haccept]
    rw [hrest, List.tail_cons] at hadv
    exact hadv.rest ▸ hadv.trans (ih hadv.consistent)
  | case2 c hany =>
    rw [skipWhile_of_not_any hany]
    refine ⟨h, rfl, ?_⟩
    rw [h.current?_eq_head?] at hany
    rcases hrest : c.rest with _ | ⟨d, rest⟩
    · rfl
    · rw [hrest, List.head?_cons, Option.any_some] at hany
      rw [List.dropWhile_cons, if_neg hany]

theorem leadsTo_skipBlanks (h : c.Consistent) :
    c.LeadsTo c.skipBlanks (c.rest.dropWhile Text.isBlank) :=
  h.leadsTo_skipWhile Text.isBlank

/-- Going through accepted characters does not leave the text, so what was gone
    through can be cut out of it. -/
theorem readWhile?_eq (h : c.Consistent) (accept : Char → Bool) :
    c.readWhile? accept =
      (some (String.ofList (c.rest.takeWhile accept)), c.skipWhile accept) := by
  have hsize := h.length_rest
  have hpos := h.pos_add_length (h.leadsTo_skipWhile accept)
  have hsplit := congrArg List.length (List.takeWhile_append_dropWhile (p := accept) (l := c.rest))
  rw [List.length_append] at hsplit
  have hlength : (c.skipWhile accept).pos - c.pos = (c.rest.takeWhile accept).length := by omega
  have htake : c.rest.take (c.rest.takeWhile accept).length = c.rest.takeWhile accept :=
    (List.prefix_iff_eq_take.1 (List.takeWhile_prefix accept)).symm
  rw [readWhile?, slice?, if_pos ⟨by omega, by omega⟩, Array.toList_extract, List.extract, hlength,
    ← Cursor.rest, htake]

end Consistent

/-! ### Reading a token -/

/-- The cursor `c` answers as scanning does, with the token `scanned.1`, and it
    leads to a cursor where `scanned.2` is left. -/
structure Reads (c : Cursor) (answer : Token × Cursor) (scanned : Token × List Char) : Prop where
  token : answer.1 = scanned.1
  leadsTo : c.LeadsTo answer.2 scanned.2

namespace Consistent

variable {first : Char}

/-- A word is read as it is scanned. -/
theorem reads_readWord (h : c.Consistent) (hc : c.rest = first :: rest)
    (hl : Token.isLetter first = true) : c.Reads c.readWord (Token.scanFrom first rest) := by
  have hskip := h.leadsTo_skipWhile Token.isWordChar
  have hword : Token.isWordChar first = true := by rw [Token.isWordChar, hl, Bool.true_or]
  rw [hc, List.dropWhile_cons, if_pos hword] at hskip
  rw [readWord, h.readWhile?_eq, hc, List.takeWhile_cons, if_pos hword,
    Token.scanFrom_of_isLetter hl]
  exact ⟨rfl, hskip⟩

theorem reads_readNumber (h : c.Consistent) (hc : c.rest = first :: rest)
    (hd : first.isDigit = true) : c.Reads c.readNumber (Token.scanFrom first rest) := by
  have hskip := h.leadsTo_skipWhile Char.isDigit
  rw [hc, List.dropWhile_cons, if_pos hd] at hskip
  rw [readNumber, h.readWhile?_eq, hc, List.takeWhile_cons, if_pos hd,
    Token.scanFrom_of_isDigit hd]
  exact ⟨rfl, hskip⟩

theorem leadsTo_tail (h : c.Consistent) (hc : c.rest = first :: rest) :
    c.LeadsTo c.advance rest := by
  have hadv := h.leadsTo_advance
  rwa [hc] at hadv

/-- A symbol that may be the start of a longer one is read as that where `=`
    follows. -/
theorem reads_oneOrTwo (h : c.Consistent) (hc : c.rest = first :: rest) {single double : Kind}
    (hs : Kind.ofSymbol? first = some single)
    (hd : ∀ rest, Token.scanFrom first ('=' :: rest) =
      (⟨double, String.ofList [first, '=']⟩, rest)) :
    c.Reads ((c.oneOrTwo single double).map id advance) (Token.scanFrom first rest) := by
  have hfirst : c.current?.getD '\x00' = first := by rw [h.current?_eq_head?, hc]; rfl
  have hadv := h.leadsTo_tail hc
  have hpeek : c.peek? = rest.head? := by
    rw [← hadv.rest, ← hadv.consistent.current?_eq_head?]
    rfl
  rw [oneOrTwo, hfirst, hpeek]
  split
  next heq =>
    obtain ⟨rest, rfl⟩ := List.head?_eq_some_iff.1 heq
    rw [hd]
    exact ⟨rfl, hadv.trans (hadv.consistent.leadsTo_tail hadv.rest)⟩
  next hne =>
    rw [Token.scanFrom_of_ofSymbol? hs fun _ d hd he => hne (he ▸ hd)]
    exact ⟨rfl, hadv⟩

/-- A token is read as it is scanned, by its first character. -/
theorem reads_readToken (h : c.Consistent) (hc : c.rest = first :: rest) :
    c.Reads c.readToken (Token.scanFrom first rest) := by
  have hfirst : c.current? = some first := by rw [h.current?_eq_head?, hc]; rfl
  have hadv := h.leadsTo_tail hc
  rw [readToken, hfirst]
  split
  next heq => cases heq
  next heq =>
    cases heq
    exact h.reads_oneOrTwo hc rfl fun _ => rfl
  next heq =>
    cases heq
    exact h.reads_oneOrTwo hc rfl fun _ => rfl
  next hassign hbang heq =>
    cases heq
    split
    next kind hk =>
      -- The symbols that may go on were tried before.
      have hne : ¬(kind = .assign ∨ kind = .bang) := fun hopen =>
        (Token.eq_of_ofSymbol? hk hopen).elim hassign hbang
      rw [Token.scanFrom_of_ofSymbol? hk (absurd · hne)]
      exact ⟨rfl, hadv⟩
    next hk =>
      split
      next hl => exact h.reads_readWord hc hl
      split
      next hd => exact h.reads_readNumber hc hd
      next hl hd =>
        rw [Token.scanFrom_illegal hl hd hk]
        exact ⟨rfl, hadv⟩

/-- The next token is the one that scanning finds in what is left. -/
theorem reads_next (h : c.Consistent) : c.Reads c.next (Token.scan c.rest) := by
  have hskip := h.leadsTo_skipBlanks
  rw [next, Token.scan]
  rcases hrest : c.rest.dropWhile Text.isBlank with _ | ⟨first, rest⟩
  · rw [hrest] at hskip
    rw [readToken_of_atEnd (hskip.consistent.atEnd_of_rest hskip.rest)]
    exact ⟨rfl, hskip⟩
  · rw [hrest] at hskip
    obtain ⟨ht, hd⟩ := hskip.consistent.reads_readToken hskip.rest
    exact ⟨ht, hskip.trans hd⟩

/-- A cursor answers with the end only if nothing is left, and moves forward
    otherwise. The tokens that are left are its answer and those that are left
    then. -/
theorem next_cases (h : c.Consistent) :
    (c.next.1 = .eof ∧ c.next.2.rest = [] ∧ Token.tokens c.rest = [.eof]) ∨
      (c.next.1.kind ≠ .eof ∧ c.pos < c.next.2.pos ∧
        Token.tokens c.rest = c.next.1 :: Token.tokens c.next.2.rest) := by
  obtain ⟨ht, hd⟩ := h.reads_next
  rw [ht, hd.rest]
  rcases Token.scan_cases c.rest with ⟨hs, htokens⟩ | ⟨hk, hlt, htokens⟩
  · rw [hs]
    exact .inl ⟨rfl, rfl, htokens⟩
  · have hpos := h.pos_add_length hd
    exact .inr ⟨hk, by omega, htokens⟩

/-- Reading to the end finds the tokens of what is left of the text. -/
theorem drain_eq (h : c.Consistent) : c.drain = Token.tokens c.rest := by
  induction c using drain.induct with
  | case1 c hk =>
    rw [drain, dif_pos hk]
    rcases h.next_cases with ⟨ht, -, htokens⟩ | ⟨hne, -⟩
    · rw [ht, htokens]
    · exact absurd hk hne
  | case2 c hk _ ih =>
    rw [drain, dif_neg hk, ih h.reads_next.leadsTo.consistent]
    rcases h.next_cases with ⟨ht, -⟩ | ⟨-, -, htokens⟩
    · exact absurd (congrArg Token.kind ht) hk
    · exact htokens.symm

theorem advance_of_atEnd (h : c.Consistent) (hend : c.atEnd = true) : c.advance = c := by
  have hpos := h.atEnd_iff.1 hend
  have hread := h.readPos
  have hlast : c.readPos = c.source.size := by omega
  have hcurrent : c.source[c.readPos]? = c.current? := by rw [h.current?, hlast, hpos]
  exact Cursor.ext rfl (hlast.trans hpos.symm) (if_neg (by omega)) hcurrent

end Consistent

/-- At the end the answer is the end, and the cursor stays. -/
theorem next_of_atEnd (h : c.atEnd = true) : c.next = (.eof, c) := by
  have hskip : c.skipBlanks = c := by
    refine skipWhile_of_not_any fun hany => ?_
    rw [atEnd_eq_false_of_any hany] at h
    cases h
  rw [next, hskip, readToken_of_atEnd h]

theorem drain_ofString (source : String) : (ofString source).drain = Token.tokenize source :=
  (consistent_ofString source).drain_eq

/-! ### Clients -/

namespace Session

variable {s : Session} {text : Array Char}

/-- All cursors that a client holds are consistent, and stand in one text. -/
def Consistent (text : Array Char) (s : Session) : Prop :=
  ∀ c ∈ s.cursor :: s.saved, c.Consistent ∧ c.source = text

/-- One command keeps all cursors of a client consistent. -/
theorem consistent_exec (h : s.Consistent text) (command : Command) :
    (s.exec command).2.Consistent text := by
  obtain ⟨⟨hc, htext⟩, hsaved⟩ := List.forall_mem_cons.1 h
  cases command with
  | next =>
    have hd := hc.reads_next.leadsTo
    exact List.forall_mem_cons.2 ⟨⟨hd.consistent, hd.source.trans htext⟩, hsaved⟩
  | advance =>
    have hd := hc.leadsTo_advance
    exact List.forall_mem_cons.2 ⟨⟨hd.consistent, hd.source.trans htext⟩, hsaved⟩
  | save => exact List.forall_mem_cons.2 ⟨⟨hc, htext⟩, h⟩
  | restore =>
    rw [exec]
    split
    next => exact h
    next heq =>
      rw [heq] at hsaved
      exact hsaved

theorem consistent_run (h : s.Consistent text) (commands : List Command) :
    (s.run commands).Consistent text := by
  induction commands generalizing s with
  | nil => exact h
  | cons command commands ih => exact ih (consistent_exec h command)

theorem consistent_ofString (source : String) :
    (ofString source).Consistent source.toList.toArray :=
  List.forall_mem_cons.2 ⟨⟨Cursor.consistent_ofString source, rfl⟩, nofun⟩

/-- At the end a cursor stays, until the client goes back to a saved one. -/
theorem cursor_run_of_atEnd {commands : List Command} (hc : s.cursor.Consistent)
    (hend : s.cursor.atEnd = true) (hr : .restore ∉ commands) :
    (s.run commands).cursor = s.cursor := by
  induction commands generalizing s with
  | nil => rfl
  | cons command commands ih =>
    rw [List.mem_cons, not_or] at hr
    have hstay : (s.exec command).2.cursor = s.cursor := by
      cases command with
      | next => exact congrArg Prod.snd (next_of_atEnd hend)
      | advance => exact hc.advance_of_atEnd hend
      | save => rfl
      | restore => exact absurd rfl hr.1
    rw [← hstay] at hc hend ⊢
    exact ih hc hend hr.2

/-- Whatever a client does with a cursor, and in whatever order, what the cursor
    holds agrees with its place in the text, and cutting out a word or a number
    stays within the text. The cursor moves forward with each token, up to the
    end, where it stays. It remembers nothing of what it has read: from its place
    on it finds the tokens of what is left of the text. -/
theorem run_consistent_memoryless (source : String) (commands : List Command) :
    let n := source.length
    let s := (ofString source).run commands
    let c := s.cursor
    let left := String.ofList (source.toList.drop c.pos)
    (c.pos ≤ n ∧ c.current? = source.toList[c.pos]? ∧ (c.current? = none ↔ c.pos = n) ∧
      c.readPos = min (c.pos + 1) n ∧ c.peek? = source.toList[c.pos + 1]?) ∧
    (∀ accept, (c.skipBlanks.readWhile? accept).1.isSome) ∧
    (c.next.1.kind ≠ .eof → c.pos < c.next.2.pos) ∧
    (c.next.1.kind = .eof → c.next.2.next = (.eof, c.next.2) ∧
      ∀ more, .restore ∉ more → ((s.exec .next).2.run more).cursor = c.next.2) ∧
    (c.drain = Token.tokenize left ∧ (Cursor.ofString left).drain = Token.tokenize left) := by
  intro n s c left
  obtain ⟨hc, hsource⟩ : c.Consistent ∧ c.source = source.toList.toArray :=
    consistent_run (consistent_ofString source) commands c List.mem_cons_self
  have hsize : c.source.size = n := by rw [hsource, List.size_toArray, String.length_toList]
  have hget (i : Nat) : c.source[i]? = source.toList[i]? := by rw [hsource, List.getElem?_toArray]
  have hnext := hc.reads_next.leadsTo.consistent
  refine ⟨⟨hsize ▸ hc.pos_le, (hget _) ▸ hc.current?, ?_, hsize ▸ hc.readPos, ?_⟩, ?_, ?_, ?_, ?_⟩
  · rw [← hsize, ← hc.atEnd_iff, atEnd, Option.isNone_iff_eq_none]
  · rw [hc.peek?_eq, hget]
  · intro accept
    rw [hc.leadsTo_skipBlanks.consistent.readWhile?_eq accept]
    rfl
  · intro hk
    rcases hc.next_cases with ⟨ht, -⟩ | ⟨-, hlt, -⟩
    · exact absurd (congrArg Token.kind ht) hk
    · exact hlt
  · intro hk
    rcases hc.next_cases with ⟨-, hrest, -⟩ | ⟨hne, -⟩
    · have hend := hnext.atEnd_of_rest hrest
      exact ⟨next_of_atEnd hend, fun more hr => cursor_run_of_atEnd hnext hend hr⟩
    · exact absurd hk hne
  · refine ⟨?_, drain_ofString left⟩
    rw [hc.drain_eq, Token.tokenize, String.toList_ofList, rest, hsource]

/-- From the middle of `==` on, what is left starts with `=`. -/
example : ((ofString "a==1").run [.next, .advance]).cursor.drain =
    [⟨.assign, "="⟩, ⟨.int, "1"⟩, .eof] := by decide +kernel

end Session

end Cursor

end ScriptFront

import Mathlib.Logic.Function.Iterate
import ScriptFront.Proofs.Consistency

/-!
# Two tokens of a text

A parser sees two tokens, and need not have read more of the text than those.
`Lookahead` is such a window: it holds the two tokens and a cursor, and each
time that it moves on it reads one token from the cursor. At the end of the text
it stays.

However long the text, the window then shows the tokens of the text one after
the other, none of them twice and none left out (`shows_iterate`): a cursor
answers with the tokens of the text that is left, and after them with the end
for ever.
-/

namespace ScriptFront

/-- The current token and the one after it, with a cursor behind both. -/
structure Lookahead where
  /-- The current token. -/
  current : Token
  /-- The token after it. -/
  peek : Token
  /-- Where the next token is read. -/
  cursor : Cursor
  /-- The number of tokens that have been the current one. -/
  consumed : Nat

namespace Lookahead

/-- The window on the first two tokens of a text. -/
def ofString (source : String) : Lookahead :=
  let (current, cursor) := (Cursor.ofString source).next
  let (peek, cursor) := cursor.next
  ⟨current, peek, cursor, 1⟩

/-- The window one token further; at the end it stays. -/
def advance (w : Lookahead) : Lookahead :=
  if w.current.kind = .eof then w
  else
    let (token, cursor) := w.cursor.next
    ⟨w.peek, token, cursor, w.consumed + 1⟩

/-- The window stands at the token with the place `i` among the tokens `ts`, and
    reads on from a consistent cursor. Behind them the end may be read, any number
    of times. -/
structure Shows (w : Lookahead) (ts : List Token) (i : Nat) : Prop where
  consistent : w.cursor.Consistent
  consumed : w.consumed = i + 1
  ahead : ∃ k, w.current :: w.peek :: Token.tokens w.cursor.rest =
    ts.drop i ++ List.replicate k .eof

variable {w : Lookahead} {ts : List Token} {i : Nat}

/-- A cursor answers with the first token of the text that is left. At the end
    of the text it answers with the end, and there is no less of it left. -/
theorem next_cons_tokens {c : Cursor} (h : c.Consistent) :
    ∃ k, c.next.1 :: Token.tokens c.next.2.rest =
      Token.tokens c.rest ++ List.replicate k .eof := by
  rcases h.next_cases with ⟨ht, hrest, htokens⟩ | ⟨-, -, htokens⟩
  · exact ⟨1, by rw [ht, hrest, htokens, Token.tokens_nil]; rfl⟩
  · exact ⟨0, by rw [htokens]; simp⟩

theorem shows_ofString (source : String) : (ofString source).Shows (Token.tokenize source) 0 := by
  have hc := Cursor.consistent_ofString source
  have hd := hc.reads_next.leadsTo.consistent
  obtain ⟨k, hk⟩ := next_cons_tokens hc
  obtain ⟨l, hl⟩ := next_cons_tokens hd
  refine ⟨hd.reads_next.leadsTo.consistent, rfl, k + l, ?_⟩
  change (Cursor.ofString source).next.1 :: (Cursor.ofString source).next.2.next.1 ::
    Token.tokens (Cursor.ofString source).next.2.next.2.rest = _
  rw [hl, ← List.cons_append, hk, List.append_assoc, List.replicate_append_replicate]
  rfl

/-- Before the end the window moves on to the next token. -/
theorem Shows.advance (h : w.Shows ts i) (hi : i < ts.length) (hw : w.current.kind ≠ .eof) :
    w.advance.Shows ts (i + 1) := by
  obtain ⟨k, hk⟩ := h.ahead
  obtain ⟨l, hl⟩ := next_cons_tokens h.consistent
  have hadv : w.advance = ⟨w.peek, w.cursor.next.1, w.cursor.next.2, w.consumed + 1⟩ := if_neg hw
  rw [hadv]
  refine ⟨h.consistent.reads_next.leadsTo.consistent, by rw [h.consumed], k + l, ?_⟩
  rw [List.drop_eq_getElem_cons hi, List.cons_append] at hk
  rw [hl, ← List.cons_append, (List.cons.inj hk).2, List.append_assoc,
    List.replicate_append_replicate]

theorem Shows.current (h : w.Shows ts i) (hi : i < ts.length) : w.current = ts[i] := by
  obtain ⟨k, hk⟩ := h.ahead
  rw [List.drop_eq_getElem_cons hi] at hk
  exact (List.cons.inj hk).1

/-- Behind the last token the window shows the end. -/
theorem Shows.peek (h : w.Shows ts i) (hi : i < ts.length) : w.peek = ts[i + 1]?.getD .eof := by
  obtain ⟨k, hk⟩ := h.ahead
  rw [List.drop_eq_getElem_cons hi, List.cons_append] at hk
  have hpeek := congrArg List.head? (List.cons.inj hk).2
  rw [List.head?_cons, List.head?_append, List.head?_drop] at hpeek
  rcases hn : ts[i + 1]? with _ | t
  · rw [hn, Option.none_or] at hpeek
    cases k with
    | zero => cases hpeek
    | succ k => exact Option.some.inj hpeek
  · rw [hn] at hpeek
    exact Option.some.inj hpeek

/-- After `i` moves, the window on a text stands at the token with the place
    `i`. -/
theorem shows_iterate (source : String) : ∀ i < (Token.tokenize source).length,
    (advance^[i] (ofString source)).Shows (Token.tokenize source) i
  | 0, _ => shows_ofString source
  | i + 1, hi => by
    have h := shows_iterate source i (by omega)
    rw [Function.iterate_succ_apply']
    refine h.advance (by omega) ?_
    rw [h.current (by omega)]
    exact Token.kind_getElem_ne_eof hi

end Lookahead

end ScriptFront

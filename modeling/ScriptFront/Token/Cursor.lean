import ScriptFront.Token.Scan

/-!
# Cursors

A cursor stands at a character of a text, or at its end, and reads tokens from
there on. It holds the text, the place where it stands with the character there,
and the place to which it moves next. All that it does is made of moves by one
character (`Cursor.advance`): it skips blanks, looks for the second character of
`==` and `!=`, goes through a word or a number and cuts it out of the text.

A client may also move it by single characters, and may save it and come back
later; `Cursor.Session` is a cursor with the ones that were saved, and
`Cursor.Command` what a client may ask of it.
-/

namespace ScriptFront

/-- A place in a text. -/
@[ext]
structure Cursor where
  /-- The characters of the text. -/
  source : Array Char
  /-- The place of the character at the cursor. -/
  pos : Nat
  /-- The place to which the cursor moves next. -/
  readPos : Nat
  /-- The character at the cursor, if it is not at the end. -/
  current? : Option Char
  deriving DecidableEq

namespace Cursor

/-- The cursor one character further; at the end it stays. -/
def advance (c : Cursor) : Cursor :=
  { c with
    pos := c.readPos
    readPos := if c.readPos < c.source.size then c.readPos + 1 else c.readPos
    current? := c.source[c.readPos]? }

/-- The cursor at the start of a text. It gets there by a move that leads to the
    first character. -/
def ofString (source : String) : Cursor := advance ⟨source.toList.toArray, 0, 0, none⟩

/-- The character after the one at the cursor. -/
def peek? (c : Cursor) : Option Char := c.source[c.readPos]?

/-- Whether the cursor is at the end of the text. -/
def atEnd (c : Cursor) : Bool := c.current?.isNone

/-- The text from the cursor on. -/
def rest (c : Cursor) : List Char := c.source.toList.drop c.pos

/-- The number of moves after which the cursor is at the end for sure. -/
def movesLeft (c : Cursor) : Nat := if c.atEnd then 0 else c.source.size - c.readPos + 1

variable {c : Cursor} {accept : Char → Bool}

/-- A move before the end leaves fewer of them. -/
theorem movesLeft_advance_lt (h : c.atEnd = false) : c.advance.movesLeft < c.movesLeft := by
  have hc : c.movesLeft = c.source.size - c.readPos + 1 := if_neg (by simp [h])
  rw [hc, movesLeft]
  split
  · omega
  next hd =>
    have hlt : c.readPos < c.source.size := by simpa [atEnd, advance] using hd
    simp only [advance, if_pos hlt]
    omega

/-- Where a character is accepted there is one. -/
theorem atEnd_eq_false_of_any (h : c.current?.any accept = true) : c.atEnd = false := by
  rw [atEnd]
  cases hc : c.current? with
  | none => simp [hc] at h
  | some d => rfl

/-- The cursor behind the characters that are accepted. -/
def skipWhile (accept : Char → Bool) (c : Cursor) : Cursor :=
  if h : c.current?.any accept = true then
    have := movesLeft_advance_lt (atEnd_eq_false_of_any h)
    skipWhile accept c.advance
  else c
termination_by c.movesLeft

theorem skipWhile_of_any (h : c.current?.any accept = true) :
    c.skipWhile accept = c.advance.skipWhile accept := by
  rw [skipWhile, dif_pos h]

theorem skipWhile_of_not_any (h : ¬c.current?.any accept = true) : c.skipWhile accept = c := by
  rw [skipWhile, dif_neg h]

/-- The cursor behind the blanks at which it stands. -/
def skipBlanks (c : Cursor) : Cursor := c.skipWhile Text.isBlank

/-- The piece of the text from the place `start` up to the place `stop`. There is
    none if these are not two places of the text in this order. -/
def slice? (c : Cursor) (start stop : Nat) : Option String :=
  if start ≤ stop ∧ stop ≤ c.source.size then
    some (String.ofList (c.source.extract start stop).toList)
  else none

/-- The characters that are accepted, cut out of the text, and the cursor behind
    them. -/
def readWhile? (accept : Char → Bool) (c : Cursor) : Option String × Cursor :=
  let behind := c.skipWhile accept
  (c.slice? c.pos behind.pos, behind)

/-- Reads a word. There is always a piece of the text to cut out
    (`Consistent.readWhile?_eq`). -/
def readWord (c : Cursor) : Token × Cursor :=
  let (word?, c) := c.readWhile? Token.isWordChar
  let word := word?.getD ""
  (⟨Kind.ofWord word, word⟩, c)

/-- Reads a number. -/
def readNumber (c : Cursor) : Token × Cursor :=
  let (digits?, c) := c.readWhile? Char.isDigit
  (⟨.int, digits?.getD ""⟩, c)

/-- Reads the character at the cursor, and with it a `=` that follows directly.
    The cursor is left at the last character of the token. -/
def oneOrTwo (single double : Kind) (c : Cursor) : Token × Cursor :=
  let first := c.current?.getD '\x00'
  if c.peek? = some '=' then (⟨double, String.ofList [first, '=']⟩, c.advance)
  else (⟨single, String.singleton first⟩, c)

/-- The token that starts at the cursor, where no blank is, and the cursor behind
    it. -/
def readToken (c : Cursor) : Token × Cursor :=
  match c.current? with
  | none => (Token.eof, c)
  | some '=' => (c.oneOrTwo .assign .eq).map id advance
  | some '!' => (c.oneOrTwo .bang .notEq).map id advance
  | some first =>
    match Kind.ofSymbol? first with
    | some kind => (⟨kind, String.singleton first⟩, c.advance)
    | none =>
      if Token.isLetter first then c.readWord
      else if first.isDigit then c.readNumber
      else (⟨.illegal, String.singleton first⟩, c.advance)

theorem readToken_of_atEnd (h : c.atEnd = true) : c.readToken = (Token.eof, c) := by
  rw [readToken, Option.isNone_iff_eq_none.1 h]

/-- The next token, and the cursor after it. -/
def next (c : Cursor) : Token × Cursor := c.skipBlanks.readToken

/-! ### All tokens -/

/-- Skipping leaves no more moves than there were. -/
theorem movesLeft_skipWhile_le (accept : Char → Bool) (c : Cursor) :
    (c.skipWhile accept).movesLeft ≤ c.movesLeft := by
  induction c using skipWhile.induct accept with
  | case1 c h hlt ih =>
    rw [skipWhile_of_any h]
    exact Nat.le_trans ih (Nat.le_of_lt hlt)
  | case2 c h => exact Nat.le_of_eq (congrArg movesLeft (skipWhile_of_not_any h))

theorem movesLeft_skipWhile_lt (h : c.current?.any accept = true) :
    (c.skipWhile accept).movesLeft < c.movesLeft := by
  rw [skipWhile_of_any h]
  exact Nat.lt_of_le_of_lt (movesLeft_skipWhile_le accept c.advance)
    (movesLeft_advance_lt (atEnd_eq_false_of_any h))

/-- A symbol is one move or two. -/
theorem movesLeft_oneOrTwo_lt (single double : Kind) (h : c.atEnd = false) :
    (c.oneOrTwo single double).2.advance.movesLeft < c.movesLeft := by
  have hlt := movesLeft_advance_lt h
  rw [oneOrTwo]
  split
  next hp =>
    -- The cursor moves on from the `=` that it has seen.
    have hd : c.advance.atEnd = false := congrArg Option.isNone hp
    exact Nat.lt_trans (movesLeft_advance_lt hd) hlt
  next => exact hlt

/-- A token that is not the end takes one move at least. -/
theorem movesLeft_readToken_lt (h : c.atEnd = false) :
    c.readToken.2.movesLeft < c.movesLeft := by
  have hlt := movesLeft_advance_lt h
  rw [readToken]
  split
  next hc => simp [atEnd, hc] at h
  next => exact movesLeft_oneOrTwo_lt _ _ h
  next => exact movesLeft_oneOrTwo_lt _ _ h
  next first _ _ hc =>
    split
    · exact hlt
    split
    next hl => exact movesLeft_skipWhile_lt (by simp [hc, Token.isWordChar, hl])
    split
    next hd => exact movesLeft_skipWhile_lt (by simp [hc, hd])
    · exact hlt

theorem movesLeft_next_lt (h : c.next.1.kind ≠ .eof) : c.next.2.movesLeft < c.movesLeft := by
  refine Nat.lt_of_lt_of_le (movesLeft_readToken_lt ?_) (movesLeft_skipWhile_le _ c)
  rw [Bool.eq_false_iff]
  intro hend
  exact h (by rw [next, readToken_of_atEnd hend]; rfl)

/-- The tokens from the cursor on, up to the end of the text and with it. -/
def drain (c : Cursor) : List Token :=
  if h : c.next.1.kind = .eof then [c.next.1]
  else
    have := movesLeft_next_lt h
    c.next.1 :: c.next.2.drain
termination_by c.movesLeft

/-! ### Clients -/

/-- What a client may ask of a cursor. -/
inductive Command
  /-- Read a token. -/
  | next
  /-- Skip a character. -/
  | advance
  /-- Remember the cursor. -/
  | save
  /-- Go back to the cursor saved last and not yet gone back to. -/
  | restore
  deriving DecidableEq

/-- What a client is told. -/
inductive Answer
  /-- The token that was read. -/
  | token (t : Token)
  /-- The command was carried out. -/
  | done
  /-- Whether there was a saved cursor. -/
  | restored (found : Bool)
  deriving DecidableEq

/-- A cursor with the cursors that were saved, the latest first. -/
structure Session where
  /-- The cursor that commands move. -/
  cursor : Cursor
  /-- The cursors to go back to. -/
  saved : List Cursor
  deriving DecidableEq

namespace Session

/-- A session at the start of a text. -/
def ofString (source : String) : Session := ⟨Cursor.ofString source, []⟩

/-- Carries out one command. -/
def exec (s : Session) : Command → Answer × Session
  | .next =>
    let (token, cursor) := s.cursor.next
    (.token token, { s with cursor })
  | .advance => (.done, { s with cursor := s.cursor.advance })
  | .save => (.done, { s with saved := s.cursor :: s.saved })
  | .restore =>
    match s.saved with
    | [] => (.restored false, s)
    | cursor :: saved => (.restored true, ⟨cursor, saved⟩)

/-- The session after some commands. -/
def run (s : Session) (commands : List Command) : Session :=
  commands.foldl (fun s command => (s.exec command).2) s

end Session

end Cursor

end ScriptFront

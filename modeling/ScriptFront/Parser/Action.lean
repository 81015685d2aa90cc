import ScriptFront.Parser.Basic

/-!
# Actions

An action moves a parser and answers with a value, or gives up. Giving up ends
the action that it is part of, up to the next `Action.total`, but undoes
nothing: the parser stays where it then stands, and keeps its reports.

A repetition is bounded by the number of tokens ahead. As every turn of it
passes a token, the bound is never felt.
-/

namespace ScriptFront

/-- What is done with a parser to get a value. -/
def Action (α : Type) : Type := Parser → Option α × Parser

namespace Action

variable {α β : Type}

instance : Monad Action where
  pure a := fun p => (some a, p)
  bind x f := fun p =>
    match x p with
    | (some a, q) => f a q
    | (none, q) => (none, q)

theorem pure_apply (a : α) (p : Parser) : (pure a : Action α) p = (some a, p) := rfl

/-- The second action is done where the first one leaves the parser, unless that
    gave up. -/
theorem bind_apply (x : Action α) (f : α → Action β) (p : Parser) :
    (x >>= f) p = match x p with
      | (some a, q) => f a q
      | (none, q) => (none, q) := rfl

instance : LawfulMonad Action := LawfulMonad.mk' _
  (fun x => funext fun p => by
    change (match x p with
      | (some a, q) => (some a, q)
      | (none, q) => (none, q)) = x p
    rcases x p with ⟨_ | a, q⟩ <;> rfl)
  (fun _ _ => rfl)
  (fun x f g => funext fun p => by
    simp only [bind_apply]
    rcases x p with ⟨_ | a, q⟩ <;> rfl)

/-- Gives up. -/
def giveUp : Action α := fun p => (none, p)

/-- Asks the parser something. -/
def ask (f : Parser → α) : Action α := fun p => (some (f p), p)

/-- Does what cannot fail. In particular, an action that has given up answers
    with `none` here, and what follows goes on. -/
def total (f : Parser → α × Parser) : Action α := fun p =>
  let (a, q) := f p
  (some a, q)

/-- Changes the parser. -/
def update (f : Parser → Parser) : Action Unit := fun p => (some (), f p)

/-- Moves to the next token. -/
def advance : Action Unit := update Parser.advance

/-- The current token. -/
def current : Action Token := ask Parser.current

/-- Whether the token after the current one is of kind `k`. -/
def peekIs (k : Kind) : Action Bool := ask fun p => p.peek.kind == k

/-- Blames the current token and gives up. -/
def refuse (cause : Cause) : Action α := do
  update (·.blameCurrent cause)
  giveUp

/-- Moves to the next token, which has to be of kind `k`. If it is not, blames
    it and gives up where it stands. -/
def expect (k : Kind) : Action Unit := fun p =>
  if p.peek.kind = k then (some (), p.advance)
  else (none, p.blamePeek (.unexpectedToken k p.peek.kind))

/-- Does `x` one level of nesting deeper. -/
def nested (x : Action α) : Action α := fun p =>
  let (a, q) := x p.enter
  (a, q.leave)

/-- Repeats `item` after each token of kind `k`, at most `n` times. -/
def repeatedUpTo (k : Kind) (item : Action α) : Nat → Action (List α)
  | 0 => pure []
  | n + 1 => do
    if ← peekIs k then
      advance
      let x ← item
      let xs ← repeatedUpTo k item n
      pure (x :: xs)
    else
      pure []

/-- Repeats `item` after each token of kind `k`. -/
def repeated (k : Kind) (item : Action α) : Action (List α) := fun p =>
  repeatedUpTo k item p.ahead.length p

/-- A list between parentheses, with commas between its items. The parser is at
    the opening parenthesis. -/
def parenthesised (item : Action α) : Action (List α) := do
  if ← peekIs .rparen then
    advance
    pure []
  else
    let x ← item
    let xs ← repeated .comma item
    expect .rparen
    pure (x :: xs)

end Action

end ScriptFront

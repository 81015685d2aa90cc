import ScriptFront.Numeral
import ScriptFront.Parser.Action
import ScriptFront.Tree.Basic

/-!
# Forms

How each form of a dialect is read. The parser is at the first token of the
form, and afterwards at its last one.

A form knows how to read the expressions inside it only by the parameter
`expr`, which reads one at a given precedence. A value that cannot be read
leaves its statement without one, and a statement that cannot be read is left
out of its block; neither keeps what follows from being read.
-/

namespace ScriptFront

namespace Form

variable (expr : Precedence → Action Expr)

/-! ### Statements -/

/-- Passes a semicolon, if one follows. -/
def skipSemicolon (p : Parser) : Parser := if p.peek.kind = .semicolon then p.advance else p

/-- The value of a statement, with the semicolon after it. -/
def value : Action (Option Expr) := do
  let v ← .total (expr .lowest)
  .update skipSemicolon
  pure v

/-- `let name = value`. -/
def letStmt : Action Stmt := do
  let token ← .current
  .expect .ident
  let name ← .current
  .expect .assign
  .advance
  let v ← value expr
  pure (.letStmt token ⟨name, name.literal⟩ v)

/-- `return value`. -/
def returnStmt : Action Stmt := do
  let token ← .current
  .advance
  let v ← value expr
  pure (.returnStmt token v)

/-- An expression on its own. -/
def exprStmt : Action Stmt := do
  let token ← .current
  let v ← value expr
  pure (.exprStmt token v)

/-- A statement of a given form. -/
def stmtOf : StmtForm → Action Stmt
  | .letStmt => letStmt expr
  | .returnStmt => returnStmt expr
  | .exprStmt => exprStmt expr

/-- The statement at the current token. -/
def stmt : Action Stmt := fun p => stmtOf expr (p.dialect.stmtForm p.current.kind) p

/-- Statements up to a token of one of the kinds `stop` or the end of the text,
    at most `n` of them. The parser is afterwards at that token. -/
def stmtsUpTo (stop : List Kind) : Nat → Parser → List Stmt × Parser
  | 0, p => ([], p)
  | n + 1, p =>
    if p.atEnd || stop.contains p.current.kind then ([], p)
    else
      let (s, q) := stmt expr p
      let (ss, r) := stmtsUpTo stop n q.advance
      (s.toList ++ ss, r)

/-- Statements up to a token of one of the kinds `stop` or the end of the
    text. -/
def stmts (stop : List Kind) (p : Parser) : List Stmt × Parser :=
  stmtsUpTo expr stop p.ahead.length p

/-- A block, up to its closing brace. A block that is still open at the end of
    the text ends there. -/
def block (p : Parser) : Block × Parser :=
  let (ss, q) := stmts expr [.rbrace] p.advance
  (.mk p.current ss, q)

/-- A program, up to the end of the text. -/
def program (p : Parser) : Program × Parser :=
  let (ss, q) := stmts expr [] p
  (⟨ss⟩, q)

/-! ### Expressions, from their first token on -/

/-- A name. -/
def identifier : Action Expr := do
  let token ← .current
  pure (.ident ⟨token, token.literal⟩)

/-- An integer. -/
def integer : Action Expr := do
  let token ← .current
  match Numeral.value? token.literal with
  | some n => pure (.int token n)
  | none => .refuse (.badInteger token.literal)

/-- A truth value. -/
def boolean : Action Expr := do
  let token ← .current
  pure (.bool token (token.kind == .kwTrue))

/-- An operator and its operand. -/
def prefixOp : Action Expr := do
  let token ← .current
  .advance
  let operand ← expr .prefixOp
  pure (.prefixOp token token.literal operand)

/-- An expression between parentheses, which leave no trace in the tree. -/
def group : Action Expr := do
  .advance
  let e ← expr .lowest
  .expect .rparen
  pure e

/-- The second block of a choice, if there is one. -/
def alternative : Action (Option Block) := do
  if ← .peekIs .kwElse then
    .advance
    .expect .lbrace
    let b ← .total (block expr)
    pure (some b)
  else
    pure none

/-- `if (condition) { … } else { … }`, or without the second block. -/
def cond : Action Expr := do
  let token ← .current
  .expect .lparen
  .advance
  let condition ← expr .lowest
  .expect .rparen
  .expect .lbrace
  let consequence ← .total (block expr)
  let alternative ← alternative expr
  pure (.cond token condition consequence alternative)

/-- A parameter of a function. -/
def parameter : Action Ident := do
  .expect .ident
  let token ← .current
  pure ⟨token, token.literal⟩

/-- `fn(parameters) { … }`. -/
def func : Action Expr := do
  let token ← .current
  .expect .lparen
  let parameters ← .parenthesised parameter
  .expect .lbrace
  let body ← .total (block expr)
  pure (.func token parameters body)

/-- An expression of a given form. -/
def prefixOf : PrefixForm → Action Expr
  | .identifier => identifier
  | .integer => integer
  | .boolean => boolean
  | .operator => prefixOp expr
  | .group => group expr
  | .cond => cond expr
  | .func => func expr

/-! ### Expressions that go on -/

/-- An operator between `left` and the operand after it, which is read at the
    precedence `p`. -/
def infixOp (left : Expr) (p : Precedence) : Action Expr := do
  let token ← .current
  .advance
  let right ← expr p
  pure (.infixOp token token.literal left right)

/-- An argument of a call. -/
def argument : Action Expr := do
  .advance
  expr .lowest

/-- The application of `callee` to the arguments that follow. -/
def call (callee : Expr) : Action Expr := do
  let token ← .current
  let arguments ← .parenthesised (argument expr)
  pure (.call token callee arguments)

/-- An expression that goes on from `left` by a given form. -/
def infixOf (left : Expr) (p : Precedence) : InfixForm → Action Expr
  | .operator => infixOp expr left p
  | .call => call expr left

/-- Goes on from `left` as long as the next token binds more tightly than `p`,
    at most `n` times. -/
def extendUpTo (p : Precedence) : Nat → Expr → Action Expr
  | 0, left => pure left
  | n + 1, left => do
    match ← .ask (·.continuation? p) with
    | none => pure left
    | some (q, form) =>
      .advance
      let e ← infixOf expr left q form
      extendUpTo p n e

/-- Goes on from `left` as long as the next token binds more tightly than
    `p`. -/
def extend (p : Precedence) (left : Expr) : Action Expr := fun s =>
  extendUpTo expr p s.ahead.length left s

/-- The first part of an expression, before any operator that continues it. -/
def start : Action Expr := do
  let token ← .current
  match ← .ask (fun p => p.dialect.prefixForm? token.kind) with
  | none => .refuse (.noExpression token.kind)
  | some form => prefixOf expr form

/-- An expression, up to the first token that does not bind more tightly than
    `p`. -/
def expression (p : Precedence) : Action Expr := do
  let left ← start expr
  extend expr p left

end Form

end ScriptFront

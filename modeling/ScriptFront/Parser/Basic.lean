import ScriptFront.Diagnostic
import ScriptFront.Parser.Dialect
import ScriptFront.Token.Scan

/-!
# Parsers

A parser stands in the tokens of a text. It sees two of them, the current one
and the one after it (`Parser.current`, `Parser.peek`), and moves one token at a
time (`Parser.advance`); at the end of the text it stays where it is. Whatever
is wrong with the text it writes down and goes on: nothing here fails.

It also counts how deeply the expression being read is nested, up to
`maxDepth` levels, so that no text can drive it arbitrarily deep.
-/

namespace ScriptFront

/-- The greatest number of expressions that may stand in each other. -/
def maxDepth : Nat := 256

/-- A diagnostic, with where and when it was made. -/
structure Report where
  /-- What is wrong. -/
  diagnostic : Diagnostic
  /-- The place of the token that it is blamed on, among the tokens of the
      text. -/
  index : Nat
  /-- The depth of nesting at which it was found. -/
  depth : Nat
  deriving DecidableEq

/-- The state of a parser. -/
structure Parser where
  /-- The language that is read. -/
  dialect : Dialect
  /-- The tokens from the current one on. -/
  ahead : List Token
  /-- The place of the current token among the tokens of the text. -/
  index : Nat
  /-- The number of expressions around the current token. -/
  depth : Nat
  /-- What was found to be wrong, in order. -/
  reports : Array Report

namespace Parser

/-- A parser at the first of some tokens. -/
def ofTokens (ts : List Token) : Parser := ⟨.standard, ts, 0, 0, #[]⟩

/-- A parser at the first token of a text. -/
def ofString (source : String) : Parser := ofTokens (Token.tokenize source)

/-- The current token. -/
def current (p : Parser) : Token := p.ahead.headD .eof

/-- The token after the current one. -/
def peek (p : Parser) : Token := p.ahead.tail.headD .eof

/-- Whether the end of the text is the current token. -/
def atEnd (p : Parser) : Bool := p.current.kind == .eof

/-- The number of tokens that have been the current one. -/
def consumed (p : Parser) : Nat := p.index + 1

/-- The parser one token further; at the end it stays. -/
def advance (p : Parser) : Parser :=
  if p.atEnd then p else { p with ahead := p.ahead.tail, index := p.index + 1 }

/-- How tightly the current token binds what stands before it. -/
def currentPrecedence (p : Parser) : Precedence := p.dialect.precedence p.current.kind

/-- How tightly the token after it binds. -/
def peekPrecedence (p : Parser) : Precedence := p.dialect.precedence p.peek.kind

/-- The way in which the next token continues an expression that is read at the
    precedence `q`. A semicolon continues none. -/
def continuation? (p : Parser) (q : Precedence) : Option (Precedence × InfixForm) :=
  if p.peek.kind = .semicolon then none
  else (p.dialect.infixForm? p.peek.kind).filter fun f => q < f.1

/-- Writes down a report. -/
def record (p : Parser) (r : Report) : Parser := { p with reports := p.reports.push r }

/-- Blames the current token. -/
def blameCurrent (p : Parser) (cause : Cause) : Parser :=
  p.record ⟨⟨cause, p.current⟩, p.index, p.depth⟩

/-- Blames the token after the current one. -/
def blamePeek (p : Parser) (cause : Cause) : Parser :=
  p.record ⟨⟨cause, p.peek⟩, p.advance.index, p.depth⟩

/-- The levels of nesting that are left. -/
def levels (p : Parser) : Nat := maxDepth - p.depth

/-- One level deeper. -/
def enter (p : Parser) : Parser := { p with depth := p.depth + 1 }

/-- One level back. -/
def leave (p : Parser) : Parser := { p with depth := p.depth - 1 }

/-- What was found to be wrong, in order. -/
def diagnostics (p : Parser) : List Diagnostic := p.reports.toList.map Report.diagnostic

/-- The same parser, reading another language from now on. -/
def mapDialect (p : Parser) (f : Dialect → Dialect) : Parser := { p with dialect := f p.dialect }

end Parser

end ScriptFront

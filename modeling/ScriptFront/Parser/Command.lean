import ScriptFront.Parser.Read

/-!
# Commands

Everything that a client may ask of a parser, one step at a time and in any
order: to look at its two tokens, to move it, to change its dialect, and to read
a part of a program where it stands, by a form of the client's choice.
-/

namespace ScriptFront

namespace Parser

/-- What a client may ask of a parser. -/
inductive Command
  /-- Move to the next token. -/
  | advance
  /-- Is the current token of this kind? -/
  | currentIs (k : Kind)
  /-- Is the token after it of this kind? -/
  | peekIs (k : Kind)
  /-- Move to the next token if it is of this kind, blame it otherwise. -/
  | expect (k : Kind)
  /-- How tightly does the current token bind? -/
  | currentPrecedence
  /-- How tightly does the token after it bind? -/
  | peekPrecedence
  /-- Write down a diagnostic. -/
  | report (d : Diagnostic)
  /-- Go one level of nesting deeper. -/
  | enter
  /-- Come back from it. -/
  | leave
  /-- Let a kind start statements of a form. -/
  | setStmt (k : Kind) (f : StmtForm)
  /-- Let a kind start expressions of a form. -/
  | setPrefix (k : Kind) (f : PrefixForm)
  /-- Let a kind continue expressions by a form. -/
  | setInfix (k : Kind) (p : Precedence) (f : InfixForm)
  /-- Read a program. -/
  | program
  /-- Read the statement at the current token. -/
  | stmt
  /-- Read a statement of a form. -/
  | stmtOf (f : StmtForm)
  /-- Read a block. -/
  | block
  /-- Read an expression at a precedence. -/
  | expression (p : Precedence)
  /-- Read an expression of a form. -/
  | prefixOf (f : PrefixForm)
  /-- Go on from an expression by a form. -/
  | infixOf (left : Expr) (p : Precedence) (f : InfixForm)

/-- What a client is told. -/
inductive Answer
  /-- The command was carried out. -/
  | done
  /-- The command could not be carried out: there was no level to come back
      from. -/
  | notNested
  /-- Yes or no. -/
  | flag (b : Bool)
  /-- A precedence. -/
  | precedence (p : Precedence)
  /-- The program that was read. -/
  | program (p : Program)
  /-- The statement that was read, if it could be. -/
  | stmt (s : Option Stmt)
  /-- The block that was read. -/
  | block (b : Block)
  /-- The expression that was read, if it could be. -/
  | expr (e : Option Expr)

/-- Goes one level of nesting deeper if one is left, and blames the current
    token otherwise. -/
def tryEnter (p : Parser) : Bool × Parser :=
  if p.depth < maxDepth then (true, p.enter)
  else (false, p.blameCurrent (.nestingTooDeep maxDepth))

/-- Carries out one command. -/
def exec (p : Parser) : Command → Answer × Parser
  | .advance => (.done, p.advance)
  | .currentIs k => (.flag (p.current.kind == k), p)
  | .peekIs k => (.flag (p.peek.kind == k), p)
  | .expect k => (Action.expect k p).map (fun a => .flag a.isSome) id
  | .currentPrecedence => (.precedence p.currentPrecedence, p)
  | .peekPrecedence => (.precedence p.peekPrecedence, p)
  | .report d => (.done, p.record ⟨d, p.index, p.depth⟩)
  | .enter => p.tryEnter.map .flag id
  | .leave => if p.depth = 0 then (.notNested, p) else (.done, p.leave)
  | .setStmt k f => (.done, p.mapDialect (·.setStmt k f))
  | .setPrefix k f => (.done, p.mapDialect (·.setPrefix k f))
  | .setInfix k q f => (.done, p.mapDialect (·.setInfix k q f))
  | .program => p.program.map .program id
  | .stmt => (p.stmt).map .stmt id
  | .stmtOf f => (Form.stmtOf expression f p).map .stmt id
  | .block => p.block.map .block id
  | .expression q => (expression q p).map .expr id
  | .prefixOf f => (Form.prefixOf expression f p).map .expr id
  | .infixOf left q f => (Form.infixOf expression left q f p).map .expr id

/-- The parser after some commands. -/
def run (p : Parser) (commands : List Command) : Parser :=
  commands.foldl (fun p c => (p.exec c).2) p

end Parser

end ScriptFront

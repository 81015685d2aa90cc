import ScriptFront.Parser.Form

/-!
# Reading programs

The forms of a dialect, put together. Expressions stand in each other, so the
reader of expressions is what its forms read their parts with, one level of
nesting deeper; where no level is left, the current token is blamed.

`Parser.program` reads a program, `parse` a program from its text. Neither
fails: what could not be read is missing in the tree, and reported.
-/

namespace ScriptFront

/-- An expression read at the precedence `p`, in which at most `levels`
    expressions stand in each other. -/
def expressionWithin : (levels : Nat) → (p : Precedence) → Action Expr
  | 0, _ => .refuse (.nestingTooDeep maxDepth)
  | n + 1, p => .nested (Form.expression (expressionWithin n) p)

namespace Parser

/-- An expression read at the precedence `q`, with the levels of nesting that
    are left. -/
def expression (q : Precedence) : Action Expr := fun p => expressionWithin p.levels q p

/-- The statement at the current token. -/
def stmt : Action Stmt := Form.stmt expression

/-- The block whose opening brace is the current token. -/
def block (p : Parser) : Block × Parser := Form.block expression p

/-- The program from the current token on. -/
def program (p : Parser) : Program × Parser := Form.program expression p

end Parser

/-- The program that a text holds, and the parser after it, with all that was
    found to be wrong. -/
def parse (source : String) : Program × Parser := (Parser.ofString source).program

end ScriptFront

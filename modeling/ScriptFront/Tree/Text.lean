import ScriptFront.Tree.Basic

/-!
# The text of a tree

A tree is written as program text in which every operator has its own
parentheses, so that `-a * b` becomes `((-a) * b)`; grouping in the text that
the tree was read from leaves no other trace. Integers, truth values and the
words that open a function or a statement are written as their tokens are,
names and operators as the tree says.

In a block, statements stand one space apart and an expression ends with a
semicolon, so that neighbours cannot be read as one. In a program they follow
each other directly.
-/

namespace ScriptFront

/-- What separates the parameters of a function, and the arguments of a call. -/
def separator : String := ", "

/-- The text `body` between braces. -/
def braced (body : String) : String := "\x7b " ++ body ++ " \x7d"

/-- What ends a statement in a block: `let` and `return` bring their own
    semicolon, an expression gets one. -/
def Stmt.terminator : Stmt → String
  | .exprStmt _ (some _) => ";"
  | _ => ""

mutual

/-- The text of an expression. -/
def Expr.text : Expr → String
  | .ident name => name.value
  | .int token _ => token.literal
  | .bool token _ => token.literal
  | .prefixOp _ operator operand => "(" ++ operator ++ operand.text ++ ")"
  | .infixOp _ operator left right =>
    "(" ++ left.text ++ " " ++ operator ++ " " ++ right.text ++ ")"
  | .cond _ condition consequence alternative =>
    "if (" ++ condition.text ++ ") " ++ braced consequence.text ++ alternativeText alternative
  | .func token parameters body =>
    token.literal ++ "(" ++ separator.intercalate (parameters.map Ident.value) ++ ") " ++
      braced body.text
  | .call _ callee arguments =>
    callee.text ++ "(" ++ separator.intercalate (Expr.texts arguments) ++ ")"

/-- The texts of some expressions. -/
def Expr.texts : List Expr → List String
  | [] => []
  | e :: es => e.text :: Expr.texts es

/-- The text of the second block of a choice. -/
def alternativeText : Option Block → String
  | none => ""
  | some b => " else " ++ braced b.text

/-- The text of a value, empty if it is missing. -/
def valueText : Option Expr → String
  | none => ""
  | some e => e.text

/-- The text of a statement. -/
def Stmt.text : Stmt → String
  | .letStmt token name value =>
    token.literal ++ " " ++ name.value ++ " = " ++ valueText value ++ ";"
  | .returnStmt token value => token.literal ++ " " ++ valueText value ++ ";"
  | .exprStmt _ value => valueText value

/-- The texts of some statements, as they stand in a block. -/
def Stmt.texts : List Stmt → List String
  | [] => []
  | s :: ss => (s.text ++ s.terminator) :: Stmt.texts ss

/-- The text of a block, without its braces. -/
def Block.text : Block → String
  | .mk _ statements => " ".intercalate (Stmt.texts statements)

end

/-- The text of a program. -/
def Program.text (p : Program) : String := String.join (p.statements.map Stmt.text)

end ScriptFront

import ScriptFront.Token.Basic

/-!
# Trees

What a program means to its reader: statements, and the expressions in them.
Every node keeps a token, the one that it was read from; what a node says is in
its other fields, and nothing here forces the two to agree.

A statement whose value could not be read stands in the tree without one.
-/

namespace ScriptFront

/-- A name, as an expression or where one is introduced. -/
structure Ident where
  /-- The token of the name. -/
  token : Token
  /-- The name. -/
  value : String
  deriving DecidableEq, Inhabited

mutual

/-- An expression. -/
inductive Expr
  /-- A name. -/
  | ident (name : Ident)
  /-- An integer. -/
  | int (token : Token) (value : Int)
  /-- A truth value. -/
  | bool (token : Token) (value : Bool)
  /-- An operator before its operand. -/
  | prefixOp (token : Token) (operator : String) (operand : Expr)
  /-- An operator between its operands. -/
  | infixOp (token : Token) (operator : String) (left right : Expr)
  /-- A choice between two blocks, or between one and nothing. -/
  | cond (token : Token) (condition : Expr) (consequence : Block) (alternative : Option Block)
  /-- A function. -/
  | func (token : Token) (parameters : List Ident) (body : Block)
  /-- The application of a function to arguments. The token is the
      parenthesis before the arguments. -/
  | call (token : Token) (callee : Expr) (arguments : List Expr)

/-- A statement. -/
inductive Stmt
  /-- The binding of a name to a value. -/
  | letStmt (token : Token) (name : Ident) (value : Option Expr)
  /-- The end of a function, with its result. -/
  | returnStmt (token : Token) (value : Option Expr)
  /-- An expression on its own. The token is the first one of the
      expression. -/
  | exprStmt (token : Token) (value : Option Expr)

/-- Statements between braces, with the opening brace. -/
inductive Block
  | mk (token : Token) (statements : List Stmt)

end

instance : Inhabited Expr := ⟨.ident default⟩

instance : Inhabited Stmt := ⟨.exprStmt default none⟩

instance : Inhabited Block := ⟨.mk default []⟩

/-- A program. -/
structure Program where
  /-- The statements, in order. -/
  statements : List Stmt
  deriving Inhabited

/-- The token of an expression. -/
def Expr.token : Expr → Token
  | .ident name => name.token
  | .int token _ | .bool token _ | .prefixOp token _ _ | .infixOp token _ _ _ | .cond token _ _ _
  | .func token _ _ | .call token _ _ => token

/-- The token of a statement. -/
def Stmt.token : Stmt → Token
  | .letStmt token _ _ | .returnStmt token _ | .exprStmt token _ => token

/-- The value of a statement, if it has one. -/
def Stmt.value? : Stmt → Option Expr
  | .letStmt _ _ value | .returnStmt _ value | .exprStmt _ value => value

/-- The opening brace of a block. -/
def Block.token : Block → Token
  | .mk token _ => token

/-- The statements of a block. -/
def Block.statements : Block → List Stmt
  | .mk _ statements => statements

/-- How the first token of a program is written. An empty program has none. -/
def Program.literal (p : Program) : String :=
  match p.statements with
  | [] => ""
  | s :: _ => s.token.literal

end ScriptFront

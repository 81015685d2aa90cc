import ScriptFront.Precedence
import ScriptFront.Token.Basic

/-!
# Dialects

A dialect says which form is read where a token of some kind stands: at the
start of a statement, at the start of an expression, or after an expression
that may go on. The last kind of form has a precedence. `Dialect.standard` is
the language as it is; a client may change the form of any kind.
-/

namespace ScriptFront

/-- How a statement is read. -/
inductive StmtForm
  /-- `let name = value`. -/
  | letStmt
  /-- `return value`. -/
  | returnStmt
  /-- An expression on its own. -/
  | exprStmt
  deriving DecidableEq

/-- How an expression is read from its first token on. -/
inductive PrefixForm
  /-- The token is a name. -/
  | identifier
  /-- The token is an integer. -/
  | integer
  /-- The token is a truth value. -/
  | boolean
  /-- The token is an operator, its operand follows. -/
  | operator
  /-- The token opens a group. -/
  | group
  /-- `if (condition) { … } else { … }`. -/
  | cond
  /-- `fn(parameters) { … }`. -/
  | func
  deriving DecidableEq

/-- How an expression goes on. -/
inductive InfixForm
  /-- The token is an operator, its right operand follows. -/
  | operator
  /-- The token opens the arguments of a call. -/
  | call
  deriving DecidableEq

/-- The forms of a language, by the kind of the token that announces them. -/
structure Dialect where
  /-- The statements that start with a kind. Without one, an expression does. -/
  stmtForm? : Kind → Option StmtForm
  /-- The expressions that start with a kind. -/
  prefixForm? : Kind → Option PrefixForm
  /-- The ways in which a kind continues an expression, with how tightly it
      binds. -/
  infixForm? : Kind → Option (Precedence × InfixForm)

namespace Dialect

/-- The language as it is. -/
def standard : Dialect where
  stmtForm?
    | .kwLet => some .letStmt
    | .kwReturn => some .returnStmt
    | _ => none
  prefixForm?
    | .ident => some .identifier
    | .int => some .integer
    | .kwTrue | .kwFalse => some .boolean
    | .bang | .minus => some .operator
    | .lparen => some .group
    | .kwIf => some .cond
    | .kwFn => some .func
    | _ => none
  infixForm?
    | .eq | .notEq => some (.equals, .operator)
    | .lt | .gt => some (.lessGreater, .operator)
    | .plus | .minus => some (.sum, .operator)
    | .asterisk | .slash => some (.product, .operator)
    | .lparen => some (.call, .call)
    | _ => none

instance : Inhabited Dialect := ⟨standard⟩

/-- The form of the statements that start with `k`. -/
def stmtForm (d : Dialect) (k : Kind) : StmtForm := (d.stmtForm? k).getD .exprStmt

/-- How tightly a token of kind `k` binds what stands before it: a token that
    continues no expression binds as weakly as can be. -/
def precedence (d : Dialect) (k : Kind) : Precedence :=
  match d.infixForm? k with
  | some (p, _) => p
  | none => .lowest

/-- The dialect in which `k` starts statements of the form `f`. -/
def setStmt (d : Dialect) (k : Kind) (f : StmtForm) : Dialect :=
  { d with stmtForm? := fun j => if j = k then some f else d.stmtForm? j }

/-- The dialect in which `k` starts expressions of the form `f`. -/
def setPrefix (d : Dialect) (k : Kind) (f : PrefixForm) : Dialect :=
  { d with prefixForm? := fun j => if j = k then some f else d.prefixForm? j }

/-- The dialect in which `k` continues expressions by the form `f`, binding as
    tightly as `p`. -/
def setInfix (d : Dialect) (k : Kind) (p : Precedence) (f : InfixForm) : Dialect :=
  { d with infixForm? := fun j => if j = k then some (p, f) else d.infixForm? j }

end Dialect

end ScriptFront

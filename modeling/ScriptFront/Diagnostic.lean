import ScriptFront.Token.Basic

/-!
# Diagnostics

What is wrong with a program text, and where: a cause, and the token that it is
blamed on. A diagnostic has a name, a message, and sometimes a tip on how to
mend the text; `Diagnostic.explanation` shows all three on two lines.
-/

namespace ScriptFront

/-- What can be wrong with a program text. -/
inductive Cause
  /-- One kind of token had to follow, and another did. -/
  | unexpectedToken (expected actual : Kind)
  /-- No expression starts with this kind of token. -/
  | noExpression (kind : Kind)
  /-- The literal is not an integer that can be represented. -/
  | badInteger (literal : String)
  /-- An expression has more than `limit` others around it. -/
  | nestingTooDeep (limit : Nat)
  deriving DecidableEq

namespace Cause

/-- The name of a cause. -/
def name : Cause → String
  | unexpectedToken _ _ => "UnexpectedToken"
  | noExpression _ => "NoPrefixParseFn"
  | badInteger _ => "IntegerParseError"
  | nestingTooDeep _ => "NestingTooDeep"

/-- What is wrong, in words. -/
def message : Cause → String
  | unexpectedToken expected actual =>
    "expected next token to be " ++ expected.name ++ ", got " ++ actual.name ++ " instead"
  | noExpression kind => "no prefix parse function for " ++ kind.name ++ " found"
  | badInteger literal => "could not parse " ++ Text.quoted literal ++ " as integer"
  | nestingTooDeep limit => "expression nested deeper than " ++ toString limit ++ " levels"

end Cause

/-- A cause, with the token that it is blamed on. -/
structure Diagnostic where
  /-- What is wrong. -/
  cause : Cause
  /-- Where it shows. -/
  token : Token
  deriving DecidableEq

namespace Diagnostic

/-- How to mend the text. A missing `;`, `)` or `}` is more likely forgotten
    than the token in its place is wrong. -/
def tip? (d : Diagnostic) : Option String :=
  match d.cause with
  | .unexpectedToken expected _ =>
    let unexpected := "Unexpected token: `" ++ d.token.literal ++ "`, "
    match expected with
    | .semicolon | .rparen | .rbrace => some (unexpected ++ "is a closing delimiter missing?")
    | expected => some (unexpected ++ "expected " ++ expected.name)
  | .noExpression .illegal => some ("Unrecognised character `" ++ d.token.literal ++ "`")
  | .noExpression _ => none
  | .badInteger literal =>
    some ("Invalid number: `" ++ literal ++ "`, is it above the integer limit?")
  | .nestingTooDeep _ => some "Split the expression up with `let` bindings"

/-- The name and the tip on one line, the message on the next. -/
def explanation (d : Diagnostic) : String :=
  let tip := match d.tip? with
    | some tip => " (" ++ tip ++ ")"
    | none => ""
  "Error: " ++ d.cause.name ++ tip ++ "\n  | " ++ d.cause.message

end Diagnostic

end ScriptFront

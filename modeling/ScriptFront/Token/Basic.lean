import ScriptFront.Text.Quoted

/-!
# Tokens

A token is a piece of the program text with its kind. Kinds are the symbols,
the reserved words, words and numbers; a character that belongs to none of
these is a token of its own (`Kind.illegal`), and the end of the text is one
with an empty literal (`Token.eof`), so that scanning never fails.
-/

namespace ScriptFront

/-- The kinds of token. -/
inductive Kind
  | illegal | eof
  | ident | int
  | assign | plus | minus | bang | asterisk | slash
  | lt | gt | eq | notEq
  | comma | semicolon
  | lparen | rparen | lbrace | rbrace
  | kwFn | kwLet | kwTrue | kwFalse | kwIf | kwElse | kwReturn
  deriving DecidableEq, Inhabited

namespace Kind

/-- The kinds, in the order of their declaration. -/
def all : List Kind :=
  [ .illegal, .eof, .ident, .int, .assign, .plus, .minus, .bang, .asterisk, .slash, .lt, .gt, .eq,
    .notEq, .comma, .semicolon, .lparen, .rparen, .lbrace, .rbrace, .kwFn, .kwLet, .kwTrue,
    .kwFalse, .kwIf, .kwElse, .kwReturn ]

/-- The list of kinds is complete. -/
theorem mem_all (k : Kind) : k ∈ all := by cases k <;> decide

/-- The name of a kind in messages. -/
def name : Kind → String
  | illegal => "ILLEGAL"
  | eof => "EOF"
  | ident => "IDENT"
  | int => "INT"
  | assign => "ASSIGN"
  | plus => "PLUS"
  | minus => "MINUS"
  | bang => "BANG"
  | asterisk => "ASTERISK"
  | slash => "SLASH"
  | lt => "LT"
  | gt => "GT"
  | eq => "EQ"
  | notEq => "NOT_EQ"
  | comma => "COMMA"
  | semicolon => "SEMICOLON"
  | lparen => "LPAREN"
  | rparen => "RPAREN"
  | lbrace => "LBRACE"
  | rbrace => "RBRACE"
  | kwFn => "FUNCTION"
  | kwLet => "LET"
  | kwTrue => "TRUE"
  | kwFalse => "FALSE"
  | kwIf => "IF"
  | kwElse => "ELSE"
  | kwReturn => "RETURN"

/-- The reserved words, each with its kind. -/
def reserved : List (String × Kind) :=
  [ ("fn", kwFn), ("let", kwLet), ("true", kwTrue), ("false", kwFalse), ("if", kwIf),
    ("else", kwElse), ("return", kwReturn) ]

/-- The kind of a word: a reserved word has its own, any other word is an
    identifier. Case matters. -/
def ofWord (word : String) : Kind := (reserved.lookup word).getD ident

/-- The kind of a symbol of one character. -/
def ofSymbol? : Char → Option Kind
  | '=' => some assign
  | '+' => some plus
  | '-' => some minus
  | '!' => some bang
  | '*' => some asterisk
  | '/' => some slash
  | '<' => some lt
  | '>' => some gt
  | ',' => some comma
  | ';' => some semicolon
  | '(' => some lparen
  | ')' => some rparen
  | '\x7b' => some lbrace
  | '\x7d' => some rbrace
  | _ => none

end Kind

/-- A token: its kind, and the piece of the text that it is. -/
structure Token where
  /-- What the token is. -/
  kind : Kind
  /-- How it is written. -/
  literal : String
  deriving DecidableEq, Inhabited

namespace Token

/-- The end of the text. -/
def eof : Token := ⟨.eof, ""⟩

/-- How a token is shown: its kind, and its literal between quotes. -/
def display (t : Token) : String :=
  "Token \x7b kind: " ++ t.kind.name ++ ", literal: " ++ Text.quoted t.literal ++ " \x7d"

end Token

end ScriptFront

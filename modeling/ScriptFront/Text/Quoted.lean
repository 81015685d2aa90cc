import ScriptFront.Text.Unprintable

/-!
# Quoted text

A text is shown between double quotes, so that its ends can be seen and every
character in it too: a quote, a backslash and the common controls are written
with a backslash and one character, and any other unprintable character by its
code point in hexadecimal.
-/

namespace ScriptFront.Text

/-- How a character is written between quotes. -/
def quotedChar (c : Char) : List Char :=
  match c with
  | '"' => ['\\', '"']
  | '\\' => ['\\', '\\']
  | '\x00' => ['\\', '0']
  | '\t' => ['\\', 't']
  | '\n' => ['\\', 'n']
  | '\r' => ['\\', 'r']
  | c =>
    if isUnprintable c then
      ['\\', 'u', '\x7b'] ++ Nat.toDigits 16 c.toNat ++ ['\x7d']
    else [c]

/-- The text `s` between quotes. -/
def quoted (s : String) : String :=
  String.ofList ('"' :: s.toList.flatMap quotedChar ++ ['"'])

end ScriptFront.Text

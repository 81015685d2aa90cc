import ScriptFront.Text.Blank
import ScriptFront.Token.Basic

/-!
# Scanning

Reading a text as tokens, each as long as it can be. Blanks are skipped before
every token. Letters and digits are those of ASCII, and `_` is a letter:

* a letter and the letters and digits that follow it are a word;
* a digit and the digits that follow it are a number;
* `==` and `!=` are one token each if nothing stands between their characters;
* any other character is a token of its own.

`scan` reads one token and leaves the rest of the text, `tokens` reads them all.
-/

namespace ScriptFront

open Text

namespace Token

/-- Whether a word may start with `c`. -/
def isLetter (c : Char) : Bool := c.isAlpha || c == '_'

/-- Whether a word may go on with `c`. -/
def isWordChar (c : Char) : Bool := isLetter c || c.isDigit

/-- The token that starts with the character `c`, no blank, and the rest of the
    text after it. -/
def scanFrom (c : Char) (rest : List Char) : Token × List Char :=
  if isLetter c then
    let word := String.ofList (c :: rest.takeWhile isWordChar)
    (⟨Kind.ofWord word, word⟩, rest.dropWhile isWordChar)
  else if c.isDigit then
    (⟨.int, String.ofList (c :: rest.takeWhile Char.isDigit)⟩, rest.dropWhile Char.isDigit)
  else
    match c, rest with
    | '=', '=' :: rest => (⟨.eq, "=="⟩, rest)
    | '!', '=' :: rest => (⟨.notEq, "!="⟩, rest)
    | c, rest => (⟨(Kind.ofSymbol? c).getD .illegal, String.singleton c⟩, rest)

/-- The first token of a text and the rest of the text after it. At the end of
    the text this is `eof`, and nothing is left. -/
def scan (text : List Char) : Token × List Char :=
  match text.dropWhile isBlank with
  | [] => (eof, [])
  | c :: rest => scanFrom c rest

/-- A token takes nothing back of what is left. -/
theorem length_scanFrom_le (c : Char) (rest : List Char) :
    (scanFrom c rest).2.length ≤ rest.length := by
  unfold scanFrom
  split
  · exact (List.dropWhile_sublist _).length_le
  split
  · exact (List.dropWhile_sublist _).length_le
  split <;> simp

/-- The character that a token starts with is taken, and blanks before it are. -/
theorem length_scanFrom_lt {text : List Char} {c : Char} {rest : List Char}
    (h : text.dropWhile isBlank = c :: rest) : (scanFrom c rest).2.length < text.length := by
  have hr := congrArg List.length h
  have hd := (List.dropWhile_sublist (l := text) isBlank).length_le
  have hs := length_scanFrom_le c rest
  simp only [List.length_cons] at hr
  omega

/-- The tokens of a text, up to its end and with it. -/
def tokens (text : List Char) : List Token :=
  match h : text.dropWhile isBlank with
  | [] => [eof]
  | c :: rest =>
    have := length_scanFrom_lt h
    (scanFrom c rest).1 :: tokens (scanFrom c rest).2
termination_by text.length

theorem tokens_of_dropWhile_nil {text : List Char} (h : text.dropWhile isBlank = []) :
    tokens text = [eof] := by
  rw [tokens]; split <;> simp_all

/-- Where a character is left besides blanks, it starts the first token. -/
theorem tokens_of_dropWhile_cons {text : List Char} {c : Char} {rest : List Char}
    (h : text.dropWhile isBlank = c :: rest) :
    tokens text = (scanFrom c rest).1 :: tokens (scanFrom c rest).2 := by
  rw [tokens]; split <;> simp_all

/-- The tokens of a program text. -/
def tokenize (source : String) : List Token := tokens source.toList

end Token

end ScriptFront

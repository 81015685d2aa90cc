import ScriptFront.FileTree
import ScriptFront.Parser.Read
import ScriptFront.Text.Backspace
import ScriptFront.Tree.Text

/-!
# The command line

With a file, the program is read from it and shown, or what is wrong with it.
Without one, every line of the standard input is a program of its own, as it was
meant when it was typed. With `--tokens`, tokens are shown instead of programs.
-/

namespace ScriptFront.CommandLine

/-- What is shown of a text. -/
inductive Mode
  | tokens
  | trees
  deriving DecidableEq

/-- What the arguments ask for. -/
inductive Request
  /-- To show how the program is used. -/
  | usage
  /-- Nothing that can be done: there is an argument too many. -/
  | excess (arg : String)
  /-- To read a file. -/
  | file (mode : Mode) (name : String)
  /-- To answer the lines of the standard input. -/
  | lines (mode : Mode)
  deriving DecidableEq

/-- What the arguments `args` ask for, if those before them have set the mode
    and have or have not named a file. An argument that asks for help ends the
    reading of them, as does a second file. -/
def Request.ofArgsAfter (mode : Mode) (file? : Option String) : (args : List String) → Request
  | [] =>
    match file? with
    | none => .lines mode
    | some name => .file mode name
  | arg :: args =>
    if arg = "--tokens" then ofArgsAfter .tokens file? args
    else if arg = "-h" ∨ arg = "--help" then .usage
    else
      match file? with
      | none => ofArgsAfter mode (some arg) args
      | some _ => .excess arg

/-- What the arguments of the command line ask for. -/
def Request.ofArgs (args : List String) : Request := ofArgsAfter .trees none args

/-- What the program leaves behind when it ends. -/
structure Outcome where
  /-- The exit code. -/
  exit : UInt32 := 0
  /-- The standard output. -/
  stdout : String := ""
  /-- The standard error. -/
  stderr : String := ""
  deriving DecidableEq

/-- The lines `ls`, each with its end. -/
def unlines (ls : List String) : String := String.join (ls.map (· ++ "\n"))

/-- What there is to show of a text. -/
inductive View
  | tokens (ts : List Token)
  | program (p : Program)
  | faults (ds : List Diagnostic)

/-- What there is to show of a text in a mode. A program is only shown if
    nothing is wrong with it. -/
def View.ofString (source : String) : Mode → View
  | .tokens => .tokens (Token.tokenize source)
  | .trees =>
    let (p, parser) := parse source
    match parser.diagnostics with
    | [] => .program p
    | ds => .faults ds

namespace View

/-- How a line is answered. -/
def answer : View → String
  | tokens ts => unlines (ts.map Token.display)
  | program p => unlines [p.text]
  | faults ds => unlines (ds.map Diagnostic.explanation)

/-- What is shown of a file that took the time `elapsed` to read. A program has
    each of its statements on a line. -/
def outcome (elapsed : String) : View → Outcome
  | tokens ts => { stdout := unlines (ts.map Token.display ++ ["Tokenized in " ++ elapsed]) }
  | program p => { stdout := unlines (("Parsed in " ++ elapsed) :: p.statements.map Stmt.text) }
  | faults ds =>
    { exit := 1, stdout := unlines (("Parsed in " ++ elapsed) :: ds.map Diagnostic.explanation) }

end View

/-- The text that some bytes encode. -/
def decode (bytes : ByteArray) : Except ReadFailure String :=
  match String.fromUTF8? bytes with
  | some text => .ok text
  | none => .error .notText

/-- What there is to show of the bytes of a file. -/
def View.ofFile (mode : Mode) (bytes : ByteArray) : Except ReadFailure View := do
  return .ofString (← decode bytes) mode

/-- What there is to show of the bytes of a line. -/
def View.ofLine (mode : Mode) (bytes : List UInt8) : Except ReadFailure View := do
  return .ofString (Text.applyBackspaces (← decode ⟨bytes.toArray⟩)) mode

/-- The outcome for a file that took the time `elapsed` to read. -/
def fileOutcome (name elapsed : String) : Except ReadFailure View → Outcome
  | .ok view => view.outcome elapsed
  | .error failure =>
    { exit := 1, stderr := unlines ["Failed to read " ++ name ++ ": " ++ failure.message] }

/-- The lines of some bytes. The last one need not have an end. -/
def splitLines : List UInt8 → List (List UInt8)
  | [] => []
  | b :: bs =>
    if b = 10 then [] :: splitLines bs
    else
      match splitLines bs with
      | [] => [[b]]
      | l :: ls => (b :: l) :: ls

/-- The answers to lines, up to the first one that is no text, and why it is
    none. -/
def answers (mode : Mode) : List (List UInt8) → List String × Option ReadFailure
  | [] => ([], none)
  | l :: ls =>
    match View.ofLine mode l with
    | .ok view =>
      let (rest, failure?) := answers mode ls
      (view.answer :: rest, failure?)
    | .error failure => ([], some failure)

/-- The outcome for lines. -/
def linesOutcome (mode : Mode) (ls : List (List UInt8)) : Outcome :=
  let (told, failure?) := answers mode ls
  let complaint := failure?.toList.map fun failure => "Failed to read line: " ++ failure.message
  { stdout := String.join told, stderr := unlines complaint }

/-- The outcome of the usage. -/
def usage : Outcome := { stdout := unlines ["usage: monkey_front [--tokens] [FILE]"] }

/-- The outcome of an argument too many. -/
def excess (arg : String) : Outcome :=
  { exit := 2, stderr := unlines ["Incorrect arguments provided: unexpected `" ++ arg ++ "`"] }

/-- The outcome of the program for some arguments, where `read` finds the bytes
    of a file, `stdin` is the standard input, and all work takes the time
    `elapsed`. -/
def run (args : List String) (read : String → Except ReadFailure ByteArray) (stdin : ByteArray)
    (elapsed : String) : Outcome :=
  match Request.ofArgs args with
  | .usage => usage
  | .excess arg => excess arg
  | .file mode name => fileOutcome name elapsed ((read name).bind (View.ofFile mode))
  | .lines mode => linesOutcome mode (splitLines stdin.toList)

end ScriptFront.CommandLine

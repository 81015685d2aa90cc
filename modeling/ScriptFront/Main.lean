import ScriptFront.CommandLine
import ScriptFront.Elapsed

/-!
# The program

Reads the arguments, the file and the standard input, and writes what
`ScriptFront.CommandLine` makes of them.
-/

namespace ScriptFront.CommandLine

/-- The bytes of a stream, up to its end. -/
partial def readAll (stream : IO.FS.Stream) (read : ByteArray) : IO ByteArray := do
  let bytes ← stream.read 65536
  if bytes.isEmpty then return read
  readAll stream (read ++ bytes)

/-- The bytes of a file. -/
def readFile (name : String) : IO (Except ReadFailure ByteArray) := do
  try
    return .ok (← IO.FS.readBinFile name)
  catch
    | .noFileOrDirectory .. => return .error .notFound
    | .inappropriateType _ 21 _ => return .error .isDirectory
    | .inappropriateType .. => return .error .notDirectory
    | .invalidArgument (some _) .. => return .error .nameTooLong
    | .permissionDenied .. => return .error .notAllowed
    | e => return .error (.other (toString e))

end ScriptFront.CommandLine

open ScriptFront ScriptFront.CommandLine in
/-- Runs the program for the arguments of the command line. -/
def main (args : List String) : IO UInt32 := do
  let outcome ← match Request.ofArgs args with
    | .usage => pure usage
    | .excess arg => pure (excess arg)
    | .file mode name => do
      let contents ← readFile name
      let start ← IO.monoNanosNow
      let view ← IO.lazyPure fun _ => contents.bind (View.ofFile mode)
      pure (fileOutcome name (Elapsed.text ((← IO.monoNanosNow) - start)) view)
    | .lines mode => do
      pure (linesOutcome mode (splitLines (← readAll (← IO.getStdin) .empty).toList))
  (← IO.getStdout).putStr outcome.stdout
  (← IO.getStderr).putStr outcome.stderr
  return outcome.exit

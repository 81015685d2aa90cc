/-!
# File trees

Files in directories, and what is found under a path. A path is looked up from
a place in the tree, or from its root if it starts with a slash, one name after
the other; an empty name and `.` stay where they are, and `..` goes back to the
directory above, if there is one. Only in a directory can a name be looked up,
so that a slash after the name of a file is a fault.

With such a tree the program can be run on files that are on no disk.
-/

namespace ScriptFront

/-- Why a file could not be read as a text. -/
inductive ReadFailure
  /-- There is no such file. -/
  | notFound
  /-- A file stands where a directory has to. -/
  | notDirectory
  /-- A directory stands where a file has to. -/
  | isDirectory
  /-- A name, or the path, is too long. -/
  | nameTooLong
  /-- The reader may not read it. -/
  | notAllowed
  /-- The bytes are not UTF-8. -/
  | notText
  /-- Another reason. -/
  | other (reason : String)
  deriving DecidableEq

/-- The reason, in words. -/
def ReadFailure.message : ReadFailure → String
  | notFound => "No such file or directory (os error 2)"
  | notDirectory => "Not a directory (os error 20)"
  | isDirectory => "Is a directory (os error 21)"
  | nameTooLong => "File name too long (os error 36)"
  | notAllowed => "Permission denied (os error 13)"
  | notText => "stream did not contain valid UTF-8"
  | other reason => reason

/-- A file, or a directory with what is in it. -/
inductive FileTree
  | file (contents : ByteArray)
  | directory (entries : List (String × FileTree))

namespace FileTree

/-- The greatest number of bytes in a name. -/
def maxName : Nat := 255

/-- The greatest number of bytes in a path. -/
def maxPath : Nat := 4095

/-- A place in a tree. -/
structure Place where
  /-- What is there. -/
  here : FileTree
  /-- The directories around it, the nearest first. -/
  above : List FileTree

namespace Place

/-- The root of the tree that a place is in. -/
def root (p : Place) : Place := ⟨p.above.getLast?.getD p.here, []⟩

/-- The place that a name leads to. -/
def step (p : Place) (name : String) : Except ReadFailure Place :=
  match p.here with
  | .file _ => .error .notDirectory
  | .directory entries =>
    if name = "" ∨ name = "." then .ok p
    else if name = ".." then
      match p.above with
      | [] => .ok p
      | d :: ds => .ok ⟨d, ds⟩
    else if maxName < name.utf8ByteSize then .error .nameTooLong
    else
      match entries.lookup name with
      | some t => .ok ⟨t, p.here :: p.above⟩
      | none => .error .notFound

/-- The place that a path leads to. The empty path leads nowhere. -/
def find (p : Place) (path : String) : Except ReadFailure Place :=
  if path = "" then .error .notFound
  else if maxPath < path.utf8ByteSize then .error .nameTooLong
  else
    let start := if path.startsWith "/" then p.root else p
    (path.splitOn "/").foldlM step start

/-- The bytes of the file that a path leads to. -/
def read (p : Place) (path : String) : Except ReadFailure ByteArray := do
  match (← p.find path).here with
  | .file contents => .ok contents
  | .directory _ => .error .isDirectory

end Place

end FileTree

end ScriptFront

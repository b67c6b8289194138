/-
Workflow.Files.Basic — reading and writing files.

The library reads and writes files only through the operations of a class,
so that a tree of files in memory can stand in for those of a machine.

* `FileFault` — why a file cannot be used.
* `FileSystem` — the operations.
-/

namespace Workflow

/-- Why a file cannot be used. -/
inductive FileFault where
  | notFound
  | isADirectory
  | notADirectory
  | alreadyExists
  | nameTooLong
  | nulInName
  | notText
  | other (message : String)
deriving DecidableEq, Repr

/-- The wording of a fault. -/
def FileFault.message : FileFault → String
  | .notFound => "No such file or directory (os error 2)"
  | .isADirectory => "Is a directory (os error 21)"
  | .notADirectory => "Not a directory (os error 20)"
  | .alreadyExists => "File exists (os error 17)"
  | .nameTooLong => "File name too long (os error 36)"
  | .nulInName => "file name contained an unexpected NUL byte"
  | .notText => "stream did not contain valid UTF-8"
  | .other message => message

/-- What can be done with files. -/
class FileSystem (m : Type → Type) where
  /-- The text of a file. -/
  read : String → m (Except FileFault String)
  /-- Give a file a text; it need not exist. -/
  write : String → String → m (Except FileFault Unit)
  /-- Whether there is something under a path. -/
  present : String → m Bool
  /-- Make a directory, and those it is in. -/
  makeDirectory : String → m (Except FileFault Unit)
  /-- The names in a directory. -/
  names : String → m (Except FileFault (List String))
  /-- Give a file another path, in the place of a file that is there. -/
  rename : String → String → m (Except FileFault Unit)

end Workflow

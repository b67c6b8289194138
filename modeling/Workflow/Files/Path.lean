/-
Workflow.Files.Path — names of files.

A path is a text of names with slashes between them.

* `Path.join` — a path inside a directory.
* `Path.name`, `stem`, `extension?` — the last name of a path and its two
  parts.
-/

namespace Workflow.Path

/-- A path as seen from a directory. -/
def join (directory path : String) : String :=
  if path.startsWith "/" || directory.isEmpty then path
  else if directory.endsWith "/" then directory ++ path
  else directory ++ "/" ++ path

/-- What stands behind the last slash. -/
def name (path : String) : List Char :=
  (path.toList.reverse.takeWhile (· != '/')).reverse

/-- A name in two parts: what stands before its last point and what stands behind it. A name that
starts with its only point is not divided. -/
def divide? (name : List Char) : Option (List Char × List Char) :=
  let behind := (name.reverse.takeWhile (· != '.')).reverse
  let before := name.take (name.length - behind.length - 1)
  if name = ['.', '.'] || before.isEmpty || behind.length = name.length then none
  else some (before, behind)

/-- What stands behind the last point of the last name. -/
def extension? (path : String) : Option String :=
  (divide? (name path)).map fun (_, behind) => String.ofList behind

/-- The last name without its extension. -/
def stem (path : String) : String :=
  match divide? (name path) with
  | some (before, _) => String.ofList before
  | none => String.ofList (name path)

end Workflow.Path

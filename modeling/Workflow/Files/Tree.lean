/-
Workflow.Files.Tree — a tree of files in memory.

* `FileTree` — files and directories by path.
* `FileTree.locate` — the place that a path names.
* `FileTree.read`, `write`, `makeDirectory`, `names`, `rename` — its
  operations.
-/
import Workflow.Files.Basic
import Workflow.Text.Search

namespace Workflow

/-- What is in a tree under a path. -/
inductive FileTree.Entry where
  | file (text : String)
  | directory
deriving DecidableEq, Repr

/-- Files and directories by path. The directory in which the tree stands, those above it and the
root of all paths are always there. -/
structure FileTree where
  entries : List (List String × FileTree.Entry)
deriving DecidableEq, Repr

namespace FileTree

/-- Nothing. -/
def empty : FileTree := ⟨[]⟩

/-- Whether a place is always there: the directory itself, one above it, or the root. -/
def isFixed (place : List String) : Bool := place.all (· == "..") || place == ["/"]

/-- What is at a place. -/
def entry? (t : FileTree) (place : List String) : Option Entry :=
  if isFixed place then some .directory
  else (t.entries.find? fun (p, _) => p = place).map (·.2)

/-- The greatest number of bytes in a name. -/
def nameLimit : Nat := 255

/-- Why a place is no directory, if it is none. -/
def directoryFault? (t : FileTree) (place : List String) : Option FileFault :=
  match t.entry? place with
  | some .directory => none
  | some (.file _) => some .notADirectory
  | none => some .notFound

/-- The place above a place. -/
def above (place : List String) : List String :=
  if place = ["/"] then place
  else if place.all (· == "..") then place ++ [".."]
  else place.dropLast

/-- Follow names from a place on. -/
def walk (t : FileTree) (place : List String) : List String → Except FileFault (List String)
  | [] => .ok place
  | name :: rest =>
    match t.directoryFault? place with
    | some fault => .error fault
    | none =>
      if name = "" ∨ name = "." then t.walk place rest
      else if name = ".." then t.walk (above place) rest
      else if name.utf8ByteSize > nameLimit then .error .nameTooLong
      else t.walk (place ++ [name]) rest

/-- The names of a path. -/
def namesOf (path : String) : List String :=
  (Text.splitOn ['/'] path.toList).map String.ofList

/-- The place that a path names. There need not be anything at it. -/
def locate (t : FileTree) (path : String) : Except FileFault (List String) :=
  if path.isEmpty then .error .notFound
  else if path.toList.contains '\x00' then .error .nulInName
  else t.walk (if path.startsWith "/" then ["/"] else []) (namesOf path)

/-- Put something at a place. -/
def put (t : FileTree) (place : List String) (e : Entry) : FileTree :=
  if t.entries.any fun (p, _) => p = place then
    ⟨t.entries.map fun (p, old) => if p = place then (p, e) else (p, old)⟩
  else ⟨t.entries ++ [(place, e)]⟩

/-- The text of a file. -/
def read (t : FileTree) (path : String) : Except FileFault String := do
  match t.entry? (← t.locate path) with
  | some (.file text) => return text
  | some .directory => throw .isADirectory
  | none => throw .notFound

/-- Give a file a text. -/
def write (t : FileTree) (path text : String) : Except FileFault FileTree := do
  let place ← t.locate path
  match t.entry? place with
  | some .directory => throw .isADirectory
  | _ => return t.put place (.file text)

/-- Whether there is something under a path. -/
def present (t : FileTree) (path : String) : Bool :=
  match t.locate path with
  | .ok place => (t.entry? place).isSome
  | .error _ => false

/-- Make the directories that names lead through. -/
def makeAll (t : FileTree) (place : List String) : List String → Except FileFault FileTree
  | [] => .ok t
  | name :: rest =>
    if name = "" ∨ name = "." then t.makeAll place rest
    else if name = ".." then t.makeAll (above place) rest
    else if name.utf8ByteSize > nameLimit then .error .nameTooLong
    else
      let place := place ++ [name]
      match t.entry? place with
      | some .directory => t.makeAll place rest
      | some (.file _) => .error (if rest.isEmpty then .alreadyExists else .notADirectory)
      | none => (t.put place .directory).makeAll place rest

/-- Make a directory, and those it is in. -/
def makeDirectory (t : FileTree) (path : String) : Except FileFault FileTree :=
  if path.toList.contains '\x00' then .error .nulInName
  else t.makeAll (if path.startsWith "/" then ["/"] else []) (namesOf path)

/-- The names in a directory. -/
def names (t : FileTree) (path : String) : Except FileFault (List String) := do
  let place ← t.locate path
  match t.directoryFault? place with
  | some fault => throw fault
  | none =>
    return t.entries.filterMap fun (p, _) =>
      if p ≠ [] ∧ p.dropLast = place then p.getLast? else none

/-- Give a file another path, in the place of a file that is there. -/
def rename (t : FileTree) (source target : String) : Except FileFault FileTree := do
  let text ← t.read source
  let place ← t.locate source
  let t ← t.write target text
  return ⟨t.entries.filter fun (p, _) => p ≠ place⟩

/-- The tree of files with given paths and texts. -/
def ofFiles (files : List (String × String)) : FileTree :=
  files.foldl
    (fun t (path, text) =>
      let t := ((t.makeAll [] (namesOf path).dropLast).toOption).getD t
      ((t.write path text).toOption).getD t)
    empty

/-- The result of a change, and the tree after it. -/
def change (f : FileTree → Except FileFault FileTree) : StateM FileTree (Except FileFault Unit) :=
  fun t =>
    match f t with
    | .ok t => (.ok (), t)
    | .error fault => (.error fault, t)

instance : FileSystem (StateM FileTree) where
  read path := fun t => (t.read path, t)
  write path text := change fun t => t.write path text
  present path := fun t => (t.present path, t)
  makeDirectory path := change fun t => t.makeDirectory path
  names path := fun t => (t.names path, t)
  rename source target := change fun t => t.rename source target

end FileTree

end Workflow

/-
Workflow.Store.Files — snapshots of runs, kept in files.

A store has a directory with one file for each run, named by the id of the
run. A snapshot is written to a file of its own first and then takes the
place of the last one, so that no reader sees half of it.

* `FileStore.save`, `load`, `list` — its operations.
-/
import Workflow.Files.Path
import Workflow.Run.Snapshot
import Workflow.Store.Error
import Workflow.Text.Order

namespace Workflow

/-- A directory with the last snapshot of each run. -/
structure FileStore where
  directory : String
deriving DecidableEq, Repr

namespace FileStore

/-- The file of a run. -/
def pathOf (s : FileStore) (runId : String) : String :=
  Path.join s.directory (runId ++ ".json")

/-- The file that a snapshot is written to before it takes the place of the last one. -/
def draftOf (path : String) : String :=
  path ++ (if (Path.extension? path).isSome then ".tmp" else ".json.tmp")

variable {m : Type → Type} [Monad m] [FileSystem m]

/-- Keep a snapshot in the place of earlier ones of the same run. -/
def save (s : FileStore) (snapshot : Snapshot) : m (Except StoreError Unit) := do
  let path := s.pathOf snapshot.runId
  let draft := draftOf path
  match ← FileSystem.makeDirectory s.directory with
  | .error fault => return .error (.file fault)
  | .ok () =>
    match ← FileSystem.write draft snapshot.encode.pretty with
    | .error fault => return .error (.file fault)
    | .ok () =>
      match ← FileSystem.rename draft path with
      | .error fault => return .error (.file fault)
      | .ok () => return .ok ()

/-- The last snapshot of a run. -/
def load (s : FileStore) (runId : String) : m (Except StoreError (Option Snapshot)) := do
  match ← FileSystem.read (s.pathOf runId) with
  | .error .notFound => return .ok none
  | .error fault => return .error (.file fault)
  | .ok text =>
    match Snapshot.read? text with
    | some snapshot => return .ok (some snapshot)
    | none => return .error .unreadable

/-- The ids of all runs, sorted. -/
def list (s : FileStore) : m (Except StoreError (List String)) := do
  match ← FileSystem.names s.directory with
  | .error .notFound => return .ok []
  | .error fault => return .error (.file fault)
  | .ok names =>
    let files := names.filter fun n => Path.extension? n = some "json"
    return .ok (Text.sorted (files.map Path.stem))

end FileStore

end Workflow

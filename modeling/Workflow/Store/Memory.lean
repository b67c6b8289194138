/-
Workflow.Store.Memory — snapshots of runs, kept in memory.

A store keeps the last snapshot of each run.

* `MemoryStore.save`, `load`, `list` — its operations.
-/
import Workflow.Run.Snapshot
import Workflow.Text.Order

namespace Workflow

/-- The last snapshot of each run, by run id. -/
structure MemoryStore where
  snapshots : Dict Snapshot
deriving DecidableEq, Repr

namespace MemoryStore

/-- No snapshots. -/
def empty : MemoryStore := ⟨[]⟩

/-- Keep a snapshot in the place of earlier ones of the same run. -/
def save (s : MemoryStore) (snapshot : Snapshot) : MemoryStore :=
  ⟨Dict.insert s.snapshots snapshot.runId snapshot⟩

/-- The last snapshot of a run. -/
def load (s : MemoryStore) (runId : String) : Option Snapshot := Dict.find? s.snapshots runId

/-- The ids of all runs, sorted. -/
def list (s : MemoryStore) : List String := Text.sorted (Dict.keys s.snapshots)

end MemoryStore

end Workflow

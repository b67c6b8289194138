/-
Workflow.Store.Error — why a store refuses.

* `StoreError` — the errors; `StoreError.message` is their wording.
-/
import Workflow.Files.Basic

namespace Workflow

/-- Why a store refuses: it is down, a file cannot be used, or a file holds no snapshot. -/
inductive StoreError where
  | down
  | file (fault : FileFault)
  | unreadable
deriving DecidableEq, Repr

/-- The wording of an error. -/
def StoreError.message : StoreError → String
  | .down => "Store IO error: store is down"
  | .file fault => "Store IO error: " ++ fault.message
  | .unreadable => "Snapshot serialization error"

end Workflow

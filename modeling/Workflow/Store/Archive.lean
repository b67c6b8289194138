/-
Workflow.Store.Archive — a store that may be out of order.

* `Archive.save?`, `load`, `list` — the operations of the store, as far as
  they work.
-/
import Workflow.Store.Error
import Workflow.Store.Memory

namespace Workflow

/-- What is out of order in a store. -/
inductive Breakage where
  | savesFail
  | savesPanic
  | loadsFail
  | listsFail
deriving DecidableEq, Repr

/-- A store that may be out of order. -/
structure Archive where
  store : MemoryStore
  breakage : Option Breakage
deriving DecidableEq, Repr

namespace Archive

/-- Save a snapshot, or fail to; nothing if it panics. -/
def save? (a : Archive) (s : Snapshot) : Option Archive :=
  match a.breakage with
  | some .savesPanic => none
  | some .savesFail => some a
  | _ => some { a with store := a.store.save s }

/-- The last snapshot of a run. -/
def load (a : Archive) (runId : String) : Except StoreError (Option Snapshot) :=
  if a.breakage = some .loadsFail then .error .down else .ok (a.store.load runId)

/-- The ids of all runs, sorted. -/
def list (a : Archive) : Except StoreError (List String) :=
  if a.breakage = some .listsFail then .error .down else .ok a.store.list

end Archive

end Workflow

/-
Workflow.Run.Status — where steps and runs stand.

* `StepStatus` — where a step stands; three of the statuses are final.
* `RunStatus` — where a run stands; three of the statuses are final.
-/

namespace Workflow

/-- Where a step stands. -/
inductive StepStatus where
  | pending
  | ready
  | running
  | completed
  | failed
  | skipped
deriving DecidableEq, Repr

namespace StepStatus

/-- All statuses. -/
def all : List StepStatus := [.pending, .ready, .running, .completed, .failed, .skipped]

/-- The name of a status. -/
def name : StepStatus → String
  | .pending => "Pending"
  | .ready => "Ready"
  | .running => "Running"
  | .completed => "Completed"
  | .failed => "Failed"
  | .skipped => "Skipped"

/-- The status with a name. -/
def ofName? (s : String) : Option StepStatus := all.find? fun st => st.name = s

/-- Whether a step is through. -/
def isFinal : StepStatus → Bool
  | .completed | .failed | .skipped => true
  | _ => false

/-- Whether a step is through and nothing more is to be done about it. -/
def isSettled : StepStatus → Bool
  | .completed | .skipped => true
  | _ => false

end StepStatus

/-- Where a run stands. -/
inductive RunStatus where
  | running
  | completed
  | failed
  | paused
  | stopped
deriving DecidableEq, Repr

namespace RunStatus

/-- All statuses. -/
def all : List RunStatus := [.running, .completed, .failed, .paused, .stopped]

/-- The name of a status. -/
def name : RunStatus → String
  | .running => "Running"
  | .completed => "Completed"
  | .failed => "Failed"
  | .paused => "Paused"
  | .stopped => "Stopped"

/-- The status with a name. -/
def ofName? (s : String) : Option RunStatus := all.find? fun st => st.name = s

/-- Whether a run is over. -/
def isFinal : RunStatus → Bool
  | .completed | .failed | .stopped => true
  | _ => false

end RunStatus

end Workflow

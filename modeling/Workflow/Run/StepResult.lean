/-
Workflow.Run.StepResult — what has become of a step in a run.

* `Iteration` — what one round of a loop gave.
* `StepResult` — status, output, error and times of a step.
* `StepResult.start`, `complete`, `fail`, `skip`, `reset` — its changes.
-/
import Workflow.Json.Value
import Workflow.Run.Status
import Workflow.Run.StepError
import Workflow.Time.Calendar
import Workflow.Time.Duration

namespace Workflow

/-- What one round of a loop gave: the outputs of the steps in its body. -/
structure Iteration where
  index : Nat
  item : Json
  outputs : Dict Json
deriving DecidableEq, Repr

/-- The time from one instant to another, if it does not run backwards. -/
def Duration.between? (start stop : Instant) : Option Duration :=
  let n := stop.totalNanos - start.totalNanos
  if 0 ≤ n then some ⟨n.toNat⟩ else none

/-- What has become of a step in a run. -/
structure StepResult where
  stepId : String
  status : StepStatus
  output : Option Json
  error : Option StepError
  /-- The number of the latest attempt, from one. -/
  attempt : Nat
  retryDelays : List Duration
  startedAt : Option Instant
  completedAt : Option Instant
  iterations : List Iteration
  /-- The error handler that took care of the step. -/
  recoveredBy : Option String
deriving DecidableEq, Repr

namespace StepResult

/-- A step that has not started. -/
def initial (stepId : String) : StepResult :=
  ⟨stepId, .pending, none, none, 0, [], none, none, [], none⟩

/-- A new attempt starts; the time of the first one stays. -/
def start (r : StepResult) (now : Instant) : StepResult :=
  { r with
    status := .running
    attempt := r.attempt + 1
    startedAt := r.startedAt <|> some now }

/-- The step gives an output. -/
def complete (r : StepResult) (now : Instant) (output : Json) : StepResult :=
  { r with status := .completed, output := some output, error := none, completedAt := some now }

/-- The step fails for good. -/
def fail (r : StepResult) (now : Instant) (error : StepError) : StepResult :=
  { r with status := .failed, error := some error, completedAt := some now }

/-- The step is passed over. -/
def skip (r : StepResult) (now : Instant) : StepResult :=
  { r with status := .skipped, completedAt := some now }

/-- The step is as if it had never started. -/
def reset (r : StepResult) : StepResult := initial r.stepId

/-- The time from start to end. -/
def duration? (r : StepResult) : Option Duration :=
  r.startedAt.bind fun start => r.completedAt.bind (Duration.between? start)

end StepResult

end Workflow

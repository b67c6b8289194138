/-
Workflow.Run.State — the memory of a run.

A run remembers, for each step, its result and whether its id is listed
among the completed and the failed steps. The outputs of completed steps
are also variables.

* `RunState` — the memory of a run over a graph.
* `RunState.start`, `complete`, `fail`, `skip`, `reset` — changes of a step.
* `RunState.snapshot` — the run at one point in time.
-/
import Workflow.Graph.Basic
import Workflow.Graph.PerStep
import Workflow.Run.Snapshot

namespace Workflow

/-- The memory of a run over a graph. -/
structure RunState (g : Graph) where
  runId : String
  workflowId : String
  workflowName : String
  input : Json
  vars : Dict Json
  status : RunStatus
  error : Option RunFailure
  startedAt : Instant
  completedAt : Option Instant
  results : PerStep g.size StepResult
  /-- Which steps are listed as completed. -/
  completed : PerStep g.size Bool
  /-- Which steps are listed as failed. -/
  failed : PerStep g.size Bool

namespace RunState

variable {g : Graph}

/-- A run before its first step. -/
def initial (g : Graph) (runId workflowId workflowName : String) (input : Json)
    (vars : Dict Json) (now : Instant) : RunState g :=
  { runId, workflowId, workflowName, input, vars
    status := .running
    error := none
    startedAt := now
    completedAt := none
    results := PerStep.tabulate fun i => StepResult.initial (g.idOf i)
    completed := PerStep.fill _ false
    failed := PerStep.fill _ false }

/-- The result of a step. -/
def result (s : RunState g) (i : g.Index) : StepResult := s.results.get i

/-- The status of a step. -/
def statusOf (s : RunState g) (i : g.Index) : StepStatus := (s.result i).status

/-- Change the result of a step. -/
def mapResult (s : RunState g) (i : g.Index) (f : StepResult → StepResult) : RunState g :=
  { s with results := s.results.update i f }

/-- Set the status of a step and nothing else. -/
def setStatus (s : RunState g) (i : g.Index) (status : StepStatus) : RunState g :=
  s.mapResult i fun r => { r with status }

/-- A new attempt of a step starts. -/
def start (s : RunState g) (now : Instant) (i : g.Index) : RunState g :=
  s.mapResult i fun r => r.start now

/-- A step gives an output, which becomes the variable with the id of the step. -/
def complete (s : RunState g) (now : Instant) (i : g.Index) (output : Json) : RunState g :=
  { s.mapResult i fun r => r.complete now output with
    vars := Dict.insert s.vars (g.idOf i) output
    completed := s.completed.update i fun _ => true
    failed := s.failed.update i fun _ => false }

/-- A step fails for good. -/
def fail (s : RunState g) (now : Instant) (i : g.Index) (error : StepError) : RunState g :=
  { s.mapResult i fun r => r.fail now error with failed := s.failed.update i fun _ => true }

/-- A step is passed over. -/
def skip (s : RunState g) (now : Instant) (i : g.Index) : RunState g :=
  { s.mapResult i fun r => r.skip now with failed := s.failed.update i fun _ => false }

/-- A step is no longer listed as failed. -/
def clearFailed (s : RunState g) (i : g.Index) : RunState g :=
  { s with failed := s.failed.update i fun _ => false }

/-- A step is as if it had never started. -/
def reset (s : RunState g) (i : g.Index) : RunState g :=
  { s.mapResult i StepResult.reset with
    vars := Dict.remove s.vars (g.idOf i)
    completed := s.completed.update i fun _ => false
    failed := s.failed.update i fun _ => false }

/-- The outputs of completed steps, by id. -/
def outputs (s : RunState g) : Dict Json :=
  g.indices.filterMap fun i =>
    let r := s.result i
    if r.status = .completed then r.output.map (g.idOf i, ·) else none

/-- Whether a step is listed as completed. -/
def isCompleted (s : RunState g) (i : g.Index) : Bool := s.completed.get i

/-- Whether the run is over. -/
def isFinal (s : RunState g) : Bool := s.status.isFinal

/-- Give the run a status; a final one ends it. -/
def finish (s : RunState g) (now : Instant) (status : RunStatus) : RunState g :=
  { s with status, completedAt := if status.isFinal then some now else s.completedAt }

/-- The run fails, at one step or as a whole. -/
def failRun (s : RunState g) (now : Instant) (stepId : Option String) (message : String) :
    RunState g :=
  { s with error := some ⟨stepId, message⟩ }.finish now .failed

/-- The ids of the steps that are marked, sorted. -/
def markedIds (marks : PerStep g.size Bool) : List String :=
  Text.sorted ((g.indices.filter fun i => marks.get i).map g.idOf)

/-- The run at one point in time. -/
def snapshot (s : RunState g) (now : Instant) : Snapshot :=
  { runId := s.runId
    workflowId := s.workflowId
    workflowName := s.workflowName
    status := s.status
    input := s.input
    vars := s.vars
    stepResults := g.indices.map fun i => (g.idOf i, s.result i)
    completed := markedIds s.completed
    failed := markedIds s.failed
    error := s.error
    startedAt := s.startedAt
    completedAt := s.completedAt
    updatedAt := now }

end RunState

end Workflow

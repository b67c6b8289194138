/-
Workflow.Engine.Service — runs by id.

A service begins runs, sends them commands and tells how they stand. A run
that has ended and whose last snapshot is safe in the archive is known only
to the archive.

* `EngineSettings`, `Service` — a service.
* `ServiceError` — why it refuses.
* `Service.submit`, `send`, `state`, `wait`, `execute`, `list`, `shutdown`
  — its operations.
-/
import Workflow.Definition.Basic
import Workflow.Engine.World
import Workflow.Graph.Compile

namespace Workflow

/-- Settings for all runs of a service; a workflow may bring its own. -/
structure EngineSettings where
  maxConcurrentSteps : Nat
  stepTimeout : Option Duration
  /-- Steps that nothing leads to are allowed. -/
  allowOrphans : Bool
deriving DecidableEq, Repr

namespace EngineSettings

/-- The greatest number of concurrent steps, unless set. -/
def defaultConcurrency : Nat := 8

/-- The settings unless set. -/
def standard : EngineSettings := ⟨defaultConcurrency, none, false⟩

/-- The settings for the runs of a workflow. -/
def forWorkflow (s : EngineSettings) (d : Definition) : EngineSettings :=
  match d.settings with
  | none => s
  | some own =>
    { s with
      maxConcurrentSteps := own.maxConcurrentSteps.getD s.maxConcurrentSteps
      stepTimeout := own.stepTimeout <|> s.stepTimeout }

end EngineSettings

/-- Why a service refuses. -/
inductive ServiceError where
  | compile (error : CompileError)
  /-- There cannot be so many permits. -/
  | limitTooHigh (limit : Nat)
  | runNotFound (runId : String)
  | runFinished (runId : String) (status : RunStatus)
  | schedulerLost (runId : String) (status : RunStatus)
  | store (error : StoreError)
deriving DecidableEq, Repr

/-- The wording of an error. -/
def ServiceError.message : ServiceError → String
  | .compile e => "Workflow compilation failed: " ++ e.message
  | .limitTooHigh limit => "Too many concurrent steps: " ++ toString limit
  | .runNotFound id => "Run not found: " ++ id
  | .runFinished id status => "Run " ++ id ++ " already finished with status " ++ status.name
  | .schedulerLost id status =>
    "Scheduler of run " ++ id ++ " stopped while the run was " ++ status.name
  | .store e => "Execution store error: " ++ e.message

/-- Runs by id. -/
structure Service where
  world : World
  settings : EngineSettings

namespace Service

/-- Begin a run of a workflow under an id that no other run has. -/
def submit (s : Service) (runId : String) (d : Definition) (input : Json) :
    Except ServiceError Service :=
  match Graph.compile s.settings.allowOrphans d.steps with
  | .error e => .error (.compile e)
  | .ok g =>
    let settings := s.settings.forWorkflow d
    if !World.admits settings.maxConcurrentSteps then
      .error (.limitTooHigh settings.maxConcurrentSteps)
    else
      let state :=
        RunState.initial g runId d.workflowId d.name input d.vars s.world.instant
      .ok { s with
        world := s.world.submit g (Scheduler.initial state settings.stepTimeout)
          settings.maxConcurrentSteps }

/-- The runs that are known without the archive, by number. -/
def knownRuns (s : Service) : List (Process × Nat) :=
  s.world.processes.zipIdx.filter fun (p, _) => p.known

/-- A run that is known without the archive, and its number. -/
def find? (s : Service) (runId : String) : Option (Process × Nat) :=
  s.knownRuns.find? fun (p, _) => p.runId = runId

/-- How a run stands, by the archive. -/
def archived (s : Service) (runId : String) : Except ServiceError Snapshot :=
  match s.world.archive with
  | none => .error (.runNotFound runId)
  | some a =>
    match a.load runId with
    | .error e => .error (.store e)
    | .ok none => .error (.runNotFound runId)
    | .ok (some snapshot) => .ok snapshot

/-- How a run stands. -/
def state (s : Service) (runId : String) : Except ServiceError Snapshot :=
  match s.find? runId with
  | some (p, _) => .ok p.published
  | none => s.archived runId

/-- Why a run that only the archive may know takes no commands. -/
def refusal (s : Service) (runId : String) : ServiceError :=
  match s.archived runId with
  | .error e => e
  | .ok snapshot =>
    if snapshot.status.isFinal then .runFinished runId snapshot.status else .runNotFound runId

/-- Send a command to a run. -/
def send (s : Service) (runId : String) (c : Command) : Except ServiceError Service :=
  match s.find? runId with
  | none => .error (s.refusal runId)
  | some (p, run) =>
    if p.published.status.isFinal then .error (.runFinished runId p.published.status)
    else
      let (world, sent) := s.world.command run c
      if sent then .ok { s with world } else .error (.runFinished runId p.published.status)

/-- Let everything go on that can without the clock. -/
def settle (s : Service) : Service := { s with world := s.world.settle }

/-- Whether readers see the end of a run, or its scheduler has come to its end. -/
def isDone (run : Nat) (w : World) : Bool :=
  w.processes[run]?.all fun p => p.published.status.isFinal || !p.phase.isActive

/-- What those learn who have waited for a run. -/
def waited (p : Process) : Except ServiceError Snapshot :=
  if p.published.status.isFinal then .ok p.published
  else .error (.schedulerLost p.runId p.published.status)

/-- Wait for the end of a run, so many milliseconds at most; nothing if the time is up first. -/
def wait (s : Service) (runId : String) (patience : Nat) :
    Service × Option (Except ServiceError Snapshot) :=
  match s.find? runId with
  | none => (s, some (s.state runId))
  | some (_, run) =>
    let s := { s with world := s.world.runUntil (isDone run) (s.world.now + patience) }
    if isDone run s.world then (s, s.world.processes[run]?.map waited) else (s, none)

/-- Begin a run and wait for its end. -/
def execute (s : Service) (runId : String) (d : Definition) (input : Json) (patience : Nat) :
    Service × Option (Except ServiceError Snapshot) :=
  match s.submit runId d input with
  | .error e => (s, some (.error e))
  | .ok s => s.wait runId patience

/-- The ids of all runs, sorted. -/
def list (s : Service) : Except ServiceError (List String) :=
  let known := s.knownRuns.map fun (p, _) => p.runId
  match s.world.archive with
  | none => .ok (Text.sorted known)
  | some a =>
    match a.list with
    | .error e => .error (.store e)
    | .ok stored => .ok (Text.sorted (known ++ stored.filter fun id => !known.contains id))

/-- Stop all runs that are not over, and tell how each one ended. -/
def shutdown (s : Service) : Service × List Snapshot :=
  let runs := s.knownRuns
  let world := runs.foldl
    (fun w (p, run) => if p.published.status.isFinal then w else (w.command run .stop).1) s.world
  let s := settle { s with world }
  (s, runs.filterMap fun (_, run) => (s.world.processes[run]?.map waited).bind Except.toOption)

end Service

end Workflow

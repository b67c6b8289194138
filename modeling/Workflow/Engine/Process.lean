/-
Workflow.Engine.Process — a run in progress.

Beside its scheduler a run has the workers that make its calls. A worker
first needs one of a fixed number of permits, which are handed out in the
order of asking; it keeps the permit until its call has come to an end. The
scheduler learns of everything through its inbox.

* `Stage`, `Worker` — how far a call is.
* `Process` — a run in progress.
* `Process.acquire`, `release` — permits.
-/
import Workflow.Engine.Script
import Workflow.Run.Scheduler.Turn

namespace Workflow

/-- A call that has been made and not yet come to an end. -/
structure OpenCall where
  /-- Whether a gate is still to be passed. -/
  gated : Bool
  ending : Ending
  /-- When the time limit is reached. -/
  deadline : Option Nat
deriving DecidableEq, Repr

/-- How far the call of a worker is. -/
inductive Stage where
  /-- The worker has not asked for a permit. -/
  | fresh
  /-- It waits for a permit. -/
  | inLine
  /-- It has a permit and has not made the call. -/
  | admitted
  | asleep (wake : Nat) (call : OpenCall)
  | atGate (call : OpenCall)
  /-- It may pass the gate. -/
  | passing (call : OpenCall)
deriving DecidableEq, Repr

namespace Stage

/-- The call, once it has been made. -/
def call? : Stage → Option OpenCall
  | .asleep _ c | .atGate c | .passing c => some c
  | _ => none

/-- When something is to happen by itself: the end of a sleep or of the time limit. -/
def alarms : Stage → List Nat
  | .asleep wake c => wake :: c.deadline.toList
  | .atGate c => c.deadline.toList
  | _ => []

end Stage

/-- A worker makes one call. -/
structure Worker (g : Graph) where
  step : g.Index
  token : Nat
  invocation : Invocation
  limit : Option Duration
  stage : Stage
deriving DecidableEq, Repr

/-- What the scheduler finds in its inbox. -/
inductive Message (g : Graph) where
  | command (c : Command)
  | event (e : Event g)

/-- Where the scheduler of a run stands. -/
inductive Phase where
  | fresh
  | live
  | ended
  /-- It ended before the run did. -/
  | lost
deriving DecidableEq, Repr

/-- Whether the scheduler still reads its inbox. -/
def Phase.isActive : Phase → Bool
  | .fresh | .live => true
  | _ => false

/-- A run in progress. -/
structure Process where
  graph : Graph
  scheduler : Scheduler graph
  phase : Phase
  inbox : List (Message graph)
  workers : List (Worker graph)
  /-- The permits that nobody has. -/
  free : Nat
  /-- The tokens of the workers that wait for a permit, in the order of asking. -/
  line : List Nat
  /-- The retries to come and when each is due. -/
  retries : List (graph.Index × Nat)
  /-- The snapshot that readers see. -/
  published : Snapshot
  /-- Whether the run is known by its id without the help of a store. -/
  known : Bool

namespace Process

/-- The number of permits for a limit on concurrent steps. -/
def permits (limit : Nat) : Nat := max 1 limit

/-- Numbers of permits stay below this bound. -/
def permitBound : Nat := Nat.pow 2 61

/-- A run that has not begun. -/
def initial (g : Graph) (scheduler : Scheduler g) (limit : Nat) : Process :=
  { graph := g
    scheduler
    phase := .fresh
    inbox := []
    workers := []
    free := permits limit
    line := []
    retries := []
    published := scheduler.state.snapshot scheduler.now
    known := true }

/-- The id of the run. -/
def runId (p : Process) : String := p.scheduler.state.runId

/-- The worker with a token. -/
def worker? (p : Process) (token : Nat) : Option (Worker p.graph) :=
  p.workers.find? fun w => w.token = token

/-- Set how far a worker is. -/
def setStage (p : Process) (token : Nat) (stage : Stage) : Process :=
  { p with workers := p.workers.map fun w => if w.token = token then { w with stage } else w }

/-- Take a worker off the list. -/
def dropWorker (p : Process) (token : Nat) : Process :=
  { p with workers := p.workers.filter fun w => w.token ≠ token }

/-- Put something into the inbox, if it is still read. -/
def send (p : Process) (m : Message p.graph) : Process :=
  if p.phase.isActive then { p with inbox := p.inbox ++ [m] } else p

/-- A worker that waits at a gate may pass it. -/
def letPass (p : Process) (token : Nat) : Process :=
  match (p.worker? token).bind (·.stage.call?) with
  | some c => p.setStage token (.passing c)
  | none => p

/-- A worker asks for a permit and gets one, or takes its place in the line. -/
def acquire (p : Process) (token : Nat) : Process :=
  if 0 < p.free then { p with free := p.free - 1 }.setStage token .admitted
  else { p with line := p.line ++ [token] }.setStage token .inLine

/-- A permit is given back and goes to the first in the line; also that worker's token. -/
def release (p : Process) : Process × Option Nat :=
  match p.line with
  | [] => ({ p with free := p.free + 1 }, none)
  | token :: rest => ({ p with line := rest }.setStage token .admitted, some token)

/-- The call of a worker comes to an end: the worker is gone, and the scheduler is told. -/
def endCall (p : Process) (token : Nat) (outcome : Outcome) : Process :=
  match p.worker? token with
  | none => p
  | some w => (p.dropWorker token).send (.event (.finished w.step token outcome))

/-- The number of calls that have been made and not come to an end. -/
def openCalls (p : Process) : Nat := p.workers.countP fun w => w.stage.call?.isSome

/-! ## What the scheduler asks for -/

/-- What can go on in a run. -/
inductive Job where
  | scheduler
  | worker (token : Nat)
  | retry (step : Nat)
deriving DecidableEq, Repr

/-- The workers for the calls among some requests. -/
def newWorkers {g : Graph} (requests : List (Request g)) : List (Worker g) :=
  requests.filterMap fun
    | .call i token invocation limit => some ⟨i, token, invocation, limit, .fresh⟩
    | .wake .. => none

/-- The retries among some requests, with the time at which each is due. -/
def newRetries {g : Graph} (now : Nat) (requests : List (Request g)) : List (g.Index × Nat) :=
  requests.filterMap fun
    | .wake i delay => some (i, now + delay.millisUp)
    | .call .. => none

/-- What can go on at once because of some requests. -/
def newJobs {g : Graph} (requests : List (Request g)) : List Job :=
  requests.filterMap fun
    | .call _ token _ _ => some (.worker token)
    | .wake i delay => if delay.millisUp = 0 then some (.retry i.val) else none

/-- Do what the scheduler has asked for: a worker for each call, and a time for each retry. -/
def grant (p : Process) (now : Nat) : Process × List Job :=
  let requests := p.scheduler.requests
  ({ p with
      scheduler := { p.scheduler with requests := [] }
      workers := p.workers ++ newWorkers requests
      retries := p.retries ++ newRetries now requests }, newJobs requests)

/-! ## What the scheduler is told -/

/-- Take a message and go on as far as possible. -/
def handle {g : Graph} (s : Scheduler g) (m : Message g) : Scheduler g :=
  match m with
  | .command c => (s.obey c).advance
  | .event e => (s.note e).advance

/-- The scheduler begins the run. -/
def launch (p : Process) (now : Instant) : Process :=
  { p with phase := .live, scheduler := { p.scheduler with now }.launch }

/-- The scheduler takes the first message out of its inbox. -/
def readMessage (p : Process) (now : Instant) : Process :=
  match p.inbox with
  | [] => p
  | m :: rest => { p with inbox := rest, scheduler := handle { p.scheduler with now } m }

/-- The scheduler ends the run if nothing is left to do. -/
def conclude (p : Process) (now : Instant) : Process :=
  { p with scheduler := { p.scheduler with now }.conclude }

/-- Whether the run is over. -/
def isFinal (p : Process) : Bool := p.scheduler.state.isFinal

/-- The run as it stands. -/
def snapshot (p : Process) (now : Instant) : Snapshot := p.scheduler.state.snapshot now

/-- Take the first retry of a step that is due and tell the scheduler. -/
def deliverRetry (p : Process) (step now : Nat) : Process :=
  match p.retries.find? fun (i, due) => i.val = step ∧ due ≤ now with
  | none => p
  | some (i, due) =>
    { p with retries := p.retries.erase (i, due) }.send (.event (.retryDue i))

/-! ## Alarms -/

/-- When something is to happen by itself. -/
def alarms (p : Process) : List Nat :=
  p.workers.flatMap (·.stage.alarms) ++ p.retries.map (·.2)

/-- What can go on because its time has come. -/
def dueJobs (p : Process) (now : Nat) : List Job :=
  (p.workers.filter fun w => w.stage.alarms.any (· ≤ now)).map (fun w => .worker w.token) ++
    (p.retries.filter fun (_, due) => due ≤ now).map fun (i, _) => .retry i.val

end Process

end Workflow

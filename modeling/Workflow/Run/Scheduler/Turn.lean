/-
Workflow.Run.Scheduler.Turn — the turns of a scheduler.

After everything it is told, a scheduler goes on as far as it can: it
settles what is decided and starts all ready steps, until nothing is ready.
A pause keeps it from starting steps. The run is completed when all steps
are through.

* `Scheduler.advance` — go on as far as possible.
* `Scheduler.launch`, `obey`, `note` — the run begins; a command; an event.
* `Scheduler.conclude` — end the run if nothing is left to do.
-/
import Workflow.Run.Scheduler.Start

namespace Workflow.Scheduler

variable {g : Graph}

/-- Start a step that is still ready, unless nothing more can happen. -/
def startReady (s : Scheduler g) (i : g.Index) : Scheduler g :=
  if s.isOver then s else if s.statusOf i = .ready then s.startStep i else s

/-- The number of loops that have not started. -/
def unstartedLoops (s : Scheduler g) : Nat :=
  g.indices.countP fun i =>
    g.kindOf i = .loop && (s.statusOf i = .pending || s.statusOf i = .ready)

/-- How far a step is from having started. -/
def distance : StepStatus → Nat
  | .pending => 2
  | .ready => 1
  | _ => 0

/-- How far all steps are from having started. -/
def totalDistance (s : Scheduler g) : Nat :=
  (g.indices.map fun i => distance (s.statusOf i)).foldr (· + ·) 0

/-- Whether less is left to start than before: fewer loops, or fewer rounds of as many loops, or
fewer steps in as many rounds. -/
def Closer (next s : Scheduler g) : Prop :=
  Prod.Lex (· < ·) (Prod.Lex (· < ·) (· < ·))
    (next.unstartedLoops, next.remainingRounds, next.totalDistance)
    (s.unstartedLoops, s.remainingRounds, s.totalDistance)

theorem closer_def {next s : Scheduler g} :
    Closer next s ↔ next.unstartedLoops < s.unstartedLoops ∨
      next.unstartedLoops = s.unstartedLoops ∧
        (next.remainingRounds < s.remainingRounds ∨
          next.remainingRounds = s.remainingRounds ∧ next.totalDistance < s.totalDistance) := by
  simp only [Closer, Prod.lex_def]

instance (next s : Scheduler g) : Decidable (Closer next s) := decidable_of_iff' _ closer_def

/-- Settle and start all ready steps, over and over until nothing is ready. Every time leaves less
to start. -/
def advance (s : Scheduler g) : Scheduler g :=
  if s.isOver then s
  else
    let settled := s.settle
    if settled.paused then settled
    else
      let next := settled.readySteps.foldl startReady settled
      if Closer next s then next.advance else next
termination_by (s.unstartedLoops, s.remainingRounds, s.totalDistance)
decreasing_by assumption

/-! ## What a scheduler is told -/

/-- The run begins: what nothing leads to is skipped, and the entry is ready. -/
def launch (s : Scheduler g) : Scheduler g :=
  ((g.orphans.foldl skip s).setStatus g.entry .ready).advance

/-- Take a command. Pausing twice or resuming what is not paused changes nothing. -/
def obey (s : Scheduler g) (command : Command) : Scheduler g :=
  match command with
  | .pause =>
    if s.paused then s
    else { s with paused := true }.mapState fun st => { st with status := .paused }
  | .resume =>
    if s.paused then { s with paused := false }.mapState fun st => { st with status := .running }
    else s
  | .stop => s.finish .stopped

/-- A call has come to an end. What is not waited for any more is dropped. -/
def noteCall (s : Scheduler g) (i : g.Index) (token : Nat) (outcome : Outcome) : Scheduler g :=
  let s := { s with running := s.running - 1 }
  if (s.controlOf i).call = some token then
    let s := s.mapControl i fun c => { c with call := none }
    if s.state.isFinal then s
    else
      match outcome with
      | .ok output => s.completeCall i output
      | .error e => s.failStep i e
  else s

/-- A retry is due. -/
def noteRetry (s : Scheduler g) (i : g.Index) : Scheduler g :=
  if (s.controlOf i).waiting then
    let s := s.mapControl i fun c => { c with waiting := false }
    if s.state.isFinal then s else s.setStatus i .ready
  else s

/-- Take note of an event. -/
def note (s : Scheduler g) (event : Event g) : Scheduler g :=
  match event with
  | .finished i token outcome => s.noteCall i token outcome
  | .retryDue i => s.noteRetry i

/-! ## The end of a run -/

/-- The steps that are not through. -/
def unfinishedSteps (s : Scheduler g) : List g.Index :=
  g.indices.filter fun i => !(s.statusOf i).isFinal

/-- Whether nothing can happen any more although steps remain. -/
def isStuck (s : Scheduler g) : Bool :=
  !s.paused && s.running == 0 && s.readySteps.isEmpty &&
    g.indices.all fun i => !(s.controlOf i).waiting

/-- The message of a run in which nothing can happen any more. -/
def deadlockMessage (ids : List String) : String :=
  "Deadlock: no step is ready or running, but steps remain unfinished: " ++ Text.quotedList ids

/-- End the run if all steps are through, or if nothing can happen any more. -/
def conclude (s : Scheduler g) : Scheduler g :=
  let unfinished := s.unfinishedSteps
  if unfinished.isEmpty then s.finish .completed
  else if s.isStuck then s.failRun none (deadlockMessage (unfinished.map g.idOf))
  else s

end Workflow.Scheduler

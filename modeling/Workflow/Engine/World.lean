/-
Workflow.Engine.World — runs over time.

Time is a number of milliseconds that goes on only when nothing else can
happen. What can go on waits in a queue; one turn lets the first in the
queue go on as far as it can. In its turn a scheduler reads its whole
inbox; after everything it takes note of, a snapshot is saved and
published.

* `World` — the runs, the clock and the queue.
* `World.turn?` — let the first in the queue go on.
* `World.settle`, `advanceTo`, `runUntil` — let everything go on, without
  the clock and with it.
-/
import Workflow.Engine.Process
import Workflow.Store.Archive

namespace Workflow

/-- A call as it was made. -/
structure CallNote where
  invocation : Invocation
  /-- The milliseconds left to the time limit. -/
  left : Option Nat
deriving DecidableEq, Repr

/-- A place in the queue: what goes on in which run. -/
structure Task where
  run : Nat
  job : Process.Job
deriving DecidableEq, Repr

/-- A worker that waits at the gate of a step. -/
structure Waiter where
  step : String
  run : Nat
  token : Nat
deriving DecidableEq, Repr

/-- Runs over time. -/
structure World where
  /-- The instant at which the clock started. -/
  epoch : Instant
  /-- The milliseconds since then. -/
  now : Nat
  queue : List Task
  processes : List Process
  performer : Performer
  /-- The steps whose gates stand open for one more worker, once for each worker. -/
  openings : List String
  /-- The workers at gates, in the order of arrival. -/
  waiters : List Waiter
  archive : Option Archive
  /-- The calls made. -/
  calls : List CallNote
  /-- The greatest number of calls that were open at once. -/
  peak : Nat
  /-- The snapshots handed to the archive. -/
  saves : List Snapshot

namespace World

/-- No runs, and the clock at zero. -/
def initial (epoch : Instant) (performer : Performer) (archive : Option Archive) : World :=
  { epoch, performer, archive
    now := 0
    queue := []
    processes := []
    openings := []
    waiters := []
    calls := []
    peak := 0
    saves := [] }

/-- The present instant. -/
def instant (w : World) : Instant := w.epoch.addMillis w.now

/-- Change a run. -/
def update (w : World) (run : Nat) (f : Process → Process) : World :=
  { w with processes := w.processes.modify run f }

/-- Put a job of a run at the end of the queue, unless it waits already. -/
def wake (w : World) (run : Nat) (job : Process.Job) : World :=
  if w.queue.contains ⟨run, job⟩ then w else { w with queue := w.queue ++ [⟨run, job⟩] }

/-- Wake the scheduler of a run, if it still reads its inbox. -/
def wakeScheduler (w : World) (run : Nat) : World :=
  if w.processes[run]?.any fun p => p.phase.isActive then w.wake run .scheduler else w

/-! ## Workers -/

/-- Give a permit back, and wake the worker that gets it. -/
def release (w : World) (run : Nat) : World :=
  match w.processes[run]? with
  | none => w
  | some p =>
    let (p, next) := p.release
    next.elim (w.update run fun _ => p) fun token =>
      (w.update run fun _ => p).wake run (.worker token)

/-- The call of a worker comes to an end. -/
def endCall (w : World) (run token : Nat) (outcome : Outcome) : World :=
  let w := { w with waiters := w.waiters.filter fun x => x.run ≠ run ∨ x.token ≠ token }
  ((w.update run fun p => p.endCall token outcome).wakeScheduler run).release run

/-- The error of a call that takes longer than its limit. -/
def timeoutError (limit : Duration) : StepError :=
  StepError.of .timeout ("step exceeded its deadline of " ++ limit.shown)

/-- End a call whose time limit is reached, if it has one. -/
def checkDeadline (w : World) (run token : Nat) (limit : Option Duration) (c : OpenCall) : World :=
  match limit, c.deadline with
  | some limit, some deadline =>
    if deadline ≤ w.now then w.endCall run token (.error (timeoutError limit)) else w
  | _, _ => w

variable {g : Graph}

/-- Let the call of a worker go on after its sleep: through the gate, if there is one, to its
end. -/
def passGate (w : World) (run : Nat) (k : Worker g) (c : OpenCall) : World :=
  let step := k.invocation.stepId
  if !c.gated then w.endCall run k.token c.ending.outcome
  else if w.openings.contains step then
    { w with openings := w.openings.erase step }.endCall run k.token c.ending.outcome
  else
    ({ w with waiters := w.waiters ++ [Waiter.mk step run k.token] }.update run fun p =>
      p.setStage k.token (.atGate c)).checkDeadline run k.token k.limit c

/-- Limits of so many seconds are beyond what a clock can tell. -/
def limitBound : Nat := Nat.pow 2 63

/-- Note that a call has been made. -/
def noteCall (w : World) (invocation : Invocation) (limit : Option Duration) : World :=
  if w.performer.takesNotes then
    { w with
      calls := w.calls ++ [⟨invocation, limit.map Duration.millis⟩]
      peak := max w.peak ((w.processes.map Process.openCalls).foldr (· + ·) 0) }
  else w

/-- The worker makes its call. A limit beyond what a clock can tell is the end of the worker, of
which nobody learns. -/
def makeCall (w : World) (run : Nat) (k : Worker g) : World :=
  if k.limit.any fun d => limitBound ≤ d.seconds then
    (w.update run fun p => p.dropWorker k.token).release run
  else
    let (reply, performer) := w.performer.answer k.invocation
    let c : OpenCall := ⟨reply.gated, reply.ending, k.limit.map fun d => w.now + d.millisUp⟩
    let w := ({ w with performer }.update run fun p =>
      p.setStage k.token (.asleep (w.now + reply.sleep) c)).noteCall k.invocation k.limit
    if 0 < reply.sleep then w.checkDeadline run k.token k.limit c else w.passGate run k c

/-- Let a worker go on. -/
def pollWorker (w : World) (run token : Nat) : World :=
  match w.processes[run]? with
  | none => w
  | some p =>
    match p.worker? token with
    | none => w
    | some k =>
      match k.stage with
      | .fresh =>
        let asked := w.update run fun p => p.acquire token
        if 0 < p.free then asked.makeCall run k else asked
      | .inLine => w
      | .admitted => w.makeCall run k
      | .asleep wakeAt c =>
        if wakeAt ≤ w.now then w.passGate run k c else w.checkDeadline run token k.limit c
      | .atGate c => w.checkDeadline run token k.limit c
      | .passing c => w.endCall run token c.ending.outcome

/-- Let one worker pass the gate of a step: the first that waits there, or the next to come. -/
def openGate (w : World) (step : String) : World :=
  match w.waiters.find? fun x => x.step = step with
  | none => { w with openings := w.openings ++ [step] }
  | some x =>
    ({ w with waiters := w.waiters.erase x }.update x.run fun p =>
      p.letPass x.token).wake x.run (.worker x.token)

/-! ## Schedulers -/

/-- Hand the snapshot of a run to the archive and then show it to readers. A panic of the archive
is the end of the scheduler. -/
def publish (w : World) (run : Nat) : World :=
  match w.processes[run]? with
  | none => w
  | some p =>
    let snapshot := p.snapshot w.instant
    let shown := fun w : World => w.update run fun p => { p with published := snapshot }
    match w.archive with
    | none => shown w
    | some a =>
      let w := { w with saves := w.saves ++ [snapshot] }
      match a.save? snapshot with
      | none => w.update run fun p => { p with phase := .lost }
      | some a => shown { w with archive := some a }

/-- After a scheduler has gone on: do what it asks for and publish, unless it has crashed. -/
def followUp (w : World) (run : Nat) : World :=
  match w.processes[run]? with
  | none => w
  | some p =>
    let (p, jobs) := p.grant w.now
    let w := jobs.foldl (fun w job => w.wake run job) (w.update run fun _ => p)
    if p.scheduler.crashed then w.update run fun p => { p with phase := .lost }
    else w.publish run

/-- A run that its archive knows as it ended need not be kept. -/
def retire (w : World) (run : Nat) : World :=
  match w.processes[run]?, w.archive with
  | some p, some a =>
    match a.load p.runId with
    | .ok (some stored) =>
      if stored.status = p.scheduler.state.status then
        w.update run fun p => { p with known := false }
      else w
    | _ => w
  | _, _ => w

/-- The scheduler of a run that is over comes to its end. -/
def close (w : World) (run : Nat) : World :=
  let w := (w.update run fun p => { p with phase := .ended }).publish run
  if w.processes[run]?.any fun p => p.phase = .ended then w.retire run else w

/-- Let a scheduler read its inbox; `room` bounds the number of messages. -/
def readInbox (w : World) (run : Nat) : Nat → World
  | 0 => w
  | room + 1 =>
    match w.processes[run]? with
    | none => w
    | some p =>
      if p.phase ≠ .live then w
      else if p.isFinal then w.close run
      else
        let p := p.conclude w.instant
        let w := w.update run fun _ => p
        if p.isFinal then w.close run
        else if p.inbox.isEmpty then w
        else ((w.update run fun p => p.readMessage w.instant).followUp run).readInbox run room

/-- Let a scheduler go on. -/
def pollScheduler (w : World) (run : Nat) : World :=
  match w.processes[run]? with
  | none => w
  | some p =>
    let w :=
      if p.phase = .fresh then (w.update run fun p => p.launch w.instant).followUp run else w
    w.readInbox run (p.inbox.length + 1)

/-! ## Turns -/

/-- A retry is due. -/
def pollRetry (w : World) (run step : Nat) : World :=
  (w.update run fun p => p.deliverRetry step w.now).wakeScheduler run

/-- Let the first in the queue go on. -/
def turn? (w : World) : Option World :=
  match w.queue with
  | [] => none
  | t :: rest =>
    let w := { w with queue := rest }
    match t.job with
    | .scheduler => some (w.pollScheduler t.run)
    | .worker token => some (w.pollWorker t.run token)
    | .retry step => some (w.pollRetry t.run step)

/-- More turns than any run takes. -/
def patience : Nat := Nat.pow 2 60

/-- Take up to so many turns. -/
def turns : Nat → World → World
  | 0, w => w
  | n + 1, w =>
    match w.turn? with
    | none => w
    | some w => turns n w

/-- Let everything go on until the queue is empty. -/
def settle (w : World) : World := turns patience w

/-- The next time at which something happens by itself. -/
def nextAlarm? (w : World) : Option Nat := (w.processes.flatMap Process.alarms).min?

/-- The clock reaches a time, and what was to happen by then can go on. -/
def tick (w : World) (time : Nat) : World :=
  let w := { w with now := max w.now time }
  let due := w.processes.zipIdx.flatMap fun (p, run) => (p.dueJobs w.now).map (Task.mk run)
  due.foldl (fun w t => w.wake t.run t.job) w

/-- Let everything go on, with the clock, until a goal is reached, and up to a time at most. -/
def stepsUntil (goal : World → Bool) (limit : Nat) : Nat → World → World
  | 0, w => w
  | n + 1, w =>
    let w := w.settle
    if goal w then w
    else
      match w.nextAlarm? with
      | none => w
      | some time => if time ≤ limit then stepsUntil goal limit n (w.tick time) else w

/-- Let everything go on until a goal is reached, and up to a time at most. -/
def runUntil (w : World) (goal : World → Bool) (limit : Nat) : World :=
  stepsUntil goal limit patience w

/-- Let everything go on up to a time. -/
def advanceTo (w : World) (time : Nat) : World :=
  { w.runUntil (fun _ => false) time with now := time }

/-- Let so many milliseconds pass. -/
def advance (w : World) (millis : Nat) : World := w.advanceTo (w.now + millis)

/-! ## Runs -/

/-- Whether there can be as many permits as a limit asks for. -/
def admits (limit : Nat) : Bool := Process.permits limit < Process.permitBound

/-- Begin a run; it gets the next number. -/
def submit (w : World) (g : Graph) (s : Scheduler g) (limit : Nat) : World :=
  let run := w.processes.length
  { w with processes := w.processes ++ [Process.initial g s limit] }.wake run .scheduler

/-- Send a command to a run; also whether its scheduler still reads its inbox. -/
def command (w : World) (run : Nat) (c : Command) : World × Bool :=
  match w.processes[run]? with
  | none => (w, false)
  | some p => ((w.update run fun p => p.send (.command c)).wakeScheduler run, p.phase.isActive)

end World

end Workflow

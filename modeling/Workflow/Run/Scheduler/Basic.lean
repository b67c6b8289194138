/-
Workflow.Run.Scheduler.Basic — what the scheduler of a run remembers.

A scheduler drives one run. It acts only when it is told something: that
the run begins, that a command has arrived, that a call has come to an end
or that a retry is due. What it wants done outside it writes down as
requests, in order.

* `Request` — what a scheduler asks for.
* `Command`, `Event` — what it is told.
* `Control` — what it remembers of a step beside the step's result.
* `Scheduler` — its memory.
-/
import Workflow.Executor.Basic
import Workflow.Run.State

namespace Workflow

/-- The output that a call gives, or the error it ends with. -/
abbrev Outcome := Except StepError (Dict Json)

/-- What a scheduler asks for: a call to the executor, known by its token, or to be told when a
retry is due. -/
inductive Request (g : Graph) where
  | call (step : g.Index) (token : Nat) (invocation : Invocation) (limit : Option Duration)
  | wake (step : g.Index) (delay : Duration)
deriving DecidableEq, Repr

/-- Commands to a run. -/
inductive Command where
  | pause
  | resume
  | stop
deriving DecidableEq, Repr

/-- What a scheduler is told about its requests. -/
inductive Event (g : Graph) where
  | finished (step : g.Index) (token : Nat) (outcome : Outcome)
  | retryDue (step : g.Index)

/-- How far a loop is: the items, the current round and the rounds that are through. -/
structure Frame where
  items : List Json
  position : Nat
  iterations : List Iteration
deriving DecidableEq, Repr

/-- The failure that an error handler is to deal with. -/
structure Activation (g : Graph) where
  failed : g.Index
  error : StepError
deriving DecidableEq, Repr

/-- What a scheduler remembers of a step beside its result. -/
structure Control (g : Graph) where
  /-- The token of the call that is waited for. -/
  call : Option Nat
  /-- Whether a retry is to come. -/
  waiting : Bool
  /-- The retries made. -/
  retries : Nat
  /-- The decision of a condition. -/
  branch : Option Bool
  /-- The progress of a loop. -/
  frame : Option Frame
  /-- The failure that an error handler is to deal with. -/
  activation : Option (Activation g)
deriving DecidableEq, Repr

/-- Nothing to remember. -/
def Control.initial (g : Graph) : Control g := ⟨none, false, 0, none, none, none⟩

/-- The memory of the scheduler of a run. -/
structure Scheduler (g : Graph) where
  state : RunState g
  control : PerStep g.size (Control g)
  /-- The time limit of steps that set none. -/
  stepTimeout : Option Duration
  paused : Bool
  /-- The calls that have not come to an end. -/
  running : Nat
  /-- The last token given. -/
  lastToken : Nat
  /-- What has been asked for and not yet been taken note of. -/
  requests : List (Request g)
  /-- Whether an expression has crashed, and the scheduler with it. -/
  crashed : Bool
  now : Instant

namespace Scheduler

variable {g : Graph}

/-- The scheduler of a run that has not begun. -/
def initial (state : RunState g) (stepTimeout : Option Duration) : Scheduler g :=
  { state, stepTimeout
    control := PerStep.fill _ (Control.initial g)
    paused := false
    running := 0
    lastToken := 0
    requests := []
    crashed := false
    now := state.startedAt }

/-- The status of a step. -/
def statusOf (s : Scheduler g) (i : g.Index) : StepStatus := s.state.statusOf i

/-- What is remembered of a step. -/
def controlOf (s : Scheduler g) (i : g.Index) : Control g := s.control.get i

/-- Change what is remembered of a step. -/
def mapControl (s : Scheduler g) (i : g.Index) (f : Control g → Control g) : Scheduler g :=
  { s with control := s.control.update i f }

/-- Change the memory of the run. -/
def mapState (s : Scheduler g) (f : RunState g → RunState g) : Scheduler g :=
  { s with state := f s.state }

/-- Ask for something. -/
def request (s : Scheduler g) (r : Request g) : Scheduler g :=
  { s with requests := s.requests ++ [r] }

/-- Whether nothing more can happen: the run is over, or the scheduler has crashed. -/
def isOver (s : Scheduler g) : Bool := s.state.isFinal || s.crashed

/-- The steps that are ready, in order. -/
def readySteps (s : Scheduler g) : List g.Index :=
  g.indices.filter fun i => s.statusOf i = .ready

/-- Set the status of a step and nothing else. -/
def setStatus (s : Scheduler g) (i : g.Index) (status : StepStatus) : Scheduler g :=
  s.mapState fun st => st.setStatus i status

/-- A step gives an output. -/
def complete (s : Scheduler g) (i : g.Index) (output : Json) : Scheduler g :=
  s.mapState fun st => st.complete s.now i output

/-- A step is passed over. -/
def skip (s : Scheduler g) (i : g.Index) : Scheduler g :=
  s.mapState fun st => st.skip s.now i

/-- The run fails, at one step or as a whole. -/
def failRun (s : Scheduler g) (stepId : Option String) (message : String) : Scheduler g :=
  s.mapState fun st => st.failRun s.now stepId message

/-- The run gets a status. -/
def finish (s : Scheduler g) (status : RunStatus) : Scheduler g :=
  s.mapState fun st => st.finish s.now status

end Scheduler

end Workflow

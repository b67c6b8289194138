/-
Workflow.Run.Scheduler.Failure — what follows a failed attempt.

A failed step is tried again as long as its retry policy allows. Then the
failure of a step in the body of a loop becomes the failure of the loop,
and the failure of any other step goes to the first error handler that
guards it, is still free and catches the error; without one the run fails.
When the handler is through, its recovery decides about the failed step.

* `Scheduler.failStep` — an attempt of a step has failed.
* `Scheduler.applyRecovery` — a handler is through.
-/
import Workflow.Run.Retry
import Workflow.Run.Scheduler.Basic

namespace Workflow.Scheduler

variable {g : Graph}

/-- Try a step again after a wait, if the error and the policy of the step allow it. -/
def retryLater? (s : Scheduler g) (i : g.Index) (error : StepError) : Option (Scheduler g) :=
  let policy := (g.step i).policy
  let made := (s.controlOf i).retries
  if error.isRetryable && policy.allows made then
    let delay := policy.delay made
    some <| (((s.mapState fun st => st.mapResult i fun r =>
      { r with
        retryDelays := r.retryDelays ++ [delay]
        error := some error
        status := .pending }).mapControl i fun c =>
      { c with retries := made + 1, waiting := true }).request (.wake i delay))
  else none

/-- Whether an error handler is free and catches an error. -/
def canHandle (s : Scheduler g) (error : StepError) (handler : g.Index) : Bool :=
  s.statusOf handler = .pending &&
    (g.step handler).errorConfig.any fun c => error.passes c.errorTypeFilter

/-- A step has failed for good: its error goes to a handler or ends the run. -/
def route (s : Scheduler g) (i : g.Index) (error : StepError) : Scheduler g :=
  match (g.handlersOf i).find? (s.canHandle error) with
  | some handler =>
    (s.mapControl handler fun c =>
      { c with activation := some ⟨i, error⟩ }).setStatus handler .ready
  | none => s.failRun (some (g.idOf i)) error.message

/-- Record that a step has failed for good. -/
def recordFailure (s : Scheduler g) (i : g.Index) (error : StepError) : Scheduler g :=
  s.mapState fun st => st.fail s.now i error

/-- Give up a step in the body of a loop that has failed. -/
def abandonMember (s : Scheduler g) (i : g.Index) : Scheduler g :=
  let s := s.mapControl i fun c => { c with waiting := false, call := none }
  if (s.statusOf i).isFinal then s else s.skip i

/-- Give up the current round of a loop and the rounds to come. -/
def abandonLoop (s : Scheduler g) (loop : g.Index) : Scheduler g :=
  (g.body loop).foldl abandonMember (s.mapControl loop fun c => { c with frame := none })

/-- The error of a loop whose round failed at a step. -/
def loopError (s : Scheduler g) (loop i : g.Index) (error : StepError) : StepError :=
  let position := ((s.controlOf loop).frame.map Frame.position).getD 0
  { error with
    message := "iteration " ++ toString position ++ " step '" ++ g.idOf i ++ "' failed: " ++
      error.message }

/-- An attempt of a step that is in no body has failed. -/
def failOuter (s : Scheduler g) (i : g.Index) (error : StepError) : Scheduler g :=
  match s.retryLater? i error with
  | some s => s
  | none => (s.recordFailure i error).route i error

/-- An attempt of a step has failed. -/
def failStep (s : Scheduler g) (i : g.Index) (error : StepError) : Scheduler g :=
  match g.owner? i with
  | none => s.failOuter i error
  | some loop =>
    match s.retryLater? i error with
    | some s => s
    | none => ((s.recordFailure i error).abandonLoop loop).failOuter loop (s.loopError loop i error)

/-- Note which handler took care of a step. -/
def markRecovered (s : Scheduler g) (i handler : g.Index) : Scheduler g :=
  s.mapState fun st => st.mapResult i fun r => { r with recoveredBy := some (g.idOf handler) }

/-- The failed step is ready again, with all its retries. -/
def restart (s : Scheduler g) (i : g.Index) : Scheduler g :=
  (s.mapControl i fun c => { c with retries := 0 }).mapState fun st =>
    (st.clearFailed i).mapResult i fun r =>
      { r with status := .ready, attempt := 0, retryDelays := [] }

/-- The failed step gives a value after all; for a condition a truth value is its decision. -/
def substitute (s : Scheduler g) (i : g.Index) (value : Json) : Scheduler g :=
  let s :=
    match g.kindOf i, value with
    | .condition, .bool taken => s.mapControl i fun c => { c with branch := some taken }
    | _, _ => s
  s.complete i value

/-- A handler is through with a failure; its recovery decides about the failed step. -/
def applyRecovery (s : Scheduler g) (handler : g.Index) (a : Activation g) : Scheduler g :=
  match (g.step handler).errorConfig with
  | none => s
  | some c =>
    match c.recoveryAction with
    | .continueRun => (s.skip a.failed).markRecovered a.failed handler
    | .retry => (s.restart a.failed).markRecovered a.failed handler
    | .fallback =>
      (s.substitute a.failed (c.fallbackValue.getD .null)).markRecovered a.failed handler
    | .stop =>
      s.failRun (some (g.idOf a.failed))
        (a.error.message ++ " (stopped by error handler '" ++ g.idOf handler ++ "')")

/-- A call has given an output. -/
def completeCall (s : Scheduler g) (i : g.Index) (output : Dict Json) : Scheduler g :=
  let s := s.complete i (.obj output)
  match (s.controlOf i).activation with
  | none => s
  | some a => (s.mapControl i fun c => { c with activation := none }).applyRecovery i a

end Workflow.Scheduler

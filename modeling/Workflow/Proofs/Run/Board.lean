/-
Workflow.Proofs.Run.Board — what the changes of a run do to its steps.

Most of what a scheduler remembers matters to nobody but readers. The rules
of a run look at a few fields of each step and a few of the run as a whole.
On these, every change of a run is an equation.

* `Slot`, `Desk`, `Board` — what the rules look at in a step, in the run as
  a whole and in all together.
* `Board.set`, `Board.mapBody` — a change of one step; of a whole body.
* `Scheduler.board` — what the rules look at in a scheduler.
* `Scheduler.Recovers` — what the recovery of a handler comes to.
-/
import Workflow.Run.Scheduler.Turn

namespace Workflow

namespace StepStatus

@[grind =] theorem isSettled_iff {status : StepStatus} :
    status.isSettled = true ↔ status = .completed ∨ status = .skipped := by
  cases status <;> simp [isSettled]

@[grind =] theorem isFinal_iff {status : StepStatus} :
    status.isFinal = true ↔ status = .completed ∨ status = .failed ∨ status = .skipped := by
  cases status <;> simp [isFinal]

end StepStatus

instance Graph.decidableMem {g : Graph} (i : g.Index) (is : List g.Index) : Decidable (i ∈ is) :=
  decidable_of_iff (is.any fun j => j = i) (by simp)

/-- What the rules of a run look at in a step. -/
@[ext] structure Slot (g : Graph) where
  status : StepStatus
  error : Option StepError
  recoveredBy : Option String
  /-- Whether the step is listed as failed. -/
  listed : Bool
  call : Option Nat
  waiting : Bool
  frame : Option Frame
  activation : Option (Activation g)

/-- What an error handler does about a failure. -/
def Graph.recovery? (g : Graph) (handler : g.Index) : Option RecoveryAction :=
  (g.step handler).errorConfig.map (·.recoveryAction)

theorem Graph.exists_recovery? {g : Graph} {handler : g.Index}
    (h : (g.step handler).errorConfig.isSome) : ∃ action, g.recovery? handler = some action := by
  obtain ⟨c, hConfig⟩ := Option.isSome_iff_exists.mp h
  exact ⟨c.recoveryAction, by rw [recovery?, hConfig, Option.map_some]⟩

namespace Slot

variable {g : Graph}

/-- A step of a body as if it had never run. -/
def cleared (x : Slot g) : Slot g :=
  { x with status := .pending, error := none, recoveredBy := none, listed := false }

/-- A step of a body that is given up. -/
def abandoned (x : Slot g) : Slot g :=
  if x.status.isFinal then { x with waiting := false, call := none }
  else { x with waiting := false, call := none, status := .skipped, listed := false }

/-- A failed step after the recovery of an error handler, which acts in one way or not at all. -/
def recovered (action? : Option RecoveryAction) (handlerId : String) (x : Slot g) : Slot g :=
  match action? with
  | some .continueRun =>
    { x with status := .skipped, listed := false, recoveredBy := some handlerId }
  | some .retry => { x with status := .ready, listed := false, recoveredBy := some handlerId }
  | some .fallback =>
    { x with status := .completed, error := none, listed := false, recoveredBy := some handlerId }
  | some .stop | none => x

section Fields

variable (action? : Option RecoveryAction) (handlerId : String) (x : Slot g)

@[simp, grind =] theorem call_recovered : (x.recovered action? handlerId).call = x.call := by
  unfold recovered; split <;> rfl

@[simp, grind =] theorem waiting_recovered :
    (x.recovered action? handlerId).waiting = x.waiting := by
  unfold recovered; split <;> rfl

@[simp, grind =] theorem frame_recovered : (x.recovered action? handlerId).frame = x.frame := by
  unfold recovered; split <;> rfl

@[simp, grind =] theorem activation_recovered :
    (x.recovered action? handlerId).activation = x.activation := by
  unfold recovered; split <;> rfl

theorem recovered_cases :
    x.recovered action? handlerId = x ∨
      (x.recovered action? handlerId).listed = false ∧
      ((x.recovered action? handlerId).status = .skipped ∨
        (x.recovered action? handlerId).status = .ready ∨
        (x.recovered action? handlerId).status = .completed) := by
  unfold recovered
  split <;> simp

/-- A failed step is skipped only by a handler. -/
theorem recoveredBy_of_skipped (hSkipped : (x.recovered action? handlerId).status = .skipped) :
    x.status = .skipped ∧ x.recovered action? handlerId = x ∨
      (x.recovered action? handlerId).recoveredBy = some handlerId := by
  unfold recovered at hSkipped ⊢
  split at hSkipped <;> simp_all

/-- A recovery that neither stops the run nor is missing leaves no failure. -/
theorem status_recovered_ne {action : RecoveryAction} (hAction : action ≠ .stop) :
    (x.recovered (some action) handlerId).status ≠ .failed := by
  cases action <;> simp_all [recovered]

@[simp, grind =] theorem call_abandoned : x.abandoned.call = none := by
  unfold abandoned; split <;> rfl

@[simp, grind =] theorem waiting_abandoned : x.abandoned.waiting = false := by
  unfold abandoned; split <;> rfl

@[simp, grind =] theorem frame_abandoned : x.abandoned.frame = x.frame := by
  unfold abandoned; split <;> rfl

@[simp, grind =] theorem activation_abandoned : x.abandoned.activation = x.activation := by
  unfold abandoned; split <;> rfl

@[simp, grind =] theorem error_abandoned : x.abandoned.error = x.error := by
  unfold abandoned; split <;> rfl

@[simp, grind =] theorem status_abandoned :
    x.abandoned.status = if x.status.isFinal then x.status else .skipped := by
  unfold abandoned; split <;> rfl

/-- A step that is given up is through. -/
theorem isFinal_abandoned : x.abandoned.status.isFinal = true := by
  rw [status_abandoned]
  split
  · assumption
  · rfl

end Fields

theorem cleared_cleared (x : Slot g) : x.cleared.cleared = x.cleared := rfl

theorem abandoned_abandoned (x : Slot g) : x.abandoned.abandoned = x.abandoned := by
  obtain ⟨status⟩ := x
  cases status <;> rfl

end Slot

/-- What the rules of a run look at beside its steps. -/
@[ext] structure Desk (g : Graph) where
  status : RunStatus
  paused : Bool
  running : Nat
  requests : List (Request g)
  crashed : Bool

/-- What the rules of a run look at. -/
@[ext] structure Board (g : Graph) where
  slot : g.Index → Slot g
  desk : Desk g

namespace Board

variable {g : Graph} (b : Board g) (i j : g.Index)

/-- Change one step. -/
def set (y : Slot g) : Board g := { b with slot := fun j => if i = j then y else b.slot j }

/-- Change the steps in the body of a loop. -/
def mapBody (loop : g.Index) (f : Slot g → Slot g) : Board g :=
  { b with slot := fun j => if j ∈ g.body loop then f (b.slot j) else b.slot j }

/-- Change the status of the run. -/
def setRun (status : RunStatus) : Board g := { b with desk := { b.desk with status } }

/-- Ask for something. -/
def ask (r : Request g) : Board g :=
  { b with desk := { b.desk with requests := b.desk.requests ++ [r] } }

/-- Ask for a call. -/
def placeCall (token : Nat) (invocation : Invocation) (limit : Option Duration) : Board g :=
  { b.set i { b.slot i with call := some token } with
    desk := { b.desk with
      running := b.desk.running + 1
      requests := b.desk.requests ++ [.call i token invocation limit] } }

/-- A call has come to an end. -/
def endCall : Board g := { b with desk := { b.desk with running := b.desk.running - 1 } }

@[simp, grind =] theorem slot_set (y : Slot g) :
    (b.set i y).slot j = if i = j then y else b.slot j := rfl

@[simp, grind =] theorem desk_set (y : Slot g) : (b.set i y).desk = b.desk := rfl

@[simp, grind =] theorem slot_mapBody (loop : g.Index) (f : Slot g → Slot g) :
    (b.mapBody loop f).slot j = if j ∈ g.body loop then f (b.slot j) else b.slot j := rfl

@[simp, grind =] theorem desk_mapBody (loop : g.Index) (f : Slot g → Slot g) :
    (b.mapBody loop f).desk = b.desk := rfl

@[simp, grind =] theorem slot_setRun (status : RunStatus) :
    (b.setRun status).slot j = b.slot j := rfl

@[simp, grind =] theorem desk_setRun (status : RunStatus) :
    (b.setRun status).desk = { b.desk with status } := rfl

@[simp, grind =] theorem slot_ask (r : Request g) : (b.ask r).slot j = b.slot j := rfl

@[simp, grind =] theorem desk_ask (r : Request g) :
    (b.ask r).desk = { b.desk with requests := b.desk.requests ++ [r] } := rfl

@[simp, grind =] theorem slot_placeCall (token : Nat) (invocation : Invocation)
    (limit : Option Duration) :
    (b.placeCall i token invocation limit).slot j =
      if i = j then { b.slot i with call := some token } else b.slot j := rfl

@[simp, grind =] theorem desk_placeCall (token : Nat) (invocation : Invocation)
    (limit : Option Duration) :
    (b.placeCall i token invocation limit).desk =
      { b.desk with
        running := b.desk.running + 1
        requests := b.desk.requests ++ [.call i token invocation limit] } := rfl

@[simp, grind =] theorem slot_endCall : b.endCall.slot j = b.slot j := rfl

@[simp, grind =] theorem desk_endCall :
    b.endCall.desk = { b.desk with running := b.desk.running - 1 } := rfl

theorem set_set (y z : Slot g) : (b.set i y).set i z = b.set i z := by
  refine Board.ext (funext fun j => ?_) rfl
  simp only [slot_set]
  split <;> rfl

theorem set_self : b.set i (b.slot i) = b := by
  refine Board.ext (funext fun j => ?_) rfl
  simp only [slot_set]
  split
  · rename_i h
    rw [h]
  · rfl

end Board

namespace Scheduler

variable {g : Graph} (s : Scheduler g)

/-- What the rules of a run look at in a scheduler. -/
def board : Board g :=
  { slot := fun i =>
      let r := s.state.result i
      let c := s.controlOf i
      { status := r.status
        error := r.error
        recoveredBy := r.recoveredBy
        listed := s.state.failed.get i
        call := c.call
        waiting := c.waiting
        frame := c.frame
        activation := c.activation }
    desk := ⟨s.state.status, s.paused, s.running, s.requests, s.crashed⟩ }

/-! ## Changes of what is remembered of a step -/

variable (i : g.Index)

theorem board_mapControl (f : Control g → Control g) :
    (s.mapControl i f).board = s.board.set i
      { s.board.slot i with
        call := (f (s.controlOf i)).call
        waiting := (f (s.controlOf i)).waiting
        frame := (f (s.controlOf i)).frame
        activation := (f (s.controlOf i)).activation } := by
  refine Board.ext (funext fun j => ?_) rfl
  by_cases h : i = j
  · subst h
    simp [board, mapControl, controlOf, PerStep.get_update]
  · simp [board, mapControl, controlOf, PerStep.get_update, h]

theorem board_setCall (call : Option Nat) :
    (s.mapControl i fun c => { c with call }).board = s.board.set i { s.board.slot i with call } :=
  board_mapControl s i _

theorem board_setWaiting (waiting : Bool) :
    (s.mapControl i fun c => { c with waiting }).board =
      s.board.set i { s.board.slot i with waiting } :=
  board_mapControl s i _

theorem board_setRetriesWaiting (retries : Nat) (waiting : Bool) :
    (s.mapControl i fun c => { c with retries, waiting }).board =
      s.board.set i { s.board.slot i with waiting } :=
  board_mapControl s i _

theorem board_setFrame (frame : Option Frame) :
    (s.mapControl i fun c => { c with frame }).board = s.board.set i { s.board.slot i with frame } :=
  board_mapControl s i _

theorem board_setActivation (activation : Option (Activation g)) :
    (s.mapControl i fun c => { c with activation }).board =
      s.board.set i { s.board.slot i with activation } :=
  board_mapControl s i _

theorem board_setRetries (retries : Nat) :
    (s.mapControl i fun c => { c with retries }).board = s.board :=
  (board_mapControl s i _).trans (s.board.set_self i)

theorem board_setBranch (branch : Option Bool) :
    (s.mapControl i fun c => { c with branch }).board = s.board :=
  (board_mapControl s i _).trans (s.board.set_self i)

theorem board_setRetriesBranch (retries : Nat) (branch : Option Bool) :
    (s.mapControl i fun c => { c with retries, branch }).board = s.board :=
  (board_mapControl s i _).trans (s.board.set_self i)

/-! ## Changes of the result of a step -/

theorem board_mapResult (f : StepResult → StepResult) :
    (s.mapState fun st => st.mapResult i f).board = s.board.set i
      { s.board.slot i with
        status := (f (s.state.result i)).status
        error := (f (s.state.result i)).error
        recoveredBy := (f (s.state.result i)).recoveredBy } := by
  refine Board.ext (funext fun j => ?_) rfl
  by_cases h : i = j
  · subst h
    simp [board, mapState, RunState.mapResult, RunState.result, controlOf,
      PerStep.get_update]
  · simp [board, mapState, RunState.mapResult, RunState.result, controlOf,
      PerStep.get_update, h]

/-- A change of the result of a step and of its mark among the failed ones. -/
theorem board_mapResult_mark {change : RunState g → RunState g} (f : StepResult → StepResult)
    (mark : Bool) (hResults : (change s.state).results = s.state.results.update i f)
    (hFailed : (change s.state).failed = s.state.failed.update i fun _ => mark)
    (hStatus : (change s.state).status = s.state.status) :
    (s.mapState change).board = s.board.set i
      { s.board.slot i with
        status := (f (s.state.result i)).status
        error := (f (s.state.result i)).error
        recoveredBy := (f (s.state.result i)).recoveredBy
        listed := mark } := by
  refine Board.ext (funext fun j => ?_) ?_
  · by_cases h : i = j
    · subst h
      simp [board, mapState, RunState.result, controlOf, hResults, hFailed,
        PerStep.get_update]
    · simp [board, mapState, RunState.result, controlOf, hResults, hFailed,
        PerStep.get_update, h]
  · simp [board, mapState, hStatus]

theorem board_setIterations (iterations : List Iteration) :
    (s.mapState fun st => st.mapResult i fun r => { r with iterations }).board = s.board :=
  (board_mapResult s i _).trans (s.board.set_self i)

theorem board_setStatus (status : StepStatus) :
    (s.setStatus i status).board = s.board.set i { s.board.slot i with status } :=
  board_mapResult s i _

theorem board_begin : (s.begin i).board = s.board.set i { s.board.slot i with status := .running } :=
  board_mapResult s i _

theorem board_complete (output : Json) :
    (s.complete i output).board =
      s.board.set i { s.board.slot i with status := .completed, error := none, listed := false } :=
  board_mapResult_mark s i (fun r => r.complete s.now output) false rfl rfl rfl

theorem board_skip :
    (s.skip i).board = s.board.set i { s.board.slot i with status := .skipped, listed := false } :=
  board_mapResult_mark s i (fun r => r.skip s.now) false rfl rfl rfl

theorem board_recordFailure (error : StepError) :
    (s.recordFailure i error).board =
      s.board.set i { s.board.slot i with status := .failed, error := some error, listed := true } :=
  board_mapResult_mark s i (fun r => r.fail s.now error) true rfl rfl rfl

theorem board_markRecovered (handler : g.Index) :
    (s.markRecovered i handler).board =
      s.board.set i { s.board.slot i with recoveredBy := some (g.idOf handler) } :=
  board_mapResult s i _

theorem board_restart :
    (s.restart i).board = s.board.set i { s.board.slot i with status := .ready, listed := false } := by
  unfold restart
  refine (board_mapResult_mark (s.mapControl i _) i
    (fun r => { r with status := .ready, attempt := 0, retryDelays := [] }) false
      rfl rfl rfl).trans ?_
  rw [board_setRetries]
  exact (board_setRetries s i 0).symm ▸ rfl

theorem board_substitute (value : Json) :
    (s.substitute i value).board =
      s.board.set i { s.board.slot i with status := .completed, error := none, listed := false } := by
  unfold substitute
  dsimp only
  split
  · rw [board_complete, board_setBranch]
  · exact board_complete s i _

/-! ## Changes of a whole body -/

theorem board_resetMember : (s.resetMember i).board = s.board.set i (s.board.slot i).cleared := by
  rw [resetMember, board_setRetriesBranch]
  exact board_mapResult_mark s i StepResult.reset false rfl rfl rfl

theorem board_abandonMember :
    (s.abandonMember i).board = s.board.set i (s.board.slot i).abandoned := by
  have hControl : (s.mapControl i fun c => { c with waiting := false, call := none }).board =
      s.board.set i { s.board.slot i with waiting := false, call := none } :=
    board_mapControl s i _
  have hStatus : (s.mapControl i fun c => { c with waiting := false, call := none }).statusOf i =
      (s.board.slot i).status := rfl
  unfold abandonMember Slot.abandoned
  dsimp only
  rw [hStatus]
  split
  · exact hControl
  · rw [board_skip, hControl, Board.set_set]
    simp only [Board.slot_set, if_true]

/-- A change of some steps one after the other, if it does not matter how often it is made. -/
theorem board_foldl {change : Scheduler g → g.Index → Scheduler g} (f : Slot g → Slot g)
    (hChange : ∀ s i, (change s i).board = s.board.set i (f (s.board.slot i)))
    (hTwice : ∀ x, f (f x) = f x) (steps : List g.Index) :
    (steps.foldl change s).board =
      { s.board with slot := fun j => if j ∈ steps then f (s.board.slot j) else s.board.slot j } := by
  induction steps generalizing s with
  | nil => rfl
  | cons k rest ih =>
    rw [List.foldl_cons, ih, hChange]
    refine Board.ext (funext fun j => ?_) rfl
    by_cases hk : k = j
    · subst hk
      by_cases hRest : k ∈ rest
      · simp [hRest, hTwice]
      · simp [hRest]
    · simp [hk, Ne.symm hk]

theorem board_resetBody (loop : g.Index) :
    (s.resetBody loop).board = s.board.mapBody loop Slot.cleared :=
  board_foldl s Slot.cleared board_resetMember Slot.cleared_cleared _

theorem board_abandonLoop (loop : g.Index) :
    (s.abandonLoop loop).board =
      (s.board.set loop { s.board.slot loop with frame := none }).mapBody loop
        Slot.abandoned := by
  rw [abandonLoop, board_foldl _ Slot.abandoned board_abandonMember Slot.abandoned_abandoned, board_setFrame]
  rfl

/-! ## Changes in several steps -/

theorem board_completeLoop (loop : g.Index) (iterations : List Iteration) :
    (s.completeLoop loop iterations).board = s.board.set loop
      { s.board.slot loop with
        status := .completed, error := none, listed := false, frame := none } := by
  rw [completeLoop, board_complete, board_setIterations, board_setFrame, Board.set_set]
  simp only [Board.slot_set, if_true]

theorem board_failRun (stepId : Option String) (message : String) :
    (s.failRun stepId message).board = s.board.setRun .failed := rfl

theorem board_request (r : Request g) : (s.request r).board = s.board.ask r := rfl

omit s i in
/-- A step is put off only as its policy allows, for as long as that says. -/
theorem eq_of_retryLater? {s s' : Scheduler g} {i : g.Index} {error : StepError}
    (h : s.retryLater? i error = some s') :
    error.isRetryable = true ∧ (g.step i).policy.allows (s.controlOf i).retries = true ∧
      s' = ((s.mapState fun st => st.mapResult i fun r =>
        { r with
          retryDelays := r.retryDelays ++ [(g.step i).policy.delay (s.controlOf i).retries]
          error := some error
          status := .pending }).mapControl i fun c =>
        { c with retries := (s.controlOf i).retries + 1, waiting := true }).request
          (.wake i ((g.step i).policy.delay (s.controlOf i).retries)) := by
  unfold retryLater? at h
  simp only [Option.ite_none_right_eq_some, Option.some.injEq, Bool.and_eq_true] at h
  obtain ⟨⟨hRetryable, hAllowed⟩, rfl⟩ := h
  exact ⟨hRetryable, hAllowed, rfl⟩

theorem board_retryLater? {s' : Scheduler g} {error : StepError}
    (hRetry : s.retryLater? i error = some s') :
    ∃ delay, s'.board =
      (s.board.set i
        { s.board.slot i with
          status := .pending, error := some error, waiting := true }).ask (.wake i delay) := by
  obtain ⟨-, -, rfl⟩ := eq_of_retryLater? hRetry
  refine ⟨(g.step i).policy.delay (s.controlOf i).retries, ?_⟩
  rw [board_request, board_setRetriesWaiting, board_mapResult, Board.set_set]
  simp only [Board.slot_set, if_true]
  rfl

/-- The call of a step with an input of its own. -/
def invocation (own : Dict Json) : Invocation :=
  { runId := s.state.runId
    stepId := g.idOf i
    kind := g.kindOf i
    input :=
      match (s.board.slot i).activation with
      | some a => Dict.insertAll own (failureInput g a)
      | none => own
    config := (g.step i).config
    attempt := (s.state.result i).attempt }

theorem board_dispatch {own : Dict Json}
    (hInput : resolveInput (s.dataContext i) (g.step i).inputMapping = .ok own) :
    (s.dispatch i).board = s.board.placeCall i (s.lastToken + 1) (s.invocation i own)
      ((g.step i).timeout <|> s.stepTimeout) := by
  simp only [dispatch, hInput]
  rw [board_request, board_setCall]
  rfl

/-- What a recovery comes to: each action decides in its own way about the step that has failed. -/
inductive Recovers (s : Scheduler g) (handler : g.Index) (a : Activation g) : Scheduler g → Prop
  | unset (hAction : g.recovery? handler = none) : Recovers s handler a s
  | skipped (hAction : g.recovery? handler = some .continueRun) :
      Recovers s handler a ((s.skip a.failed).markRecovered a.failed handler)
  | restarted (hAction : g.recovery? handler = some .retry) :
      Recovers s handler a ((s.restart a.failed).markRecovered a.failed handler)
  | substituted {value} (hAction : g.recovery? handler = some .fallback) :
      Recovers s handler a ((s.substitute a.failed value).markRecovered a.failed handler)
  | stopped {message} (hAction : g.recovery? handler = some .stop) :
      Recovers s handler a (s.failRun (some (g.idOf a.failed)) message)

theorem recovers (handler : g.Index) (a : Activation g) :
    s.Recovers handler a (s.applyRecovery handler a) := by
  unfold applyRecovery
  split
  · rename_i hNone
    exact .unset (by rw [Graph.recovery?, hNone, Option.map_none])
  · rename_i c hSome
    have hAction : g.recovery? handler = some c.recoveryAction := by
      rw [Graph.recovery?, hSome, Option.map_some]
    cases hCase : c.recoveryAction with
    | continueRun => exact .skipped (hCase ▸ hAction)
    | retry => exact .restarted (hCase ▸ hAction)
    | fallback => exact .substituted (hCase ▸ hAction)
    | stop => exact .stopped (hCase ▸ hAction)

theorem board_applyRecovery (handler : g.Index) (a : Activation g) :
    (s.applyRecovery handler a).board =
      (s.board.set a.failed
        ((s.board.slot a.failed).recovered (g.recovery? handler) (g.idOf handler))).setRun
          (if g.recovery? handler = some .stop then .failed else s.board.desk.status) := by
  have hRecovers := s.recovers handler a
  generalize s.applyRecovery handler a = t at hRecovers
  cases hRecovers with
  | unset hAction =>
    simp only [hAction, Slot.recovered, Board.set_self]
    rfl
  | skipped hAction =>
    simp only [hAction, board_markRecovered, board_skip, Board.set_set, Board.slot_set, if_true]
    rfl
  | restarted hAction =>
    simp only [hAction, board_markRecovered, board_restart, Board.set_set, Board.slot_set, if_true]
    rfl
  | substituted hAction =>
    simp only [hAction, board_markRecovered, board_substitute, Board.set_set, Board.slot_set,
      if_true]
    rfl
  | stopped hAction =>
    rw [board_failRun]
    simp only [hAction, Slot.recovered, Board.set_self, if_true]

end Scheduler

end Workflow

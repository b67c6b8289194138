/-
Workflow.Proofs.Run.Record — what the changes of a run do to its records.

The record of a step is its result and what the scheduler remembers of it
beside that. Every change of a run changes the records of a few steps and
leaves the others as they are.

* `Scheduler.record` — the record of a step.
* `result_resetBody`, `controlOf_resetBody` — a body as if it had never run.
* `record_failStep`, `record_startStep`, `record_completeCall` — which records
  stay as they are when a step fails, starts or comes to its end.
* `Scheduler.Attempt` — what the start of a step comes to.
* `Move.record_of_closed` — what is settled for good keeps its record.
-/
import Workflow.Proofs.Run.Duty

namespace Workflow

/-- Whether neither the start nor a failure of a step is a matter for another one: it is no handler
of the step, in no body with it and not its loop, and it does not handle failures of that loop. -/
structure Graph.Apart (g : Graph) (i j : g.Index) : Prop where
  ne : i ≠ j
  handler : j ∉ g.handlersOf i
  body : j ∉ g.body i
  loop : ∀ loop, g.owner? i = some loop → loop ≠ j ∧ j ∉ g.body loop ∧ j ∉ g.handlersOf loop

namespace Scheduler

variable {g : Graph} (s : Scheduler g) (i j : g.Index)

/-- What a run knows of a step: its result and what is remembered beside it. -/
def record : StepResult × Control g := (s.state.result i, s.controlOf i)

/-! ## Changes of one step -/

@[simp, grind =] theorem controlOf_mapControl (f : Control g → Control g) :
    (s.mapControl i f).controlOf j = if i = j then f (s.controlOf i) else s.controlOf j :=
  PerStep.get_update _ _ _ _

@[simp, grind =] theorem state_mapControl (f : Control g → Control g) :
    (s.mapControl i f).state = s.state := rfl

@[simp, grind =] theorem now_mapControl (f : Control g → Control g) :
    (s.mapControl i f).now = s.now := rfl

@[simp, grind =] theorem controlOf_mapState (f : RunState g → RunState g) :
    (s.mapState f).controlOf j = s.controlOf j := rfl

@[simp, grind =] theorem state_mapState (f : RunState g → RunState g) :
    (s.mapState f).state = f s.state := rfl

/-- A change of the result of one step. -/
theorem result_of_update (st : RunState g) (f : StepResult → StepResult) {st' : RunState g}
    (h : st'.results = st.results.update i f) :
    st'.result j = if i = j then f (st.result i) else st.result j := by
  unfold RunState.result
  rw [h, PerStep.get_update]

@[simp, grind =] theorem result_mapResult (st : RunState g) (f : StepResult → StepResult) :
    (st.mapResult i f).result j = if i = j then f (st.result i) else st.result j :=
  result_of_update i j st f rfl

@[simp, grind =] theorem result_setStatus (status : StepStatus) :
    (s.setStatus i status).state.result j =
      if i = j then { s.state.result i with status } else s.state.result j :=
  result_of_update i j s.state (fun r => { r with status }) rfl

@[simp, grind =] theorem controlOf_setStatus (status : StepStatus) :
    (s.setStatus i status).controlOf j = s.controlOf j := rfl

@[simp, grind =] theorem result_begin :
    (s.begin i).state.result j =
      if i = j then (s.state.result i).start s.now else s.state.result j :=
  result_of_update i j s.state (fun r => r.start s.now) rfl

@[simp, grind =] theorem controlOf_begin : (s.begin i).controlOf j = s.controlOf j := rfl

@[simp, grind =] theorem result_complete (output : Json) :
    (s.complete i output).state.result j =
      if i = j then (s.state.result i).complete s.now output else s.state.result j :=
  result_of_update i j s.state (fun r => r.complete s.now output) rfl

@[simp, grind =] theorem controlOf_complete (output : Json) :
    (s.complete i output).controlOf j = s.controlOf j := rfl

@[simp, grind =] theorem result_skip :
    (s.skip i).state.result j =
      if i = j then (s.state.result i).skip s.now else s.state.result j :=
  result_of_update i j s.state (fun r => r.skip s.now) rfl

@[simp, grind =] theorem controlOf_skip : (s.skip i).controlOf j = s.controlOf j := rfl

@[simp, grind =] theorem result_recordFailure (error : StepError) :
    (s.recordFailure i error).state.result j =
      if i = j then (s.state.result i).fail s.now error else s.state.result j :=
  result_of_update i j s.state (fun r => r.fail s.now error) rfl

@[simp, grind =] theorem controlOf_recordFailure (error : StepError) :
    (s.recordFailure i error).controlOf j = s.controlOf j := rfl

@[simp, grind =] theorem result_markRecovered (handler : g.Index) :
    (s.markRecovered i handler).state.result j =
      if i = j then { s.state.result i with recoveredBy := some (g.idOf handler) }
      else s.state.result j :=
  result_of_update i j s.state (fun r => { r with recoveredBy := some (g.idOf handler) }) rfl

@[simp, grind =] theorem controlOf_markRecovered (handler : g.Index) :
    (s.markRecovered i handler).controlOf j = s.controlOf j := rfl

@[simp, grind =] theorem result_restart :
    (s.restart i).state.result j =
      if i = j then
        { s.state.result i with status := .ready, attempt := 0, retryDelays := [] }
      else s.state.result j :=
  result_of_update i j s.state (fun r => { r with status := .ready, attempt := 0, retryDelays := [] }) rfl

@[simp, grind =] theorem controlOf_restart :
    (s.restart i).controlOf j =
      if i = j then { s.controlOf i with retries := 0 } else s.controlOf j :=
  PerStep.get_update _ _ _ _

@[simp, grind =] theorem result_failRun (stepId : Option String) (message : String) :
    (s.failRun stepId message).state.result j = s.state.result j := rfl

@[simp, grind =] theorem controlOf_failRun (stepId : Option String) (message : String) :
    (s.failRun stepId message).controlOf j = s.controlOf j := rfl

@[simp, grind =] theorem result_finish (status : RunStatus) :
    (s.finish status).state.result j = s.state.result j := rfl

@[simp, grind =] theorem controlOf_finish (status : RunStatus) :
    (s.finish status).controlOf j = s.controlOf j := rfl

@[simp, grind =] theorem result_substitute (value : Json) :
    (s.substitute i value).state.result j =
      if i = j then (s.state.result i).complete s.now value else s.state.result j := by
  unfold substitute
  dsimp only
  split <;> simp

/-- Only the decision of a condition is a matter of the value that is given after all. -/
theorem controlOf_substitute (value : Json) :
    ∃ branch, (s.substitute i value).controlOf j =
      if i = j then { s.controlOf i with branch } else s.controlOf j := by
  unfold substitute
  dsimp only
  split
  · rename_i taken _
    exact ⟨some taken, by simp⟩
  · refine ⟨(s.controlOf i).branch, ?_⟩
    simp only [controlOf_complete]
    split
    · rename_i h
      rw [h]
    · rfl

@[simp, grind =] theorem result_completeLoop (iterations : List Iteration) :
    (s.completeLoop i iterations).state.result j =
      if i = j then { s.state.result i with iterations }.complete s.now (loopOutput iterations)
      else s.state.result j := by
  unfold completeLoop
  simp only [result_complete, state_mapState, result_mapResult, state_mapControl]
  split <;> simp [mapState]

@[simp, grind =] theorem controlOf_completeLoop (iterations : List Iteration) :
    (s.completeLoop i iterations).controlOf j =
      if i = j then { s.controlOf i with frame := none } else s.controlOf j :=
  PerStep.get_update _ _ _ _

/-! ## Changes of a whole body -/

theorem result_resetMember :
    (s.resetMember i).state.result j =
      if i = j then (s.state.result i).reset else s.state.result j :=
  result_of_update i j s.state StepResult.reset rfl

theorem controlOf_resetMember :
    (s.resetMember i).controlOf j =
      if i = j then { s.controlOf i with retries := 0, branch := none } else s.controlOf j :=
  PerStep.get_update _ _ _ _

/-- A change of some steps one after the other, if it does not matter how often it is made. -/
theorem get_foldl {α : Type} (view : Scheduler g → g.Index → α) (f : α → α)
    {change : Scheduler g → g.Index → Scheduler g}
    (hChange : ∀ s i j, view (change s i) j = if i = j then f (view s i) else view s j)
    (hTwice : ∀ x, f (f x) = f x) (steps : List g.Index) :
    view (steps.foldl change s) j = if j ∈ steps then f (view s j) else view s j := by
  induction steps generalizing s with
  | nil => simp
  | cons k rest ih =>
    rw [List.foldl_cons, ih, hChange]
    by_cases hk : k = j
    · subst hk
      by_cases hRest : k ∈ rest <;> simp [hRest, hTwice]
    · simp [hk, Ne.symm hk]

/-- The body of a loop has no results as if it had never run. -/
@[simp, grind =] theorem result_resetBody (loop : g.Index) :
    (s.resetBody loop).state.result j =
      if j ∈ g.body loop then (s.state.result j).reset else s.state.result j :=
  get_foldl s j (fun s i => s.state.result i) StepResult.reset result_resetMember (fun _ => rfl) _

@[simp, grind =] theorem controlOf_resetBody (loop : g.Index) :
    (s.resetBody loop).controlOf j =
      if j ∈ g.body loop then { s.controlOf j with retries := 0, branch := none }
      else s.controlOf j :=
  get_foldl s j controlOf (fun c => { c with retries := 0, branch := none }) controlOf_resetMember
    (fun _ => rfl) _

/-! ## Records that stay as they are -/

section Frame

variable {s} {i j}

theorem record_mapControl {f : Control g → Control g} (h : i ≠ j) :
    (s.mapControl i f).record j = s.record j := by
  simp [record, h]

theorem record_mapResult {f : StepResult → StepResult} (h : i ≠ j) :
    (s.mapState fun st => st.mapResult i f).record j = s.record j := by
  simp [record, h]

theorem record_request (r : Request g) : (s.request r).record j = s.record j := rfl

theorem record_setStatus {status : StepStatus} (h : i ≠ j) :
    (s.setStatus i status).record j = s.record j := by
  simp [record, h]

theorem record_begin (h : i ≠ j) : (s.begin i).record j = s.record j := by
  simp [record, h]

theorem record_complete {output : Json} (h : i ≠ j) :
    (s.complete i output).record j = s.record j := by
  simp [record, h]

theorem record_skip (h : i ≠ j) : (s.skip i).record j = s.record j := by
  simp [record, h]

theorem record_recordFailure {error : StepError} (h : i ≠ j) :
    (s.recordFailure i error).record j = s.record j := by
  simp [record, h]

theorem record_markRecovered {handler : g.Index} (h : i ≠ j) :
    (s.markRecovered i handler).record j = s.record j := by
  simp [record, h]

theorem record_restart (h : i ≠ j) : (s.restart i).record j = s.record j := by
  simp [record, h]

theorem record_substitute {value : Json} (h : i ≠ j) :
    (s.substitute i value).record j = s.record j := by
  obtain ⟨branch, hControl⟩ := controlOf_substitute s i j value
  simp [record, hControl, h]

theorem record_completeLoop {iterations : List Iteration} (h : i ≠ j) :
    (s.completeLoop i iterations).record j = s.record j := by
  simp [record, h]

theorem record_resetBody {loop : g.Index} (h : j ∉ g.body loop) :
    (s.resetBody loop).record j = s.record j := by
  simp [record, h]

theorem record_abandonMember (h : i ≠ j) : (s.abandonMember i).record j = s.record j := by
  unfold abandonMember
  dsimp only
  split
  · exact record_mapControl h
  · exact (record_skip h).trans (record_mapControl h)

theorem record_abandonLoop {loop : g.Index} (hLoop : loop ≠ j) (hBody : j ∉ g.body loop) :
    (s.abandonLoop loop).record j = s.record j := by
  have hFold : ∀ (steps : List g.Index) (t : Scheduler g), j ∉ steps →
      (steps.foldl abandonMember t).record j = t.record j := by
    intro steps
    induction steps with
    | nil => exact fun _ _ => rfl
    | cons k rest ih =>
      intro t hNot
      rw [List.foldl_cons, ih _ fun h => hNot (List.mem_cons_of_mem k h)]
      exact record_abandonMember fun h => hNot (h ▸ List.mem_cons_self)
  exact (hFold _ _ hBody).trans (record_mapControl hLoop)

theorem record_retryLater? {s' : Scheduler g} {error : StepError}
    (hRetry : s.retryLater? i error = some s') (h : i ≠ j) : s'.record j = s.record j := by
  obtain ⟨-, -, rfl⟩ := eq_of_retryLater? hRetry
  exact (record_request _).trans ((record_mapControl h).trans (record_mapResult h))

theorem record_applyRecovery {handler : g.Index} {a : Activation g} (h : a.failed ≠ j) :
    (s.applyRecovery handler a).record j = s.record j := by
  have hRecovers := s.recovers handler a
  generalize s.applyRecovery handler a = t at hRecovers
  cases hRecovers with
  | unset | stopped => rfl
  | skipped => exact (record_markRecovered h).trans (record_skip h)
  | restarted => exact (record_markRecovered h).trans (record_restart h)
  | substituted => exact (record_markRecovered h).trans (record_substitute h)

/-- A failure for good changes the record of a handler at most. -/
theorem record_route {error : StepError} (h : j ∉ g.handlersOf i) :
    (s.route i error).record j = s.record j := by
  unfold route
  split
  · rename_i handler hFind
    have hNe : handler ≠ j := by
      rintro rfl
      exact h (List.mem_of_find?_eq_some hFind)
    exact (record_setStatus hNe).trans (record_mapControl hNe)
  · rfl

theorem record_failOuter {error : StepError} (hNe : i ≠ j) (hGuards : j ∉ g.handlersOf i) :
    (s.failOuter i error).record j = s.record j := by
  unfold failOuter
  split
  · rename_i hRetry
    exact record_retryLater? hRetry hNe
  · exact (record_route hGuards).trans (record_recordFailure hNe)

/-- A failure changes the records of the step, of its loop with the body, and of the handlers of the
two. -/
theorem record_failStep {error : StepError} (h : g.Apart i j) :
    (s.failStep i error).record j = s.record j := by
  unfold failStep
  split
  · exact record_failOuter h.ne h.handler
  · rename_i loop hOwner
    obtain ⟨hLoop, hBody, hHandler⟩ := h.loop loop hOwner
    split
    · rename_i hRetry
      exact record_retryLater? hRetry h.ne
    · exact (record_failOuter hLoop hHandler).trans
        ((record_abandonLoop hLoop hBody).trans (record_recordFailure h.ne))

theorem record_dispatch_of_ok {own : Dict Json}
    (hInput : resolveInput (s.dataContext i) (g.step i).inputMapping = .ok own) (h : i ≠ j) :
    (s.dispatch i).record j = s.record j := by
  simp only [dispatch, hInput]
  exact (record_request _).trans (record_mapControl h)

theorem record_failStart {fault : StartFault} (h : g.Apart i j) :
    (s.failStart i fault).record j = s.record j := by
  cases fault with
  | crash => rfl
  | error e => exact record_failStep h

variable (s) (i) in
/-- What the start of a step comes to: the step cannot be prepared, or it is under way or through. -/
inductive Attempt : Prop
  | failed {t : Scheduler g} (fault : StartFault) (hStart : s.startStep i = t.failStart i fault)
      (hOthers : ∀ j, i ≠ j → t.record j = s.record j)
      (hControl : t.controlOf i = s.controlOf i) (hRunning : t.statusOf i = .running)
  | made (hOthers : ∀ j, i ≠ j → j ∉ g.body i → (s.startStep i).record j = s.record j)
      (hSelf : g.kindOf i ≠ .loop → (s.startStep i).statusOf i = .running ∨
        (s.startStep i).statusOf i = .completed ∧ ((s.startStep i).state.result i).output ≠ none)

variable (s) (i) in
theorem attempt : s.Attempt i := by
  have hBegun : ∀ j, i ≠ j → (s.begin i).record j = s.record j := fun j => record_begin
  have hRunning : (s.begin i).statusOf i = .running := by
    simp [statusOf, RunState.statusOf, StepResult.start]
  have hForget : ∀ j, i ≠ j → ((s.begin i).mapState fun st => st.mapResult i fun r =>
      { r with iterations := [] }).record j = s.record j :=
    fun j hj => (record_mapResult hj).trans (hBegun j hj)
  have hCompleted : ∀ (t : Scheduler g) output, (t.complete i output).statusOf i = .completed ∧
      ((t.complete i output).state.result i).output ≠ none := by
    simp [statusOf, RunState.statusOf, StepResult.complete]
  have hStarts := s.starts i
  generalize hStart : s.startStep i = t at hStarts
  cases hStarts with
  | failed => exact .failed _ hStart hBegun rfl hRunning
  | failedLoop =>
    refine .failed _ hStart hForget rfl ?_
    simp [statusOf, RunState.statusOf, StepResult.start]
  | completed =>
    refine .made (fun j hj _ => ?_) fun _ => .inr (hStart ▸ hCompleted _ _)
    rw [hStart]
    exact (record_complete hj).trans (hBegun j hj)
  | decided =>
    refine .made (fun j hj _ => ?_) fun _ => .inr (hStart ▸ hCompleted _ _)
    rw [hStart]
    exact (record_complete hj).trans ((record_mapControl hj).trans (hBegun j hj))
  | called _ _ hInput =>
    refine .made (fun j hj _ => ?_) fun _ => .inl ?_
    · rw [hStart]
      exact (record_dispatch_of_ok hInput hj).trans (hBegun j hj)
    · rw [hStart]
      simp only [dispatch, hInput]
      exact hRunning
  | emptyLoop hKind =>
    refine .made (fun j hj hBody => ?_) fun hOther => absurd hKind hOther
    rw [hStart]
    exact (record_complete hj).trans ((record_resetBody hBody).trans (hForget j hj))
  | openLoop hKind =>
    refine .made (fun j hj hBody => ?_) fun hOther => absurd hKind hOther
    rw [hStart]
    exact (record_mapControl hj).trans ((record_resetBody hBody).trans (hForget j hj))

/-- A start changes the records of the step and of those that its failure would change; the start of
a loop also those of its body. -/
theorem record_startStep (h : g.Apart i j) : (s.startStep i).record j = s.record j := by
  cases s.attempt i with
  | failed _ hStart hOthers =>
    rw [hStart]
    exact (record_failStart h).trans (hOthers j h.ne)
  | made hOthers => exact hOthers j h.ne h.body

theorem record_completeCall {output : Dict Json} (h : i ≠ j)
    (hNamed : ∀ a, (s.controlOf i).activation = some a → a.failed ≠ j) :
    (s.completeCall i output).record j = s.record j := by
  unfold completeCall
  dsimp only
  split
  · exact record_complete h
  · rename_i a hOwes
    exact (record_applyRecovery (hNamed a hOwes)).trans
      ((record_mapControl h).trans (record_complete h))

end Frame

/-- A command changes no record. -/
@[simp] theorem record_obey (c : Command) : (s.obey c).record i = s.record i := by
  cases hPaused : s.paused <;> cases c <;>
    simp [obey, hPaused, record, finish, mapState, RunState.finish, RunState.result, controlOf]

theorem record_conclude : s.conclude.record i = s.record i :=
  conclude_keeps (fun s => s.record i) (fun _ _ => rfl) (fun _ _ _ => rfl) s

/-! ## What is settled for good -/

section Closed

variable {s} {i} {hand hand' : Hand g} {s' : Scheduler g}

/-- No move changes the record of a step that is settled for good. -/
theorem Move.record_of_closed (hg : g.Sound) (h : Move hand s hand' s')
    (hCoherent : s.board.Coherent hand) (hClosed : s.board.Closed hand i) :
    s'.record i = s.record i := by
  obtain ⟨hOuter, hSettled, ⟨hWaiting, hCall, hFrame⟩, hHeld, hUnnamed⟩ := hClosed
  -- a move changes the records of a step that is not settled, of the one at hand, of a loop in a
  -- round with its body, or of a pending step; a closed step is none of them
  have hNe : ∀ k, ¬ (s.board.slot k).status.isSettled → k ≠ i := by
    rintro k hk rfl
    exact hk hSettled
  have hHand : ∀ k, hand.step? = some k → k ≠ i := by
    rintro k hk rfl
    exact hHeld hk
  have hLoop : ∀ loop frame, (s.board.slot loop).frame = some frame → loop ≠ i := by
    rintro loop frame hSome rfl
    rw [hFrame] at hSome
    cases hSome
  have hPending : ∀ k promotion, s.promotion? k = some promotion → k ≠ i := by
    intro k promotion hPromotion
    have hStatus : (s.board.slot k).status = .pending := (promotion?_some hPromotion).1
    exact hNe k (by simp [hStatus, StepStatus.isSettled])
  cases h with
  | promote hPromotion => exact record_setStatus (hPending _ _ hPromotion)
  | passOver hPromotion => exact record_skip (hPending _ _ hPromotion)
  | nextRound hRound =>
    exact (record_resetBody (hOuter _)).trans (record_mapControl (hLoop _ _ hRound))
  | lastRound hRound => exact record_completeLoop (hLoop _ _ hRound)
  | begin hReady _ => exact record_begin (hNe _ (by simp [hReady, StepStatus.isSettled]))
  | decide => exact record_mapControl (hHand _ rfl)
  | forget => exact record_mapResult (hHand _ rfl)
  | openLoop =>
    exact (record_mapControl (hHand _ rfl)).trans (record_resetBody (hOuter _))
  | emptyLoop => exact (record_complete (hHand _ rfl)).trans (record_resetBody (hOuter _))
  | call _ hInput => exact record_dispatch_of_ok hInput (hHand _ rfl)
  | crash => rfl
  | complete hStep => exact record_complete (hHand _ hStep)
  | recover hOwes =>
    exact (record_applyRecovery (hUnnamed _ _ hOwes)).trans
      ((record_mapControl (hHand _ rfl)).trans (record_complete (hHand _ rfl)))
  | retry hRetry => exact record_retryLater? hRetry (hHand _ rfl)
  | giveUp hStep hOwner hSpent =>
    rename_i k loop error
    have hMember := hg.owner_mem _ _ hOwner
    have hOther : loop ≠ i := by
      rintro rfl
      exact (hCoherent.loop_of_hand hStep hMember).1 hFrame
    exact (record_abandonLoop hOther (hOuter _)).trans (record_recordFailure (hHand _ hStep))
  | activate hStep _ _ _ _ hFree =>
    have hHandler := hNe _ (ne_true_of_eq_false (congrArg StepStatus.isSettled hFree))
    exact (record_setStatus hHandler).trans
      ((record_mapControl hHandler).trans (record_recordFailure (hHand _ hStep)))
  | failRun hStep => exact record_recordFailure (hHand _ hStep)

/-- Taking note of a message does not change it either. -/
theorem Receives.record_of_closed {m : Message g} (h : Receives s m hand s')
    (hClosed : s.board.Closed .free i) : s'.record i = s.record i := by
  obtain ⟨-, -, ⟨hWaiting, hCall, -⟩, -, -⟩ := hClosed
  cases h with
  | command => exact record_obey s i _
  | stale => rfl
  | ended hEnded =>
    refine record_mapControl (s := { s with running := s.running - 1 }) ?_
    rintro rfl
    rw [hCall] at hEnded
    cases hEnded
  | early => rfl
  | due hDue =>
    rename_i k
    have hNe : k ≠ i := by
      rintro rfl
      rw [hWaiting] at hDue
      cases hDue
    exact (record_setStatus hNe).trans (record_mapControl hNe)

end Closed

end Scheduler

end Workflow

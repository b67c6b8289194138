/-
Workflow.Proofs.Run.Tally — what a run counts and lists of a step.

Beside how a step stands, a run counts its attempts and retries, in three
places, and lists it among the completed or the failed steps. All of these
change together: whatever happens in a run, a step that handles no errors
takes one of a few steps, and the rest of what is counted and listed stays
as it is.

* `Tally`, `Tally.Step` — what is counted and listed of a step; what can
  become of it.
* `Move.tally_step`, `Receives.tally_step` — every move and every message
  takes one of these steps.
* `tally_enter` — before the first attempt nothing is counted or listed.
-/
import Workflow.Proofs.Run.Record

namespace Workflow

variable {g : Graph}

/-- What a run counts and lists of a step, and how the step stands. -/
@[ext] structure Tally where
  status : StepStatus
  error : Option StepError
  attempt : Nat
  retries : Nat
  delays : List Duration
  /-- Whether the step is listed as completed. -/
  completed : Bool
  /-- Whether the step is listed as failed. -/
  failed : Bool

namespace Tally

/-- What is counted and listed of a step with a result, some retries, and marks among the completed
and the failed steps. -/
def of (r : StepResult) (retries : Nat) (marks : Bool × Bool) : Tally :=
  ⟨r.status, r.error, r.attempt, retries, r.retryDelays, marks.1, marks.2⟩

/-- Nothing is counted or listed of a step. -/
def blank (status : StepStatus) : Tally := ⟨status, none, 0, 0, [], false, false⟩

/-- A step that gives an output. -/
def done (x : Tally) : Tally :=
  { x with status := .completed, error := none, completed := true, failed := false }

/-- A step that is passed over. -/
def skipped (x : Tally) : Tally := { x with status := .skipped, failed := false }

/-- A step that fails for good. -/
def failing (x : Tally) (error : StepError) : Tally :=
  { x with status := .failed, error := some error, failed := true }

/-- A step that begins anew after a failure. -/
def anew (x : Tally) : Tally :=
  { x with status := .ready, attempt := 0, retries := 0, delays := [], failed := false }

/-- A step of a body that is given up. -/
def abandoned (x : Tally) : Tally := if x.status.isFinal then x else x.skipped

/-- What can become of what is counted and listed of a step with a policy. -/
inductive Step (policy : RetryPolicy) (x : Tally) : Tally → Prop
  | same : Step policy x x
  | ready (h : x.status = .pending) : Step policy x { x with status := .ready }
  | skip (h : x.status ≠ .completed) : Step policy x x.skipped
  | begin (h : x.status = .ready) :
      Step policy x { x with status := .running, attempt := x.attempt + 1 }
  | complete (h : x.status = .running ∨ x.status = .failed) : Step policy x x.done
  | retry {error : StepError} (h : x.status = .running) (hAllowed : policy.allows x.retries = true) :
      Step policy x { x with
        status := .pending
        error := some error
        retries := x.retries + 1
        delays := x.delays ++ [policy.delay x.retries] }
  | fail {error : StepError} (h : x.status = .running)
      (hSpent : error.isRetryable = true → policy.allows x.retries = false) :
      Step policy x (x.failing error)
  | reset : Step policy x (blank .pending)
  | restart (h : x.status = .failed) : Step policy x x.anew

theorem abandoned_of_final {x : Tally} (h : x.status.isFinal = true) : x.abandoned = x := if_pos h

theorem abandoned_of_open {x : Tally} (h : ¬ x.status.isFinal = true) : x.abandoned = x.skipped :=
  if_neg h

/-- A step of a body that is given up is skipped, unless it is through. -/
theorem Step.of_abandoned {policy : RetryPolicy} (x : Tally) : Step policy x x.abandoned := by
  by_cases h : x.status.isFinal = true
  · rw [abandoned_of_final h]
    exact .same
  · rw [abandoned_of_open h]
    refine .skip fun hCompleted => h ?_
    rw [hCompleted]
    rfl

theorem abandoned_abandoned (x : Tally) : x.abandoned.abandoned = x.abandoned := by
  obtain ⟨status⟩ := x
  cases status <;> rfl

theorem Step.of_eq {policy : RetryPolicy} {x y : Tally} (h : y = x) : Step policy x y := h ▸ .same

/-- A change of one step is no change of the others. -/
theorem Step.ite {policy : RetryPolicy} {c : Prop} [Decidable c] {x y : Tally}
    (h : c → Step policy x y) : Step policy x (if c then y else x) := by
  split
  · exact h ‹_›
  · exact .same

@[simp] theorem attempt_abandoned (x : Tally) : x.abandoned.attempt = x.attempt := by
  unfold abandoned
  split <;> rfl

end Tally

namespace Scheduler

/-! ## Changes of what is counted and listed -/

/-- Whether a step is listed among the completed and among the failed ones. -/
def marks (s : Scheduler g) (i : g.Index) : Bool × Bool :=
  (s.state.completed.get i, s.state.failed.get i)

/-- What is counted and listed of a step. -/
def tally (s : Scheduler g) (i : g.Index) : Tally :=
  .of (s.state.result i) (s.controlOf i).retries (s.marks i)

section Equations

variable (s : Scheduler g) (k i : g.Index)

/-- A change of the list of failed steps. -/
theorem marks_of_failed {s s' : Scheduler g} {k i : g.Index} {mark : Bool}
    (hCompleted : s'.state.completed = s.state.completed)
    (hFailed : s'.state.failed = s.state.failed.update k fun _ => mark) :
    s'.marks i = if k = i then ((s.marks k).1, mark) else s.marks i := by
  unfold marks
  rw [hCompleted, hFailed, PerStep.get_update]
  split
  · rename_i h
    rw [h]
  · rfl

/-- A change of both lists. -/
theorem marks_of_both {s s' : Scheduler g} {k i : g.Index} {mark : Bool}
    (hCompleted : s'.state.completed = s.state.completed.update k fun _ => mark)
    (hFailed : s'.state.failed = s.state.failed.update k fun _ => false) :
    s'.marks i = if k = i then (mark, false) else s.marks i := by
  unfold marks
  rw [hCompleted, hFailed, PerStep.get_update, PerStep.get_update]
  split <;> rfl

theorem marks_same : s.marks i = if k = i then s.marks k else s.marks i := by
  split
  · rename_i h
    rw [h]
  · rfl

theorem marks_resetBody (loop : g.Index) :
    (s.resetBody loop).marks i = if i ∈ g.body loop then (false, false) else s.marks i :=
  get_foldl s i marks (fun _ => (false, false)) (fun _ _ _ => marks_of_both rfl rfl) (fun _ => rfl) _

/-- A change of the result and the marks of one step that leaves its retries as they are. -/
theorem tally_of_result {s s' : Scheduler g} {k i : g.Index} {r : StepResult} {b : Bool × Bool}
    (hResult : s'.state.result i = if k = i then r else s.state.result i)
    (hRetries : (s'.controlOf i).retries = (s.controlOf i).retries)
    (hMarks : s'.marks i = if k = i then b else s.marks i) :
    s'.tally i = if k = i then .of r (s.controlOf k).retries b else s.tally i := by
  unfold tally
  rw [hResult, hRetries, hMarks]
  split
  · rename_i h
    rw [h]
  · rfl

/-- A change of what is remembered of a step that keeps its retries. -/
theorem tally_mapControl {f : Control g → Control g} (hRetries : ∀ c, (f c).retries = c.retries) :
    (s.mapControl k f).tally i = s.tally i := by
  have hKept : ((s.mapControl k f).controlOf i).retries = (s.controlOf i).retries := by
    rw [controlOf_mapControl]
    split
    · rename_i h
      rw [hRetries, h]
    · rfl
  unfold tally
  rw [hKept]
  rfl

theorem tally_setFrame (frame : Option Frame) :
    (s.mapControl k fun c => { c with frame }).tally i = s.tally i :=
  tally_mapControl s k i fun _ => rfl

theorem tally_setActivation (activation : Option (Activation g)) :
    (s.mapControl k fun c => { c with activation }).tally i = s.tally i :=
  tally_mapControl s k i fun _ => rfl

theorem tally_setStatus (status : StepStatus) :
    (s.setStatus k status).tally i = if k = i then { s.tally k with status } else s.tally i :=
  tally_of_result (result_setStatus s k i status) rfl (marks_same s k i)

theorem tally_begin :
    (s.begin k).tally i =
      if k = i then { s.tally k with status := .running, attempt := (s.tally k).attempt + 1 }
      else s.tally i :=
  tally_of_result (result_begin s k i) rfl (marks_same s k i)

theorem tally_complete (output : Json) :
    (s.complete k output).tally i = if k = i then (s.tally k).done else s.tally i :=
  tally_of_result (result_complete s k i output) rfl (marks_of_both rfl rfl)

theorem tally_skip : (s.skip k).tally i = if k = i then (s.tally k).skipped else s.tally i :=
  tally_of_result (result_skip s k i) rfl (marks_of_failed rfl rfl)

theorem tally_recordFailure (error : StepError) :
    (s.recordFailure k error).tally i =
      if k = i then (s.tally k).failing error else s.tally i :=
  tally_of_result (result_recordFailure s k i error) rfl (marks_of_failed rfl rfl)

/-- A change of the result of a step that changes nothing that is counted. -/
theorem tally_of_same {s s' : Scheduler g} {k i : g.Index} {r : StepResult}
    (hResult : s'.state.result i = if k = i then r else s.state.result i)
    (hControl : s'.controlOf i = s.controlOf i) (hMarks : s'.marks i = s.marks i)
    (hSame : Tally.of r (s.controlOf k).retries (s.marks k) = s.tally k) : s'.tally i = s.tally i := by
  rw [tally_of_result hResult (congrArg Control.retries hControl) (hMarks.trans (marks_same s k i)),
    hSame]
  split
  · rename_i h
    rw [h]
  · rfl

theorem tally_forget :
    (s.mapState fun st => st.mapResult k fun r => { r with iterations := [] }).tally i = s.tally i :=
  tally_of_same (result_mapResult k i s.state fun r => { r with iterations := [] }) rfl rfl rfl

theorem tally_markRecovered (handler : g.Index) :
    (s.markRecovered k handler).tally i = s.tally i :=
  tally_of_same (result_markRecovered s k i handler) rfl rfl rfl

theorem tally_restart : (s.restart k).tally i = if k = i then (s.tally k).anew else s.tally i := by
  have hMarks : (s.restart k).marks i = if k = i then ((s.marks k).1, false) else s.marks i :=
    marks_of_failed rfl rfl
  unfold tally
  rw [result_restart, controlOf_restart, hMarks]
  split <;> rfl

theorem tally_substitute (value : Json) :
    (s.substitute k value).tally i = if k = i then (s.tally k).done else s.tally i := by
  have hMarks : (s.substitute k value).marks i = if k = i then (true, false) else s.marks i := by
    unfold substitute
    dsimp only
    split <;> exact marks_of_both rfl rfl
  have hRetries : ((s.substitute k value).controlOf i).retries = (s.controlOf i).retries := by
    obtain ⟨branch, hControl⟩ := controlOf_substitute s k i value
    rw [hControl]
    split
    · rename_i h
      rw [h]
    · rfl
  exact tally_of_result (result_substitute s k i value) hRetries hMarks

theorem tally_completeLoop (iterations : List Iteration) :
    (s.completeLoop k iterations).tally i = if k = i then (s.tally k).done else s.tally i := by
  have hRetries : ((s.completeLoop k iterations).controlOf i).retries = (s.controlOf i).retries := by
    rw [controlOf_completeLoop]
    split
    · rename_i h
      rw [h]
    · rfl
  exact tally_of_result (result_completeLoop s k i iterations) hRetries (marks_of_both rfl rfl)

theorem tally_resetBody (loop : g.Index) :
    (s.resetBody loop).tally i = if i ∈ g.body loop then .blank .pending else s.tally i := by
  unfold tally
  rw [result_resetBody, controlOf_resetBody, marks_resetBody]
  split <;> rfl

theorem tally_abandonLoop (loop : g.Index) :
    (s.abandonLoop loop).tally i =
      if i ∈ g.body loop then (s.tally i).abandoned else s.tally i := by
  have hMember : ∀ (t : Scheduler g) k i,
      (t.abandonMember k).tally i = if k = i then (t.tally k).abandoned else t.tally i := by
    intro t k i
    have hForget : ∀ j, (t.mapControl k fun c => { c with waiting := false, call := none }).tally j =
        t.tally j := fun j => tally_mapControl t k j fun _ => rfl
    unfold abandonMember
    dsimp only
    rw [← hForget k, ← hForget i]
    split
    · rename_i hFinal
      rw [Tally.abandoned_of_final hFinal]
      split
      · rename_i h
        rw [h]
      · rfl
    · rename_i hOpen
      rw [tally_skip, Tally.abandoned_of_open hOpen]
  rw [← tally_setFrame s loop i none]
  exact get_foldl _ i tally Tally.abandoned hMember Tally.abandoned_abandoned (g.body loop)

end Equations

theorem tally_retryLater? {s s' : Scheduler g} {k i : g.Index} {error : StepError}
    (h : s.retryLater? k error = some s') : (g.step k).policy.allows (s.tally k).retries = true ∧
      s'.tally i = if k = i then
        { s.tally k with
          status := .pending
          error := some error
          retries := (s.tally k).retries + 1
          delays := (s.tally k).delays ++ [(g.step k).policy.delay (s.tally k).retries] }
        else s.tally i := by
  obtain ⟨-, hAllowed, rfl⟩ := eq_of_retryLater? h
  refine ⟨hAllowed, ?_⟩
  have hAsked : ∀ (t : Scheduler g) r, (t.request r).tally i = t.tally i := fun _ _ => rfl
  rw [hAsked, tally, controlOf_mapControl, state_mapControl, state_mapState, result_mapResult]
  by_cases hSame : k = i
  · subst hSame
    simp only [if_true]
    rfl
  · simp only [hSame, if_false]
    rfl

theorem allows_of_retryLater? {s : Scheduler g} {k : g.Index} {error : StepError}
    (h : s.retryLater? k error = none) (hRetryable : error.isRetryable = true) :
    (g.step k).policy.allows (s.tally k).retries = false := by
  unfold retryLater? at h
  simp only [hRetryable, Bool.true_and, ite_eq_right_iff, reduceCtorEq, imp_false,
    Bool.not_eq_true] at h
  exact h

/-! ## Moves and messages -/

variable {hand hand' : Hand g} {s s' : Scheduler g} {i : g.Index}

/-- A recovery completes or skips the step that has failed, or the step begins anew. -/
theorem tally_step_applyRecovery {handler : g.Index} {a : Activation g}
    (hFailed : a.failed = i → (s.tally i).status = .failed) :
    Tally.Step (g.step i).policy (s.tally i) ((s.applyRecovery handler a).tally i) := by
  have hRecovers := s.recovers handler a
  generalize s.applyRecovery handler a = t at hRecovers
  cases hRecovers with
  | unset | stopped => exact .same
  | skipped =>
    rw [tally_markRecovered, tally_skip]
    refine .ite fun h => h ▸ .skip ?_
    rw [h, hFailed h]
    simp
  | restarted =>
    rw [tally_markRecovered, tally_restart]
    exact .ite fun h => h ▸ .restart (h ▸ hFailed h)
  | substituted =>
    rw [tally_markRecovered, tally_substitute]
    exact .ite fun h => h ▸ .complete (.inr (h ▸ hFailed h))

/-- What is counted and listed of a step that handles no errors changes by one step with every
move. -/
theorem Move.tally_step (hg : g.Sound) (hMove : Move hand s hand' s')
    (hCoherent : s.board.Coherent hand) (hKind : g.kindOf i ≠ .errorHandler) :
    Tally.Step (g.step i).policy (s.tally i) (s'.tally i) := by
  have hPlain := hCoherent.plain i (hg.not_guards_of_kind hKind)
  have hHeld : ∀ k, hand.step? = some k → k = i → (s.tally k).status = .running := by
    rintro k hHand rfl
    exact (hPlain.hand hHand).1
  have hFail : ∀ k error, hand.step? = some k → s.retryLater? k error = none →
      Tally.Step (g.step i).policy (s.tally i) ((s.recordFailure k error).tally i) := by
    intro k error hHand hSpent
    rw [tally_recordFailure]
    refine .ite fun h => ?_
    have hRunning := hHeld k hHand h
    subst h
    exact .fail hRunning (allows_of_retryLater? hSpent)
  have hReset : ∀ loop, Tally.Step (g.step i).policy (s.tally i) ((s.resetBody loop).tally i) := by
    intro loop
    rw [tally_resetBody]
    exact .ite fun _ => .reset
  -- the equation of each move gives the tally afterwards; if it is that of another step, nothing has
  -- been counted
  cases hMove with
  | promote hPromotion =>
    rw [tally_setStatus]
    exact .ite fun h => h ▸ .ready (promotion?_some hPromotion).1
  | passOver hPromotion =>
    rw [tally_skip]
    refine .ite fun h => h ▸ .skip ?_
    have hPending : (s.tally _).status = .pending := (promotion?_some hPromotion).1
    simp [hPending]
  | nextRound =>
    rename_i loop frame iterations _ _ _
    rw [tally_resetBody, tally_setFrame, ← tally_resetBody]
    exact hReset loop
  | lastRound hFrame =>
    rename_i loop frame iterations _
    rw [tally_completeLoop]
    exact .ite fun h => h ▸ .complete (.inl (hCoherent.frame loop frame hFrame).2.1)
  | begin hReady =>
    rw [tally_begin]
    exact .ite fun h => h ▸ .begin hReady
  | decide => exact .of_eq (tally_mapControl _ _ _ fun _ => rfl)
  | forget => exact .of_eq (tally_forget _ _ _)
  | openLoop =>
    rw [tally_setFrame]
    exact hReset _
  | emptyLoop =>
    rename_i loop output _
    rw [tally_complete, tally_resetBody, if_neg (hg.not_mem_own_body loop)]
    by_cases h : loop = i
    · have hRunning := hHeld loop rfl h
      subst h
      rw [if_pos rfl]
      exact .complete (.inl hRunning)
    · rw [if_neg h]
      exact hReset loop
  | call _ hInput =>
    rename_i k own _
    simp only [dispatch, hInput]
    exact .of_eq (tally_mapControl { s with lastToken := s.lastToken + 1, running := s.running + 1 }
      k i fun _ => rfl)
  | crash => exact .same
  | complete hHand =>
    rw [tally_complete]
    exact .ite fun h => h ▸ .complete (.inl (hHeld _ hHand h))
  | recover hOwes =>
    rename_i k a output
    have hNe : k ≠ i := by
      rintro rfl
      exact hKind (hg.catch_handler _ (hCoherent.edge k a hOwes).1 rfl)
    have hSame : (((s.complete k output).mapControl k fun c =>
        { c with activation := none }).tally i) = s.tally i := by
      rw [tally_setActivation, tally_complete, if_neg hNe]
    rw [← hSame]
    refine tally_step_applyRecovery fun hFailed => ?_
    rw [hSame]
    exact hPlain.named k a hOwes hFailed
  | retry hRetry =>
    rename_i k error
    obtain ⟨hAllowed, hTally⟩ := tally_retryLater? (i := i) hRetry
    rw [hTally]
    refine .ite fun h => ?_
    have hRunning := hHeld k rfl h
    subst h
    exact .retry hRunning hAllowed
  | giveUp hHand hOwner hSpent =>
    rename_i k loop error
    rw [tally_abandonLoop, tally_recordFailure]
    by_cases h : k = i
    · have hRunning := hHeld k hHand h
      subst h
      rw [if_pos (hg.owner_mem _ _ hOwner), if_pos rfl, Tally.abandoned_of_final rfl]
      exact .fail hRunning (allows_of_retryLater? hSpent)
    · rw [if_neg h]
      exact .ite fun _ => .of_abandoned _
  | activate hHand hOwner hGuards hConfig hNe hPending hSpent =>
    rename_i k handler error
    have hOther : handler ≠ i := by
      rintro rfl
      exact hKind (hg.catch_handler _ (Graph.mem_handlersOf_iff.mp hGuards) rfl)
    rw [tally_setStatus, if_neg hOther, tally_setActivation]
    exact hFail k error hHand hSpent
  | failRun hHand hOwner hSpent => exact hFail _ _ hHand hSpent

/-- A message makes a step ready at most, if its retry is due. -/
theorem Receives.tally_step {m : Message g} (hReceives : Receives s m hand s') (hg : g.Sound)
    (hCoherent : s.board.Coherent .free) (hKind : g.kindOf i ≠ .errorHandler) :
    Tally.Step (g.step i).policy (s.tally i) (s'.tally i) := by
  have hPlain := hCoherent.plain i (hg.not_guards_of_kind hKind)
  cases hReceives with
  | command =>
    rename_i c
    refine .of_eq ?_
    cases hPaused : s.paused <;> cases c <;> simp [obey, hPaused] <;> rfl
  | stale | early => exact .same
  | ended => exact .of_eq (tally_mapControl { s with running := s.running - 1 } _ i fun _ => rfl)
  | due hWaiting =>
    rename_i k
    have hForget : ∀ j, (s.mapControl k fun c => { c with waiting := false }).tally j = s.tally j :=
      fun j => tally_mapControl s k j fun _ => rfl
    rw [tally_setStatus, hForget k, hForget i]
    refine .ite fun h => ?_
    subst h
    exact .ready (hPlain.waiting hWaiting)

theorem tally_conclude (s : Scheduler g) (i : g.Index) : s.conclude.tally i = s.tally i :=
  conclude_keeps (fun s => s.tally i) (fun _ _ => rfl) (fun _ _ _ => rfl) s

theorem tally_of_fresh {s : Scheduler g} (hFresh : s.IsFresh) (i : g.Index) :
    s.tally i = .blank .pending := by
  obtain ⟨_, _, _, _, _, _, _, _, rfl⟩ := hFresh
  simp [tally, Tally.of, Tally.blank, marks, RunState.result, initial, RunState.initial, controlOf,
    Control.initial, StepResult.initial]

/-- Before its first attempt nothing is counted and listed of a step. -/
theorem tally_enter {s : Scheduler g} (hFresh : s.IsFresh) (i : g.Index) :
    ∃ status, (status = .pending ∨ status = .ready ∨ status = .skipped) ∧
      s.enter.tally i = .blank status := by
  have hSkip : ∀ (t : Scheduler g) k,
      (∃ status, (status = .pending ∨ status = .skipped) ∧ t.tally i = .blank status) →
      ∃ status, (status = .pending ∨ status = .skipped) ∧ (t.skip k).tally i = .blank status := by
    rintro t k ⟨status, hStatus, hTally⟩
    rw [tally_skip]
    by_cases h : k = i
    · subst h
      exact ⟨.skipped, .inr rfl, by rw [if_pos rfl, hTally]; rfl⟩
    · exact ⟨status, hStatus, by rw [if_neg h, hTally]⟩
  obtain ⟨status, hStatus, hTally⟩ :=
    foldl_keeps hSkip g.orphans ⟨.pending, .inl rfl, tally_of_fresh hFresh i⟩
  unfold enter
  rw [tally_setStatus]
  by_cases h : g.entry = i
  · subst h
    exact ⟨.ready, .inr (.inl rfl), by rw [if_pos rfl, hTally]; rfl⟩
  · exact ⟨status, by tauto, by rw [if_neg h, hTally]⟩

end Scheduler

end Workflow

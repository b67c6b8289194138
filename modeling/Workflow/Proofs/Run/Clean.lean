/-
Workflow.Proofs.Run.Clean — every round of a loop begins clean.

When a round begins, the scheduler resets what it counts and lists of the
steps of the body, but neither their calls nor the retries they wait for.
There are none of these left: a round ends when all its steps are through,
and a loop that is given up takes its whole body with it. So a step of the
body is as if it had never run, in whatever way the last round has ended.

* `Scheduler.IsClean` — a step that is as if it had never run.
* `Scheduler.Titled` — every result bears the id of its step.
* `Moment.OpensRound`, `opens_cases` — a round of a loop begins.
* `Submitted`, `History.booked` — the variables of a run.
* `Course.rounds_begin_clean` — the main result.
-/
import Workflow.Proofs.Run.Body
import Workflow.Proofs.Run.Bookkeeping

namespace Workflow

variable {g : Graph}

namespace Scheduler

variable {s s' : Scheduler g} {loop i k : g.Index}

/-! ## Ids of results -/

/-- Every result bears the id of its step. -/
def Titled (s : Scheduler g) : Prop := ∀ i, (s.state.result i).stepId = g.idOf i

namespace Titled

/-- A change of the result of one step that keeps the id. -/
theorem of_result {r : StepResult} (h : s.Titled)
    (hResult : ∀ i, s'.state.result i = if k = i then r else s.state.result i)
    (hSame : r.stepId = (s.state.result k).stepId) : s'.Titled := by
  intro i
  rw [hResult]
  split
  · rename_i hi
    rw [hSame, h k, hi]
  · exact h i

theorem of_same (h : s.Titled) (hResult : ∀ i, s'.state.result i = s.state.result i) :
    s'.Titled := fun i => hResult i ▸ h i

theorem setStatus {status : StepStatus} (h : s.Titled) : (s.setStatus k status).Titled :=
  h.of_result (fun i => result_setStatus s k i status) rfl

theorem complete {output : Json} (h : s.Titled) : (s.complete k output).Titled :=
  h.of_result (fun i => result_complete s k i output) rfl

theorem skip (h : s.Titled) : (s.skip k).Titled :=
  h.of_result (fun i => result_skip s k i) rfl

theorem recordFailure {error : StepError} (h : s.Titled) : (s.recordFailure k error).Titled :=
  h.of_result (fun i => result_recordFailure s k i error) rfl

theorem markRecovered {handler : g.Index} (h : s.Titled) : (s.markRecovered k handler).Titled :=
  h.of_result (fun i => result_markRecovered s k i handler) rfl

theorem resetBody (h : s.Titled) : (s.resetBody loop).Titled := by
  intro i
  rw [result_resetBody]
  split
  · exact h i
  · exact h i

theorem abandonLoop (h : s.Titled) : (s.abandonLoop loop).Titled :=
  abandonLoop_keeps (fun _ _ _ ht => ht.of_same fun _ => rfl) (fun _ _ ht => ht.skip) h

theorem applyRecovery {handler : g.Index} {a : Activation g} (h : s.Titled) :
    (s.applyRecovery handler a).Titled := by
  have hRecovers := s.recovers handler a
  generalize s.applyRecovery handler a = t at hRecovers
  cases hRecovers with
  | unset => exact h
  | skipped => exact h.skip.markRecovered
  | restarted => exact markRecovered (h.of_result (fun i => result_restart s _ i) rfl)
  | substituted => exact markRecovered (h.of_result (fun i => result_substitute s _ i _) rfl)
  | stopped => exact h.of_same fun _ => rfl

/-- Every move keeps the ids of results. -/
theorem move {hand hand' : Hand g} (hMove : Move hand s hand' s') (h : s.Titled) : s'.Titled := by
  cases hMove with
  | promote => exact h.setStatus
  | passOver => exact h.skip
  | nextRound => exact resetBody (h.of_same fun _ => rfl)
  | lastRound => exact h.of_result (fun i => result_completeLoop s _ i _) rfl
  | begin => exact h.of_result (fun i => result_begin s _ i) rfl
  | decide | crash => exact h.of_same fun _ => rfl
  | forget => exact h.of_result (fun i => result_mapResult _ i s.state _) rfl
  | openLoop => exact h.resetBody.of_same fun _ => rfl
  | emptyLoop => exact h.resetBody.complete
  | call _ hInput =>
    simp only [dispatch, hInput]
    exact h.of_same fun _ => rfl
  | complete => exact h.complete
  | recover => exact applyRecovery (h.complete.of_same fun _ => rfl)
  | retry hRetry =>
    obtain ⟨-, -, rfl⟩ := eq_of_retryLater? hRetry
    exact h.of_result (fun i => result_mapResult _ i s.state _) rfl
  | giveUp => exact h.recordFailure.abandonLoop
  | activate => exact setStatus (h.recordFailure.of_same fun _ => rfl)
  | failRun => exact h.recordFailure.of_same fun _ => rfl

theorem receives {m : Message g} {hand : Hand g} (hReceives : Receives s m hand s')
    (h : s.Titled) : s'.Titled := by
  cases hReceives with
  | command => exact h.of_same fun i => congrArg Prod.fst (s.record_obey i _)
  | stale | early | ended => exact h.of_same fun _ => rfl
  | due => exact setStatus (h.of_same fun _ => rfl)

theorem enter (h : s.IsFresh) : s.enter.Titled := by
  obtain ⟨runId, workflowId, workflowName, input, vars, created, stepTimeout, now, rfl⟩ := h
  refine setStatus (foldl_keeps (fun _ _ h => h.skip) _ fun i => ?_)
  simp [initial, RunState.initial, RunState.result, StepResult.initial]

end Titled

/-! ## Clean steps -/

/-- A step that is as if it had never run: it is pending, was never tried, has no output, no error and
no waits behind it, and nothing is remembered of it, neither a call nor a retry to come nor a
decision; it is listed nowhere, and neither the variables nor the outputs that expressions see have
its id. -/
structure IsClean (s : Scheduler g) (i : g.Index) : Prop where
  result : s.state.result i = StepResult.initial (g.idOf i)
  control : s.controlOf i = Control.initial g
  listed : s.state.completed.get i = false ∧ s.state.failed.get i = false
  named : Dict.find? s.state.vars (g.idOf i) = none
  seen : Dict.find? s.state.outputs (g.idOf i) = none

/-- With a body that is reset, the variables with the ids of its steps are gone, and the others are
as they were. -/
theorem find?_vars_resetBody (hKeys : (Dict.keys s.state.vars).Nodup) (loop : g.Index)
    (key : String) :
    Dict.find? (s.resetBody loop).state.vars key =
      if ∃ i ∈ g.body loop, g.idOf i = key then none else Dict.find? s.state.vars key := by
  have hFold : ∀ (steps : List g.Index) (t : Scheduler g), (Dict.keys t.state.vars).Nodup →
      Dict.find? (steps.foldl resetMember t).state.vars key =
        if ∃ i ∈ steps, g.idOf i = key then none else Dict.find? t.state.vars key := by
    intro steps
    induction steps with
    | nil => simp
    | cons i rest ih =>
      intro t hNodup
      have hNext : (t.resetMember i).state.vars = Dict.remove t.state.vars (g.idOf i) := rfl
      rw [List.foldl_cons, ih _ (hNext ▸ Dict.nodup_keys_remove hNodup _), hNext,
        Dict.find?_remove hNodup]
      by_cases hKey : g.idOf i = key
      · simp [hKey]
      · simp [hKey]
  exact hFold _ s hKeys

/-- A step of a body that is reset is clean, if there is no call or retry of it to come. -/
theorem isClean_resetBody (hIds : ∀ i j, g.idOf i = g.idOf j → i = j) (hi : i ∈ g.body loop)
    (hTitled : s.Titled) (hKeys : (Dict.keys s.state.vars).Nodup)
    (hControl : ∃ retries branch, s.controlOf i = { Control.initial g with retries, branch }) :
    (s.resetBody loop).IsClean i := by
  have hResult : (s.resetBody loop).state.result i = StepResult.initial (g.idOf i) := by
    rw [result_resetBody, if_pos hi, StepResult.reset, hTitled i]
  have hMarks : (s.resetBody loop).marks i = (false, false) := by
    rw [marks_resetBody, if_pos hi]
  refine ⟨hResult, ?_, Prod.mk.inj hMarks, ?_, ?_⟩
  · obtain ⟨retries, branch, hSame⟩ := hControl
    rw [controlOf_resetBody, if_pos hi, hSame]
    rfl
  · rw [find?_vars_resetBody hKeys, if_pos ⟨i, hi, rfl⟩]
  · refine Option.eq_none_iff_forall_ne_some.mpr fun output hSome => ?_
    obtain ⟨hCompleted, -⟩ := (RunState.find?_outputs hIds i output).mp hSome
    rw [RunState.statusOf, hResult] at hCompleted
    cases hCompleted

/-- A step of a body that has neither a call nor a retry to come has nothing else that a reset leaves
behind. -/
theorem control_of_rest (hg : g.Sound) {hand : Hand g} (hCoherent : s.board.Coherent hand)
    (hi : i ∈ g.body loop) (hWaiting : (s.controlOf i).waiting = false)
    (hCall : (s.controlOf i).call = none) :
    ∃ retries branch, s.controlOf i = { Control.initial g with retries, branch } := by
  have hFrame : (s.controlOf i).frame = none := by
    refine Option.eq_none_iff_forall_ne_some.mpr fun f hSome => ?_
    exact (hg.body_kind loop i hi).2.2 (hCoherent.frame i f hSome).1
  have hActivation : (s.controlOf i).activation = none := by
    refine Option.eq_none_iff_forall_ne_some.mpr fun a hSome => ?_
    exact hg.not_guards_of_mem hi ⟨_, (hCoherent.edge i a hSome).1⟩
  generalize s.controlOf i = c at hWaiting hCall hFrame hActivation ⊢
  obtain ⟨call, waiting, retries, branch, frame, activation⟩ := c
  simp only at hWaiting hCall hFrame hActivation
  exact ⟨retries, branch, by rw [hWaiting, hCall, hFrame, hActivation]; rfl⟩

/-! ## The beginning of a round -/

/-- A loop that comes into a round by its start has begun, has forgotten its former rounds and has
reset its body. -/
theorem startStep_of_frame (hg : g.Sound) (hKind : g.kindOf loop = .loop)
    (hFrame : (s.controlOf loop).frame = none)
    (hOpened : ((s.startStep loop).controlOf loop).frame ≠ none) :
    ∃ frame, s.startStep loop = ((((s.begin loop).mapState fun st => st.mapResult loop fun r =>
      { r with iterations := [] }).resetBody loop).mapControl loop fun c => { c with frame }) := by
  have hOwner := hg.owner?_eq_none_of_loop hKind
  have hGuards := hg.not_mem_handlersOf_of_within hKind (.inl rfl) loop
  have hFails : ∀ (t : Scheduler g) fault, (t.controlOf loop).frame = none →
      ((t.failStart loop fault).controlOf loop).frame = none := by
    intro t fault hNone
    cases fault with
    | crash => exact hNone
    | error e =>
      simp only [failStart, failStep, hOwner]
      exact (failOuter_self (s := t) e hGuards).1.trans hNone
  have hStarts := s.starts loop
  generalize s.startStep loop = t at hStarts hOpened
  cases hStarts with
  | failed | failedLoop =>
    refine absurd ?_ hOpened
    exact hFails _ _ hFrame
  | completed hOther | decided hOther | called hOther => simp [hKind] at hOther
  | emptyLoop =>
    refine absurd ?_ hOpened
    rw [controlOf_complete, controlOf_resetBody, if_neg (hg.not_mem_own_body loop)]
    exact hFrame
  | openLoop => exact ⟨_, rfl⟩

end Scheduler

/-- Whether a round of a loop begins at a moment: the loop is in this round afterwards, and before
that it was in none or in another one. -/
def Moment.OpensRound (m : Moment g) (loop : g.Index) : Prop :=
  ∃ f, (m.next.controlOf loop).frame = some f ∧
    ∀ f', (m.scheduler.controlOf loop).frame = some f' → f'.position ≠ f.position

namespace Moment

variable {m : Moment g} {loop : g.Index}

/-- After every moment, a loop in a round is running. -/
theorem running_of_frame (hg : g.Sound) (hOpen : m.scheduler.isOver = false)
    (hPossible : m.act.IsPossible m.scheduler) (hCoherent : m.scheduler.board.Coherent .free)
    {f : Frame} (hFrame : (m.next.controlOf loop).frame = some f) :
    g.kindOf loop = .loop ∧ m.next.statusOf loop = .running := by
  obtain ⟨_, -, hNext⟩ := Act.coherent hg hOpen hPossible hCoherent
  obtain ⟨hKind, hRunning, -⟩ := hNext.frame loop f hFrame
  exact ⟨hKind, hRunning⟩

/-- A round begins with the start of its loop or with the end of another round. -/
theorem act_of_opens (hg : g.Sound) (hOpen : m.scheduler.isOver = false)
    (hPossible : m.act.IsPossible m.scheduler) (hCoherent : m.scheduler.board.Coherent .free)
    (hUncalled : (m.scheduler.controlOf loop).call = none) (h : m.OpensRound loop) :
    m.act = .start loop ∨ m.act = .close loop := by
  obtain ⟨f, hFrame, hOther⟩ := h
  obtain ⟨hKind, hRunning⟩ := running_of_frame hg hOpen hPossible hCoherent hFrame
  by_contra hNeither
  obtain ⟨hStart, hClose⟩ := not_or.mp hNeither
  rcases loop_cases hg hOpen hPossible hCoherent hKind hUncalled hStart hClose with
    ⟨hNone, -⟩ | ⟨-, hCompleted, -⟩ | ⟨hSame, -⟩
  · rw [hFrame] at hNone
    cases hNone
  · rw [hRunning] at hCompleted
    cases hCompleted
  · exact hOther f ((congrArg (·.2.frame) hSame).symm.trans hFrame) rfl

/-- Whether a moment at which a round begins leaves everything else as it is: the results and marks of
the steps outside of the body and what is remembered of them, and the variables that do not have the
ids of the body. Of the loop it changes the result only if it starts it. -/
structure LeavesRest (m : Moment g) (loop : g.Index) : Prop where
  records : ∀ j, j ≠ loop → j ∉ g.body loop → m.next.record j = m.scheduler.record j
  marks : ∀ j, j ∉ g.body loop → m.next.marks j = m.scheduler.marks j
  own : m.act = .close loop ∧ m.next.state.result loop = m.scheduler.state.result loop ∨
    m.act = .start loop ∧ m.next.state.result loop =
      { (m.scheduler.state.result loop).start m.scheduler.now with iterations := [] }
  vars : ∀ key, (∀ i ∈ g.body loop, g.idOf i ≠ key) →
    Dict.find? m.next.state.vars key = Dict.find? m.scheduler.state.vars key

/-- A scheduler that changes what is known of a loop alone and resets the body leaves a clean body and
everything else as it is, if the body has no calls and no retries to come. -/
theorem clean_of_reset (hg : g.Wired) {s u t : Scheduler g} (hCoherent : s.board.Coherent .free)
    (hKeys : (Dict.keys s.state.vars).Nodup)
    (hRest : ∀ i ∈ g.body loop, (s.controlOf i).waiting = false ∧ (s.controlOf i).call = none)
    (hTitled : u.Titled) (hVars : u.state.vars = s.state.vars) (hMarks : ∀ j, u.marks j = s.marks j)
    (hRecord : ∀ j, loop ≠ j → u.record j = s.record j)
    (hState : t.state = (u.resetBody loop).state)
    (hControl : ∀ j, loop ≠ j → t.controlOf j = (u.resetBody loop).controlOf j) :
    (∀ i ∈ g.body loop, t.IsClean i) ∧
      (∀ j, j ≠ loop → j ∉ g.body loop → t.record j = s.record j) ∧
      (∀ j, j ∉ g.body loop → t.marks j = s.marks j) ∧
      ∀ key, (∀ i ∈ g.body loop, g.idOf i ≠ key) →
        Dict.find? t.state.vars key = Dict.find? s.state.vars key := by
  have hReset : ∀ j, loop ≠ j → t.record j = (u.resetBody loop).record j := fun j hj => by
    rw [Scheduler.record, hState, hControl j hj, Scheduler.record]
  rw [← hVars] at hKeys
  refine ⟨fun i hi => ?_, fun j hj hBody => ?_, fun j hBody => ?_, fun key hKey => ?_⟩
  · have hNe : loop ≠ i := by
      rintro rfl
      exact hg.not_mem_own_body loop hi
    obtain ⟨hWaiting, hCall⟩ := hRest i hi
    obtain ⟨retries, branch, hSame⟩ :=
      Scheduler.control_of_rest hg.toSound hCoherent hi hWaiting hCall
    have hBefore : u.controlOf i = s.controlOf i := congrArg Prod.snd (hRecord i hNe)
    have hClean := Scheduler.isClean_resetBody hg.ids hi hTitled hKeys
      ⟨retries, branch, hBefore.trans hSame⟩
    obtain ⟨hResult, hBlank, hListed, hNamed, hSeen⟩ := hClean
    rw [← hState] at hResult hListed hNamed hSeen
    exact ⟨hResult, (hControl i hNe).trans hBlank, hListed, hNamed, hSeen⟩
  · exact (hReset j hj.symm).trans <| (Scheduler.record_resetBody hBody).trans (hRecord j hj.symm)
  · have hSame : t.marks j = (u.resetBody loop).marks j := by
      rw [Scheduler.marks, hState, Scheduler.marks]
    rw [hSame, Scheduler.marks_resetBody, if_neg hBody]
    exact hMarks j
  · rw [hState, Scheduler.find?_vars_resetBody hKeys, if_neg, hVars]
    rintro ⟨i, hi, hId⟩
    exact hKey i hi hId

theorem clean_of_start (hg : g.Wired) {s : Scheduler g} (hKind : g.kindOf loop = .loop)
    (hReady : s.statusOf loop = .ready) (hCoherent : s.board.Coherent .free) (hTitled : s.Titled)
    (hKeys : (Dict.keys s.state.vars).Nodup)
    (hOpened : ((s.startStep loop).controlOf loop).frame ≠ none) :
    (∀ i ∈ g.body loop, (s.startStep loop).IsClean i) ∧ LeavesRest ⟨s, .start loop⟩ loop := by
  have hOut : (s.controlOf loop).frame = none := by
    by_contra hSome
    have hRunning : s.statusOf loop = .running := hCoherent.running_of_frame hSome
    rw [hReady] at hRunning
    cases hRunning
  have hRest : ∀ i ∈ g.body loop, (s.controlOf i).waiting = false ∧ (s.controlOf i).call = none :=
    fun i hi => ⟨(hCoherent.idle loop hOut i hi).1, (hCoherent.idle loop hOut i hi).2.1⟩
  obtain ⟨frame, hNext⟩ := Scheduler.startStep_of_frame hg.toSound hKind hOut hOpened
  have hBegun : ((s.begin loop).mapState fun st => st.mapResult loop fun r =>
      { r with iterations := [] }).Titled :=
    Scheduler.Titled.of_result
      (hTitled.of_result (fun i => Scheduler.result_begin s loop i) rfl)
      (fun i => Scheduler.result_mapResult loop i _ _) rfl
  obtain ⟨hClean, hRecords, hMarks, hVars⟩ := clean_of_reset (t := s.startStep loop) hg hCoherent
    hKeys hRest hBegun rfl (fun _ => rfl)
    (fun j hj => (Scheduler.record_mapResult hj).trans (Scheduler.record_begin hj))
    (by rw [hNext, Scheduler.state_mapControl])
    (fun j hj => by rw [hNext, Scheduler.controlOf_mapControl, if_neg hj])
  refine ⟨hClean, hRecords, hMarks, .inr ⟨rfl, ?_⟩, hVars⟩
  refine (congrArg (·.state.result loop) hNext).trans ?_
  simp [hg.not_mem_own_body loop]

/-- In a body whose steps are through, none has a call or a retry to come. -/
theorem rest_of_bodySettled (hg : g.Wired) {s : Scheduler g} (hCoherent : s.board.Coherent .free)
    (hBody : s.bodySettled loop = true) :
    ∀ i ∈ g.body loop, (s.controlOf i).waiting = false ∧ (s.controlOf i).call = none := by
  intro i hi
  have hSettled : (s.statusOf i).isSettled := Scheduler.settled_of_bodySettled hBody i hi
  have hPlain := hCoherent.plain i (hg.not_guards_of_mem hi)
  constructor
  · by_contra hWaits
    have hPending : s.statusOf i = .pending := hPlain.waiting (Bool.eq_true_of_not_eq_false hWaits)
    rw [hPending] at hSettled
    cases hSettled
  · by_contra hSome
    have hRunning : s.statusOf i = .running := hPlain.call hSome
    rw [hRunning] at hSettled
    cases hSettled

theorem clean_of_close (hg : g.Wired) {s : Scheduler g} (hOver : s.RoundOver loop)
    (hCoherent : s.board.Coherent .free) (hTitled : s.Titled)
    (hKeys : (Dict.keys s.state.vars).Nodup)
    (hOpened : ((s.closeRound loop).controlOf loop).frame ≠ none) :
    (∀ i ∈ g.body loop, (s.closeRound loop).IsClean i) ∧ LeavesRest ⟨s, .close loop⟩ loop := by
  obtain ⟨⟨f, hFrame, hIn⟩, hBody⟩ := hOver
  obtain ⟨frame, hNext⟩ : ∃ frame,
      s.closeRound loop = (s.mapControl loop fun c => { c with frame }).resetBody loop := by
    have hClosed := Scheduler.closeRound_of_over hFrame hIn hBody
    split at hClosed
    · exact ⟨_, hClosed⟩
    · refine absurd ?_ hOpened
      rw [hClosed]
      simp
  have hRest := rest_of_bodySettled hg hCoherent hBody
  have hMoved : (s.mapControl loop fun c => { c with frame }).Titled := hTitled.of_same fun _ => rfl
  obtain ⟨hClean, hRecords, hMarks, hVars⟩ := clean_of_reset (t := s.closeRound loop) hg hCoherent
    hKeys hRest hMoved rfl (fun _ => rfl) (fun j hj => Scheduler.record_mapControl hj)
    (by rw [hNext]) (fun j _ => by rw [hNext])
  refine ⟨hClean, hRecords, hMarks, .inl ⟨rfl, ?_⟩, hVars⟩
  refine (congrArg (·.state.result loop) hNext).trans ?_
  simp [hg.not_mem_own_body loop]

/-- When a round begins, the body is clean and the rest is as it was. -/
theorem clean_of_opens (hg : g.Wired) (hOpen : m.scheduler.isOver = false)
    (hPossible : m.act.IsPossible m.scheduler) (hCoherent : m.scheduler.board.Coherent .free)
    (hUncalled : g.kindOf loop = .loop → (m.scheduler.controlOf loop).call = none)
    (hTitled : m.scheduler.Titled) (hKeys : (Dict.keys m.scheduler.state.vars).Nodup)
    (h : m.OpensRound loop) : (∀ i ∈ g.body loop, m.next.IsClean i) ∧ m.LeavesRest loop := by
  obtain ⟨f, hFrame, -⟩ := id h
  have hKind := (running_of_frame hg.toSound hOpen hPossible hCoherent hFrame).1
  have hOpened : (m.next.controlOf loop).frame ≠ none := by simp [hFrame]
  have hAct := act_of_opens hg.toSound hOpen hPossible hCoherent (hUncalled hKind) h
  obtain ⟨s, act⟩ := m
  obtain rfl | rfl : act = .start loop ∨ act = .close loop := hAct
  · exact clean_of_start hg hKind hPossible hCoherent hTitled hKeys hOpened
  · exact clean_of_close hg hPossible hCoherent hTitled hKeys hOpened

end Moment

/-! ## Whole runs -/

/-- The variables that a run was submitted with are those at its first moment. -/
def Submitted (vars : Dict Json) (log : List (Moment g)) : Prop :=
  ∀ m ∈ log.head?, m.scheduler.state.vars = vars

theorem Submitted.of_append {vars : Dict Json} {before after : List (Moment g)}
    (h : Submitted vars (before ++ after)) : Submitted vars before := by
  intro m hm
  cases before with
  | nil => cases hm
  | cons first rest => exact h m (by simpa using hm)

/-- The first moment is that of the scheduler that goes on. -/
theorem Scheduler.Leads.scheduler_head? {s t : Scheduler g} {log : List (Moment g)}
    (h : s.Leads log t) : (log = [] → t = s) ∧ ∀ m ∈ log.head?, m.scheduler = s := by
  induction h with
  | nil => simp
  | snoc _ _ _ _ ih =>
    rename_i log t act _ _ _ _
    refine ⟨by simp, fun m hm => ?_⟩
    cases log with
    | nil =>
      obtain rfl : ⟨t, act⟩ = m := by simpa using hm
      exact ih.1 rfl
    | cons first rest => exact ih.2 m (by simpa using hm)

theorem Scheduler.vars_enter (s : Scheduler g) : s.enter.state.vars = s.state.vars := by
  have hSkip : ∀ (t : Scheduler g) i, t.state.vars = s.state.vars →
      (t.skip i).state.vars = s.state.vars := fun _ _ h => h
  exact foldl_keeps hSkip g.orphans rfl

theorem Scheduler.vars_conclude (s : Scheduler g) : s.conclude.state.vars = s.state.vars :=
  conclude_keeps (fun s => s.state.vars) (fun _ _ => rfl) (fun _ _ _ => rfl) s

namespace Course

variable {p : Course g} {log : List (Moment g)} {vars : Dict Json}

/-- A run has a history that begins with the variables it was submitted with. -/
theorem exists_history_of_turns {runId workflowId workflowName : String} {input : Json}
    {created now : Instant} {stepTimeout : Option Duration}
    (hRun : Relation.ReflTransGen Turn (start (Scheduler.initial
      (RunState.initial g runId workflowId workflowName input vars created) stepTimeout) now) p) :
    ∃ log, History p log ∧ Submitted vars log := by
  suffices hAll : ∃ log, History p log ∧ Submitted vars log ∧
      (log = [] → p.scheduler.state.vars = vars) by
    obtain ⟨log, hHistory, hVars, -⟩ := hAll
    exact ⟨log, hHistory, hVars⟩
  induction hRun with
  | refl =>
    let s : Scheduler g := { Scheduler.initial
      (RunState.initial g runId workflowId workflowName input vars created) stepTimeout with now }
    have hEnter : s.enter.state.vars = vars := s.vars_enter
    obtain ⟨log, hLeads⟩ := Scheduler.exists_leads_advance s.enter
    obtain ⟨hNone, hFirst⟩ := hLeads.scheduler_head?
    refine ⟨log, .start runId workflowId workflowName input vars created now stepTimeout hLeads,
      fun m hm => ?_, fun hNil => ?_⟩
    · rw [hFirst m hm, hEnter]
    · exact (congrArg (fun t => t.state.vars) (hNone hNil)).trans hEnter
  | tail _ hTurn ih =>
    rename_i p q _
    obtain ⟨log, hBefore, hVars, hNow⟩ := ih
    cases hTurn with
    | conclude now hOpen =>
      exact ⟨log, hBefore.conclude now hOpen, hVars, fun hNil =>
        (Scheduler.vars_conclude { p.scheduler with now }).trans (hNow hNil)⟩
    | read m now hOpen hMore hExpected =>
      obtain ⟨more, hLeads⟩ := Scheduler.exists_leads_advance
        (({ p.scheduler with now } : Scheduler g).heed m)
      rw [← Scheduler.handle_eq] at hLeads
      refine ⟨_, hBefore.read m now hOpen hMore hExpected hLeads, fun x hx => ?_, by simp⟩
      cases log with
      | nil =>
        obtain rfl : ⟨{ p.scheduler with now }, .read m⟩ = x := by simpa using hx
        exact hNow rfl
      | cons first rest => exact hVars x (by simpa using hx)

/-- In every run the outputs of the steps are among the variables, whose names are distinct. -/
theorem History.booked (hg : g.Wired) (h : History p log) (hSubmitted : Submitted vars log)
    (hVars : (Dict.keys vars).Nodup) {m : Moment g} (hm : m ∈ log) : m.scheduler.Booked vars := by
  have hAll := History.induction_at hg.toSound
    (P := fun log s => Submitted vars log → (log = [] → s.state.vars = vars) → s.Booked vars)
    ?_ ?_ ?_ ?_ h
  · obtain ⟨before, after, rfl⟩ := List.append_of_mem hm
    exact (hAll.2 before m after rfl).1 hSubmitted.of_append fun hNil => hSubmitted m (by simp [hNil])
  · intro s hFresh _ hNow
    obtain ⟨runId, workflowId, workflowName, input, vars', created, stepTimeout, now, rfl⟩ := hFresh
    obtain rfl : vars' = vars := (Scheduler.vars_enter _).symm.trans (hNow rfl)
    have hInitial : (Scheduler.initial (RunState.initial g runId workflowId workflowName input vars'
        created) stepTimeout).Booked vars' := booked_initial hVars
    exact Scheduler.Booked.setStatus (Scheduler.foldl_keeps (fun _ _ h => h.skip) _
      (hInitial.of_same rfl fun _ => rfl)) nofun
  · intro log s act hOpen hPossible _ hBefore hSubmitted _
    have hNow : s.Booked vars :=
      hBefore hSubmitted.of_append fun hNil => hSubmitted ⟨s, act⟩ (by simp [hNil])
    obtain ⟨_, -, hNext⟩ := Act.keeps hg.toSound (P := fun _ s => s.Booked vars)
      (fun _ _ _ _ hMove h => h.move hg.ids hMove)
      (fun _ _ _ _ _ hReceives h => h.receives hReceives) hOpen hPossible hNow
    exact hNext
  · intro log s _ hBefore hSubmitted hNow
    exact Scheduler.Booked.conclude (hBefore hSubmitted fun hNil =>
      s.vars_conclude.symm.trans (hNow hNil))
  · exact fun log s now hBefore hSubmitted hNow =>
      (hBefore hSubmitted hNow).of_same rfl fun _ => rfl

/-- Every result bears the id of its step at every moment, and loops are not called. -/
theorem History.titled_uncalled (hg : g.Sound) (h : History p log) {m : Moment g} (hm : m ∈ log) :
    m.scheduler.Titled ∧ ∀ loop, g.kindOf loop = .loop → (m.scheduler.controlOf loop).call = none := by
  refine ((h.invariant hg (Q := fun _ s => s.Titled ∧ ∀ loop, g.kindOf loop = .loop →
    (s.board.slot loop).call = none) ?_ ?_ ?_ ?_ ?_).1 m hm).1
  · exact fun s hFresh => ⟨.enter hFresh, fun loop _ =>
      congrArg Slot.call (Scheduler.slot_enter hg hFresh loop)⟩
  · exact fun _ _ _ _ hMove hCoherent ⟨hTitled, hNone⟩ => ⟨hTitled.move hMove,
      fun loop hKind => Board.uncalled_rule hg (hMove.rule hg) hCoherent hKind (hNone loop hKind)⟩
  · exact fun _ _ _ _ hReceives _ ⟨hTitled, hNone⟩ => ⟨hTitled.receives hReceives,
      fun loop hKind => Board.uncalled_notice hReceives.notice (hNone loop hKind)⟩
  · intro s ⟨hTitled, hNone⟩
    refine ⟨hTitled.of_same fun i => congrArg Prod.fst (s.record_conclude i), fun loop hKind => ?_⟩
    exact (congrArg Slot.call (congrFun s.slot_conclude loop)).trans (hNone loop hKind)
  · exact fun _ _ _ h => h

/-- Whenever a round of a loop begins, the first one after a start of the loop or another one, every
step of the body is as if it had never run, in whatever way earlier rounds have ended; and nothing
else has changed but what is known of the loop itself. -/
theorem rounds_begin_clean {allowOrphans : Bool} {steps : List Step} {g : Graph}
    (hCompile : Graph.compile allowOrphans steps = .ok g) {p : Course g} {log : List (Moment g)}
    (hHistory : History p log) {vars : Dict Json} (hSubmitted : Submitted vars log)
    (hVars : (Dict.keys vars).Nodup) {m : Moment g} (hm : m ∈ log) {loop : g.Index}
    (hOpens : m.OpensRound loop) :
    (∀ i ∈ g.body loop, m.next.IsClean i) ∧ m.LeavesRest loop := by
  have hg := Graph.wired_of_compile hCompile
  obtain ⟨hOpen, hPossible, hCoherent⟩ := hHistory.moments hg.toSound hm
  obtain ⟨hTitled, hUncalled⟩ := hHistory.titled_uncalled hg.toSound hm
  have hKeys := (hHistory.booked hg hSubmitted hVars hm).keys
  exact Moment.clean_of_opens hg hOpen hPossible hCoherent (hUncalled loop) hTitled hKeys hOpens

/-- A loop that is in a round has begun this round. -/
theorem History.exists_opensRound (hg : g.Sound) (h : History p log) {loop : g.Index} {f : Frame}
    (hFrame : (p.scheduler.controlOf loop).frame = some f) :
    ∃ m ∈ log, m.OpensRound loop ∧
      (m.next.controlOf loop).frame.map Frame.position = some f.position := by
  refine History.induction hg (P := fun log s => ∀ f, (s.controlOf loop).frame = some f →
    ∃ m ∈ log, m.OpensRound loop ∧
      (m.next.controlOf loop).frame.map Frame.position = some f.position) ?_ ?_ ?_ ?_ h f hFrame
  · intro s hFresh f hFrame
    rw [show (s.enter.controlOf loop).frame = none from
      congrArg Slot.frame (Scheduler.slot_enter hg hFresh loop)] at hFrame
    cases hFrame
  · intro log s act _ _ _ hBefore f hFrame
    by_cases hSame : ∃ f', (s.controlOf loop).frame = some f' ∧ f'.position = f.position
    · obtain ⟨f', hFrame', hPosition⟩ := hSame
      obtain ⟨m, hm, hOpens, hNext⟩ := hBefore f' hFrame'
      exact ⟨m, List.mem_append_left _ hm, hOpens, hNext.trans (congrArg some hPosition)⟩
    · refine ⟨⟨s, act⟩, by simp, ⟨f, hFrame, fun f' hFrame' hPosition => ?_⟩, ?_⟩
      · exact hSame ⟨f', hFrame', hPosition⟩
      · exact congrArg (Option.map Frame.position) hFrame
  · intro log s _ hBefore f hFrame
    exact hBefore f ((congrArg Slot.frame (congrFun s.slot_conclude loop)).symm.trans hFrame)
  · exact fun _ _ _ hBefore => hBefore

/-- An action that has given an output in the first round is clean when the second one begins. -/
theorem clean_of_looped :
    ∃ g p log, Graph.compile false Script.looped.steps = .ok g ∧ History (g := g) p log ∧
      Submitted [("region", .str "eu")] log ∧ ∃ (loop i : g.Index), ∃ m ∈ log,
        m.OpensRound loop ∧ (m.next.controlOf loop).frame.map Frame.position = some 1 ∧
        i ∈ g.body loop ∧ g.idOf i = "a" ∧ m.next.IsClean i ∧
        Dict.find? m.next.state.vars "region" = Dict.find? m.scheduler.state.vars "region" := by
  have hShows : { Script.looped with cues := [.answer 0 (.ok [])] }.showsWith
      [("region", .str "eu")] (fun g p => ∃ loop i : g.Index, i ∈ g.body loop ∧ g.idOf i = "a" ∧
        (p.scheduler.controlOf loop).frame.map Frame.position = some 1 ∧
        ∀ j : g.Index, g.idOf j ≠ "region") := by
    decide +kernel
  obtain ⟨g, p, hCompile, hRun, loop, i, hi, hId, hPosition, hOther⟩ :=
    Script.exists_of_showsWith hShows
  obtain ⟨log, hHistory, hSubmitted⟩ := exists_history_of_turns hRun
  obtain ⟨f, hFrame, hNumber⟩ := Option.map_eq_some_iff.mp hPosition
  obtain ⟨m, hm, hOpens, hNext⟩ :=
    hHistory.exists_opensRound (Graph.sound_of_compile hCompile) hFrame
  have hKeys : (Dict.keys [("region", Json.str "eu")]).Nodup := by decide
  obtain ⟨hClean, hRest⟩ := rounds_begin_clean hCompile hHistory hSubmitted hKeys hm hOpens
  exact ⟨g, p, log, hCompile, hHistory, hSubmitted, loop, i, m, hm, hOpens,
    hNext.trans (congrArg some hNumber), hi, hId, hClean i hi,
    hRest.vars "region" fun j _ => hOther j⟩

end Course

end Workflow

/-
Workflow.Proofs.Run.Bookkeeping — the books of a run agree.

A run keeps what it knows of a step in several places: the status of the
step, its marks among the completed and the failed steps, its recorded
output and the variable with its id. A snapshot shows them all.

* `Tally.Listed` — a step is listed as it stands; `Listed.step`.
* `Scheduler.Booked` — outputs are the variables with the ids of the steps,
  and all other variables are as they were submitted.
* `Course.Publishes` — whose snapshots readers of a run can see.
* `Course.snapshots_consistent` — every snapshot of a run is consistent.
-/
import Mathlib.Logic.Relation
import Workflow.Proofs.Graph.Wired
import Workflow.Proofs.Run.Replay
import Workflow.Proofs.Run.Tally

namespace Workflow

variable {g : Graph}

/-! ## Lists of steps -/

/-- A step is listed among the completed and the failed steps as it stands. -/
structure Tally.Listed (x : Tally) : Prop where
  completed : x.completed = true ↔ x.status = .completed
  failed : x.failed = true ↔ x.status = .failed

namespace Tally.Listed

theorem blank {status : StepStatus} (h : status = .pending ∨ status = .ready ∨ status = .skipped) :
    (Tally.blank status).Listed := by
  rcases h with rfl | rfl | rfl <;> constructor <;> simp [Tally.blank]

/-- Whatever becomes of a step, it is listed as it stands. -/
theorem step {policy : RetryPolicy} {x y : Tally} (hStep : Tally.Step policy x y) (h : x.Listed) :
    y.Listed := by
  obtain ⟨hCompleted, hFailed⟩ := h
  cases hStep with
  | same => exact ⟨hCompleted, hFailed⟩
  | ready hStatus | begin hStatus | retry hStatus =>
    rw [hStatus] at hCompleted hFailed
    exact ⟨by simpa using hCompleted, by simpa using hFailed⟩
  | skip hStatus =>
    have hOff : x.completed = false := by simpa [hStatus] using hCompleted
    exact ⟨by simp [Tally.skipped, hOff], by simp [Tally.skipped]⟩
  | complete => exact ⟨by simp [Tally.done], by simp [Tally.done]⟩
  | fail hStatus =>
    have hOff : x.completed = false := by simpa [hStatus] using hCompleted
    exact ⟨by simp [Tally.failing, hOff], by simp [Tally.failing]⟩
  | reset => exact .blank (.inl rfl)
  | restart hStatus =>
    have hOff : x.completed = false := by simpa [hStatus] using hCompleted
    exact ⟨by simp [Tally.anew, hOff], by simp [Tally.anew]⟩

end Tally.Listed

/-- In every run a step that handles no errors is listed as it stands. -/
theorem Course.Reaches.listed (hg : g.Sound) {ok : Scheduler g → Prop} {p : Course g}
    (hReach : Course.Reaches ok p) {i : g.Index} (hKind : g.kindOf i ≠ .errorHandler) :
    (p.scheduler.tally i).Listed := by
  obtain ⟨_, -, -, hListed⟩ := hReach.coherent_invariant hg (P := fun _ s => (s.tally i).Listed)
    (Q := fun _ s => (s.tally i).Listed)
    (fun s hFresh => by
      obtain ⟨status, hStatus, hTally⟩ := Scheduler.tally_enter hFresh i
      exact hTally ▸ .blank hStatus)
    (fun _ _ _ _ hMove hCoherent h => h.step (hMove.tally_step hg hCoherent hKind))
    (fun _ _ _ _ _ hReceives hCoherent h => h.step (hReceives.tally_step hg hCoherent hKind))
    (fun _ _ _ _ _ h => h)
    (fun _ _ h => h)
    (fun s _ _ h => (s.tally_conclude i).symm ▸ h)
  exact hListed

/-! ## Outputs and variables -/

namespace Scheduler

/-- A run that was submitted with some variables has the outputs of its steps among its variables:
every output is the variable with the id of its step, and a completed step has one. The variables
that belong to no step are as they were submitted. -/
structure Booked (vars : Dict Json) (s : Scheduler g) : Prop where
  keys : (Dict.keys s.state.vars).Nodup
  submitted : ∀ key, (∀ i, g.idOf i ≠ key) → Dict.find? s.state.vars key = Dict.find? vars key
  stored : ∀ i output, (s.state.result i).output = some output →
    Dict.find? s.state.vars (g.idOf i) = some output
  given : ∀ i, s.statusOf i = .completed → (s.state.result i).output ≠ none

/-- A command changes no variable. -/
theorem vars_obey (s : Scheduler g) (c : Command) : (s.obey c).state.vars = s.state.vars := by
  cases hPaused : s.paused <;> cases c <;>
    simp [obey, hPaused, mapState, finish, RunState.finish]

namespace Booked

variable {vars : Dict Json} {s s' : Scheduler g} {k : g.Index}

/-- A change of neither variables nor results. -/
theorem of_same (h : Booked vars s) (hVars : s'.state.vars = s.state.vars)
    (hResult : ∀ i, s'.state.result i = s.state.result i) : Booked vars s' where
  keys := hVars ▸ h.keys
  submitted := hVars ▸ h.submitted
  stored i output hOutput := hVars ▸ h.stored i output (hResult i ▸ hOutput)
  given i hStatus := by
    rw [statusOf, RunState.statusOf, hResult] at hStatus
    rw [hResult]
    exact h.given i hStatus

/-- A change of the result of one step that keeps its output and does not complete it. -/
theorem of_result {r : StepResult} (h : Booked vars s) (hVars : s'.state.vars = s.state.vars)
    (hResult : ∀ i, s'.state.result i = if k = i then r else s.state.result i)
    (hOutput : r.output = (s.state.result k).output)
    (hStatus : r.status = .completed → s.statusOf k = .completed) : Booked vars s' where
  keys := hVars ▸ h.keys
  submitted := hVars ▸ h.submitted
  stored i output hSome := by
    rw [hResult] at hSome
    rw [hVars]
    split at hSome
    · rename_i hSame
      subst hSame
      exact h.stored k output (hOutput ▸ hSome)
    · exact h.stored i output hSome
  given i hCompleted := by
    rw [statusOf, RunState.statusOf, hResult] at hCompleted
    rw [hResult]
    split at hCompleted
    · rename_i hSame
      subst hSame
      rw [if_pos rfl, hOutput]
      exact h.given k (hStatus hCompleted)
    · rw [if_neg ‹_›]
      exact h.given i hCompleted

theorem setStatus {status : StepStatus} (h : Booked vars s) (hStatus : status ≠ .completed) :
    Booked vars (s.setStatus k status) :=
  h.of_result rfl (fun i => result_setStatus s k i status) rfl fun hSame => absurd hSame hStatus

theorem skip (h : Booked vars s) : Booked vars (s.skip k) :=
  h.of_result rfl (fun i => result_skip s k i) rfl nofun

theorem recordFailure {error : StepError} (h : Booked vars s) :
    Booked vars (s.recordFailure k error) :=
  h.of_result rfl (fun i => result_recordFailure s k i error) rfl nofun

theorem restart (h : Booked vars s) : Booked vars (s.restart k) :=
  h.of_result rfl (fun i => result_restart s k i) rfl nofun

theorem markRecovered {handler : g.Index} (h : Booked vars s) :
    Booked vars (s.markRecovered k handler) :=
  h.of_result rfl (fun i => result_markRecovered s k i handler) rfl id

theorem abandonLoop {loop : g.Index} (h : Booked vars s) : Booked vars (s.abandonLoop loop) :=
  abandonLoop_keeps (P := Booked vars) (fun _ _ _ ht => ht.of_same rfl fun _ => rfl)
    (fun _ _ ht => ht.skip) h

theorem retryLater? {error : StepError} (hRetry : s.retryLater? k error = some s')
    (h : Booked vars s) : Booked vars s' := by
  obtain ⟨-, -, rfl⟩ := eq_of_retryLater? hRetry
  exact h.of_result rfl (fun i => result_mapResult k i s.state _) rfl nofun

theorem receives {m : Message g} {hand : Hand g} (hReceives : Receives s m hand s')
    (h : Booked vars s) : Booked vars s' := by
  cases hReceives with
  | command => exact h.of_same (vars_obey s _) fun i => congrArg Prod.fst (s.record_obey i _)
  | stale | early | ended => exact h.of_same rfl fun _ => rfl
  | due => exact setStatus (h.of_same rfl fun _ => rfl) nofun

theorem conclude (h : Booked vars s) : Booked vars s.conclude := by
  rcases s.conclude_cases with hSame | ⟨-, hSame⟩ | ⟨-, -, hSame⟩ <;> rw [hSame]
  · exact h
  · exact h.of_same rfl fun _ => rfl
  · exact h.of_same rfl fun _ => rfl

section

variable (hIds : ∀ i j, g.idOf i = g.idOf j → i = j)

include hIds

/-- A change of the result of one step and, together with its output, of its variable. -/
theorem of_update {r : StepResult} (h : Booked vars s)
    (hResult : ∀ i, s'.state.result i = if k = i then r else s.state.result i)
    (hKeys : (Dict.keys s'.state.vars).Nodup)
    (hVars : ∀ key, Dict.find? s'.state.vars key =
      if g.idOf k = key then r.output else Dict.find? s.state.vars key)
    (hGiven : r.status = .completed → r.output ≠ none) : Booked vars s' where
  keys := hKeys
  submitted key hOther := by
    rw [hVars, if_neg (hOther k)]
    exact h.submitted key hOther
  stored i output hOutput := by
    rw [hResult] at hOutput
    rw [hVars]
    split at hOutput
    · rw [if_pos (congrArg g.idOf ‹_›)]
      exact hOutput
    · rw [if_neg (mt (hIds k i) ‹_›)]
      exact h.stored i output hOutput
  given i hCompleted := by
    rw [statusOf, RunState.statusOf, hResult] at hCompleted
    rw [hResult]
    split at hCompleted
    · rw [if_pos ‹_›]
      exact hGiven hCompleted
    · rw [if_neg ‹_›]
      exact h.given i hCompleted

/-- A step that gives an output stores it in its variable. -/
theorem complete {output : Json} (h : Booked vars s) : Booked vars (s.complete k output) :=
  h.of_update hIds (fun i => result_complete s k i output) (Dict.nodup_keys_insert h.keys _ _)
    (Dict.find?_insert s.state.vars (g.idOf k) output) fun _ => Option.some_ne_none output

/-- A step that is as if it had never run has no output and no variable. -/
theorem resetMember (h : Booked vars s) : Booked vars (s.resetMember k) :=
  h.of_update hIds (fun i => result_resetMember s k i) (Dict.nodup_keys_remove h.keys _)
    (Dict.find?_remove h.keys (g.idOf k)) nofun

theorem resetBody {loop : g.Index} (h : Booked vars s) : Booked vars (s.resetBody loop) :=
  foldl_keeps (fun _ _ h => h.resetMember hIds) _ h

theorem completeLoop {iterations : List Iteration} (h : Booked vars s) :
    Booked vars (s.completeLoop k iterations) := by
  have hClosed : Booked vars (s.mapControl k fun c => { c with frame := none }) :=
    h.of_same rfl fun _ => rfl
  exact complete hIds (hClosed.of_result rfl
    (fun i => result_mapResult k i s.state fun r => { r with iterations }) rfl id)

theorem applyRecovery {handler : g.Index} {a : Activation g} (h : Booked vars s) :
    Booked vars (s.applyRecovery handler a) := by
  have hRecovers := s.recovers handler a
  generalize s.applyRecovery handler a = t at hRecovers
  cases hRecovers with
  | unset => exact h
  | skipped => exact h.skip.markRecovered
  | restarted => exact h.restart.markRecovered
  | substituted =>
    refine markRecovered ?_
    unfold substitute
    refine complete hIds ?_
    split
    · exact h.of_same rfl fun _ => rfl
    · exact h
  | stopped => exact h.of_same rfl fun _ => rfl

/-- Every move keeps the outputs among the variables. -/
theorem move {hand hand' : Hand g} (hMove : Move hand s hand' s') (h : Booked vars s) :
    Booked vars s' := by
  cases hMove with
  | promote => exact h.setStatus nofun
  | passOver => exact h.skip
  | nextRound => exact resetBody hIds (h.of_same rfl fun _ => rfl)
  | lastRound => exact h.completeLoop hIds
  | begin => exact h.of_result rfl (fun i => result_begin s _ i) rfl nofun
  | decide | crash => exact h.of_same rfl fun _ => rfl
  | forget => exact h.of_result rfl (fun i => result_mapResult _ i s.state _) rfl id
  | openLoop => exact (h.resetBody hIds).of_same rfl fun _ => rfl
  | emptyLoop => exact (h.resetBody hIds).complete hIds
  | call _ hInput =>
    simp only [dispatch, hInput]
    exact h.of_same rfl fun _ => rfl
  | complete => exact h.complete hIds
  | recover => exact applyRecovery hIds ((h.complete hIds).of_same rfl fun _ => rfl)
  | retry hRetry => exact h.retryLater? hRetry
  | giveUp => exact h.recordFailure.abandonLoop
  | activate => exact setStatus (h.recordFailure.of_same rfl fun _ => rfl) nofun
  | failRun => exact h.recordFailure.of_same rfl fun _ => rfl

end

end Booked

end Scheduler

/-! ## What a snapshot shows -/

namespace RunState

variable {st : RunState g} (hIds : ∀ i j, g.idOf i = g.idOf j → i = j)

include hIds

theorem step?_snapshot (now : Instant) (i : g.Index) :
    (st.snapshot now).step? (g.idOf i) = some (st.result i) := by
  refine (Dict.find?_eq_some_iff fun r r' hr hr' => ?_).mpr ?_
  · obtain ⟨j, -, hj⟩ := List.mem_map.mp hr
    obtain ⟨k, -, hk⟩ := List.mem_map.mp hr'
    obtain ⟨hId, rfl⟩ := Prod.mk.inj hj
    obtain ⟨hId', rfl⟩ := Prod.mk.inj hk
    rw [hIds j k (hId.trans hId'.symm)]
  · exact List.mem_map.mpr ⟨i, List.mem_finRange i, rfl⟩

theorem mem_markedIds (marks : PerStep g.size Bool) (i : g.Index) :
    g.idOf i ∈ markedIds marks ↔ marks.get i = true := by
  unfold markedIds Text.sorted
  rw [List.mem_mergeSort, List.mem_map]
  constructor
  · rintro ⟨j, hj, hId⟩
    rw [← hIds j i hId]
    exact (List.mem_filter.mp hj).2
  · exact fun hMarked => ⟨i, List.mem_filter.mpr ⟨List.mem_finRange i, hMarked⟩, rfl⟩

theorem find?_outputs (i : g.Index) (output : Json) :
    Dict.find? st.outputs (g.idOf i) = some output ↔
      st.statusOf i = .completed ∧ (st.result i).output = some output := by
  have hEntry : ∀ v, (g.idOf i, v) ∈ st.outputs ↔
      st.statusOf i = .completed ∧ (st.result i).output = some v := by
    intro v
    simp only [outputs, List.mem_filterMap, Option.ite_none_right_eq_some, Option.map_eq_some_iff,
      Prod.mk.injEq]
    constructor
    · rintro ⟨j, -, hCompleted, _, hOutput, hId, rfl⟩
      obtain rfl := hIds j i hId
      exact ⟨hCompleted, hOutput⟩
    · rintro ⟨hCompleted, hOutput⟩
      exact ⟨i, List.mem_finRange i, hCompleted, v, hOutput, rfl, rfl⟩
  rw [Dict.find?_eq_some_iff, hEntry]
  intro v w hv hw
  exact Option.some.inj (((hEntry v).mp hv).2.symm.trans ((hEntry w).mp hw).2)

end RunState

/-! ## Whole runs -/

namespace Course

/-- A reader of a run can see snapshots of the scheduler that the run was submitted with, and of the
scheduler after the start and after each turn. -/
inductive Publishes (s : Scheduler g) : Scheduler g → Prop
  | submitted : Publishes s s
  | turns {p : Course g} (now : Instant) (hRun : Relation.ReflTransGen Turn (start s now) p) :
      Publishes s p.scheduler

section

variable {runId workflowId workflowName : String} {input : Json} {vars : Dict Json}
  {created : Instant} {stepTimeout : Option Duration}

theorem reached_of_turns {p q : Course g} (hReach : Reached p)
    (hRun : Relation.ReflTransGen Turn p q) : Reached q := by
  induction hRun with
  | refl => exact hReach
  | tail _ hTurn ih => exact ih.turn hTurn trivial

theorem booked_initial (hVars : (Dict.keys vars).Nodup) :
    Scheduler.Booked vars (Scheduler.initial
      (RunState.initial g runId workflowId workflowName input vars created) stepTimeout) where
  keys := hVars
  submitted _ _ := rfl
  stored i output hOutput := by
    simp [Scheduler.initial, RunState.initial, RunState.result, StepResult.initial] at hOutput
  given i hCompleted := by
    simp [Scheduler.initial, RunState.initial, Scheduler.statusOf, RunState.statusOf,
      RunState.result, StepResult.initial] at hCompleted

theorem booked_launch (hg : g.Wired) {s : Scheduler g} (h : s.Booked vars) :
    s.launch.Booked vars := by
  have hEnter : s.enter.Booked vars :=
    Scheduler.Booked.setStatus (Scheduler.foldl_keeps (fun _ _ h => h.skip) _ h) nofun
  obtain ⟨_, hMoves, -⟩ := Scheduler.advance_goes hg.toSound s.enter
  exact hMoves.invariant (P := fun _ s => s.Booked vars) (fun _ _ _ _ hMove h => h.move hg.ids hMove)
    hEnter

theorem Turn.booked (hg : g.Wired) {p q : Course g} (hTurn : Turn p q)
    (h : p.scheduler.Booked vars) : q.scheduler.Booked vars := by
  cases hTurn with
  | conclude now =>
    have hNow : ({ p.scheduler with now } : Scheduler g).Booked vars := h.of_same rfl fun _ => rfl
    exact hNow.conclude
  | read m now hOpen =>
    have hNow : ({ p.scheduler with now } : Scheduler g).Booked vars := h.of_same rfl fun _ => rfl
    obtain ⟨_, _, hReceives, _, hMoves, -⟩ := read_goes hg.toSound hOpen m now
    have hDone := hMoves.invariant (P := fun _ s => s.Booked vars)
      (fun _ _ _ _ hMove h => h.move hg.ids hMove) (hNow.receives hReceives)
    exact hDone.of_same rfl fun _ => rfl

theorem Publishes.booked (hg : g.Wired) {s t : Scheduler g} (h : Publishes s t)
    (hBooked : s.Booked vars) : t.Booked vars := by
  cases h with
  | submitted => exact hBooked
  | turns now hRun =>
    induction hRun with
    | refl =>
      have hNow : ({ s with now } : Scheduler g).Booked vars := hBooked.of_same rfl fun _ => rfl
      exact (booked_launch hg hNow).of_same rfl fun _ => rfl
    | tail _ hTurn ih => exact hTurn.booked hg ih

theorem Publishes.listed (hg : g.Wired) {t : Scheduler g} (h : Publishes (Scheduler.initial
      (RunState.initial g runId workflowId workflowName input vars created) stepTimeout) t)
    {i : g.Index} (hKind : g.kindOf i ≠ .errorHandler) : (t.tally i).Listed := by
  cases h with
  | submitted =>
    have hFresh : Scheduler.IsFresh (Scheduler.initial
        (RunState.initial g runId workflowId workflowName input vars created) stepTimeout) :=
      ⟨runId, workflowId, workflowName, input, vars, created, stepTimeout, created, rfl⟩
    exact Scheduler.tally_of_fresh hFresh i ▸ .blank (.inl rfl)
  | turns now hRun =>
    exact (reached_of_turns (.start _ _ _ _ _ _ now _ trivial) hRun).listed hg.toSound hKind

/-- In every snapshot of a run, from its submission on, each step that handles no errors is listed as
completed exactly if it is completed, and as failed exactly if it has failed. The recorded output of
each completed step is the variable with its id, and what all expressions see of the step. And the
variables that belong to no step are as they were submitted. -/
theorem snapshots_consistent {allowOrphans : Bool} {steps : List Step} {g : Graph}
    (hCompile : Graph.compile allowOrphans steps = .ok g) (hVars : (Dict.keys vars).Nodup)
    {t : Scheduler g} (hPublishes : Publishes (Scheduler.initial
      (RunState.initial g runId workflowId workflowName input vars created) stepTimeout) t)
    (time : Instant) :
    (∀ i, ∃ r, (t.state.snapshot time).step? (g.idOf i) = some r ∧
      (g.kindOf i ≠ .errorHandler →
        (g.idOf i ∈ (t.state.snapshot time).completed ↔ r.status = .completed) ∧
        (g.idOf i ∈ (t.state.snapshot time).failed ↔ r.status = .failed)) ∧
      (r.status = .completed → ∃ output, r.output = some output ∧
        Dict.find? (t.state.snapshot time).vars (g.idOf i) = some output ∧
        ∀ j, Dict.find? (t.dataContext j).node (g.idOf i) = some output)) ∧
    ∀ key, (∀ i, g.idOf i ≠ key) →
      Dict.find? (t.state.snapshot time).vars key = Dict.find? vars key := by
  have hg := Graph.wired_of_compile hCompile
  have hBooked := hPublishes.booked hg (booked_initial hVars)
  refine ⟨fun i => ⟨t.state.result i, RunState.step?_snapshot hg.ids time i, fun hKind => ?_,
    fun hCompleted => ?_⟩, hBooked.submitted⟩
  · have hListed := hPublishes.listed hg hKind
    exact ⟨(RunState.mem_markedIds hg.ids _ i).trans hListed.completed,
      (RunState.mem_markedIds hg.ids _ i).trans hListed.failed⟩
  · obtain ⟨output, hOutput⟩ := Option.ne_none_iff_exists'.mp (hBooked.given i hCompleted)
    exact ⟨output, hOutput, hBooked.stored i output hOutput,
      fun _ => (RunState.find?_outputs hg.ids i output).mpr ⟨hCompleted, hOutput⟩⟩

end

/-- A step that has run in two rounds of a loop is listed as completed, and its last output is shown
beside a variable that the run was submitted with. -/
theorem snapshots_of_looped :
    ∃ g t, Graph.compile false Script.looped.steps = .ok g ∧
      Publishes (Script.looped.submission [("region", .str "eu")] g) t ∧
      ∀ time, "a" ∈ (t.state.snapshot time).completed ∧
        (∃ output, Dict.find? (t.state.snapshot time).vars "a" = some output ∧
          ∀ j, Dict.find? (t.dataContext j).node "a" = some output) ∧
        Dict.find? (t.state.snapshot time).vars "region" = some (.str "eu") := by
  have hShows : Script.looped.showsWith [("region", .str "eu")] (fun g p => ∃ i : g.Index,
      g.idOf i = "a" ∧ g.kindOf i ≠ StepKind.errorHandler ∧
        p.scheduler.statusOf i = StepStatus.completed ∧ ∀ j : g.Index, g.idOf j ≠ "region") := by
    decide +kernel
  obtain ⟨g, p, hCompile, hRun, i, hId, hKind, hCompleted, hOther⟩ := Script.exists_of_showsWith hShows
  have hKeys : (Dict.keys [("region", Json.str "eu")]).Nodup := by decide
  refine ⟨g, p.scheduler, hCompile, .turns _ hRun, fun time => ?_⟩
  obtain ⟨hSteps, hVars⟩ := snapshots_consistent hCompile hKeys (.turns _ hRun) time
  obtain ⟨r, hResult, hListed, hOutput⟩ := hSteps i
  rw [RunState.step?_snapshot (Graph.wired_of_compile hCompile).ids] at hResult
  obtain rfl := Option.some.inj hResult
  obtain ⟨output, -, hVar, hNode⟩ := hOutput hCompleted
  exact ⟨hId ▸ (hListed hKind).1.mpr hCompleted, ⟨output, hId ▸ hVar, hId ▸ hNode⟩,
    hVars "region" hOther⟩

end Course

end Workflow

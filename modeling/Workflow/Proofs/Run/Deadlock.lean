/-
Workflow.Proofs.Run.Deadlock — why a run gets stuck.

A run is stuck when nothing is under way although steps remain. Then no
loop is in a round and nothing is running, and every step that remains is
pending behind a failed step: follow the edges back from any pending step
to the first one that is pending, and one of the edges into it leaves a
failed step. That step has been left failed, for as long as nobody waits
but pending steps and no settled handler has a failure on its hands, every
failed step outside of bodies has a handler under way.

* `Scheduler.IsIdle` — nothing is under way.
* `Idle.frame_eq_none`, `Idle.blocked` — where the steps stand then.
* `Course.deadlock_iff` — which runs end with a deadlock.
-/
import Workflow.Proofs.Run.Completion
import Workflow.Proofs.Run.Rest

namespace Workflow

variable {g : Graph}

namespace Scheduler

/-! ## What keeps a step pending -/

theorem edgeState_of_settled {s : Scheduler g} {source : g.Index}
    (h : (s.statusOf source).isSettled) (tag : EdgeTag) : s.edgeState source tag ≠ .undecided := by
  unfold edgeState
  dsimp only
  cases hStatus : s.statusOf source <;> cases tag <;> simp_all [StepStatus.isSettled] <;>
    split <;> simp

theorem edgeState_of_frame {s : Scheduler g} {loop : g.Index} (hRunning : s.statusOf loop = .running)
    (hFrame : (s.controlOf loop).frame ≠ none) : s.edgeState loop .loopBody = .live := by
  simp [edgeState, hRunning, Option.isSome_iff_ne_none, hFrame]

section

variable {s : Scheduler g} {i : g.Index} (hNone : s.promotion? i = none)
  (hPending : s.statusOf i = .pending) (hWaiting : (s.controlOf i).waiting = false)
  (hEntry : i ≠ g.entry)
include hNone hPending hWaiting hEntry

/-- A pending handler that is not promoted guards a step that is not settled. -/
theorem exists_unsettled_guarded (hKind : g.kindOf i = .errorHandler) :
    ∃ j ∈ g.guarded i, ¬ (s.statusOf j).isSettled := by
  unfold promotion? at hNone
  rw [if_neg (by simp [hPending, hWaiting, hEntry]), if_pos hKind] at hNone
  unfold handlerPromotion? at hNone
  split at hNone
  · cases hNone
  · rename_i hSome
    simpa using hSome

/-- Any other pending step that is not promoted has an undecided edge into it. -/
theorem exists_undecided_incoming (hKind : g.kindOf i ≠ .errorHandler)
    (hEdge : ∃ e ∈ g.edges, e.target = i) :
    ∃ source tag, (source, tag) ∈ g.incoming i ∧ s.edgeState source tag = .undecided := by
  unfold promotion? at hNone
  rw [if_neg (by simp [hPending, hWaiting, hEntry]), if_neg hKind] at hNone
  unfold edgePromotion? at hNone
  dsimp only at hNone
  split at hNone
  · rename_i hUndecided
    simp only [Bool.or_eq_true, List.isEmpty_iff, List.map_eq_nil_iff, List.contains_eq_mem,
      decide_eq_true_eq, List.mem_map, Prod.exists] at hUndecided
    refine hUndecided.resolve_left fun hEmpty => ?_
    obtain ⟨⟨source, _, tag⟩, hMem, rfl⟩ := hEdge
    have hIncoming := Graph.mem_incoming_iff.mpr hMem
    simp [hEmpty] at hIncoming
  · split at hNone <;> cases hNone

/-- A pending step that is not promoted has an edge into it from a step that is neither settled nor a
loop in a round whose body it starts. -/
theorem exists_undecided (hEdge : ∃ e ∈ g.edges, e.target = i) :
    ∃ e ∈ g.edges, e.target = i ∧ ¬ (s.statusOf e.source).isSettled ∧
      ¬ (s.statusOf e.source = .running ∧ e.tag = .loopBody ∧
        (s.controlOf e.source).frame ≠ none) := by
  by_cases hKind : g.kindOf i = .errorHandler
  · obtain ⟨j, hGuarded, hUnsettled⟩ :=
      exists_unsettled_guarded hNone hPending hWaiting hEntry hKind
    exact ⟨_, Graph.mem_guarded_iff.mp hGuarded, rfl, hUnsettled, by simp⟩
  · obtain ⟨source, tag, hMem, hState⟩ :=
      exists_undecided_incoming hNone hPending hWaiting hEntry hKind hEdge
    refine ⟨_, Graph.mem_incoming_iff.mp hMem, rfl, ?_, ?_⟩
    · intro hSettled
      exact edgeState_of_settled hSettled tag hState
    · rintro ⟨hRunning, rfl, hFrame⟩
      rw [edgeState_of_frame hRunning hFrame] at hState
      cases hState

end

/-- The entry of a run is never pending, and no step that nothing leads to is: every pending step has
an edge into it. -/
theorem exists_edge_of_pending (hg : g.Sound) {s : Scheduler g} {hand : Hand g} (hCoherent : s.board.Coherent hand)
    {i : g.Index} (hPending : s.statusOf i = .pending) :
    i ≠ g.entry ∧ ∃ e ∈ g.edges, e.target = i := by
  have hEntry : i ≠ g.entry := by
    rintro rfl
    exact hCoherent.entry.1 hPending
  have hReached : i ∉ g.orphans := fun hOrphan => by
    have hSkipped : s.statusOf i = .skipped := (hCoherent.orphan i hOrphan).1
    rw [hSkipped] at hPending
    cases hPending
  obtain ⟨e, he, hTarget, -⟩ := hg.origin i hReached hEntry
  exact ⟨hEntry, e, he, hTarget⟩

/-! ## Nothing is under way -/

/-- Whether nothing is under way: no step is ready, waits for a retry or has a call. -/
structure IsIdle (s : Scheduler g) : Prop where
  ready : ∀ i, s.statusOf i ≠ .ready
  waiting : ∀ i, (s.controlOf i).waiting = false
  call : ∀ i, (s.controlOf i).call = none

namespace IsIdle

variable {s : Scheduler g} (hg : g.Sound) (hCoherent : s.board.Coherent .free) (hRested : s.Rested)
  (h : s.IsIdle)
include hg hCoherent hRested h

/-- No loop is in a round: the first step of its body that is not settled would be promoted. -/
theorem frame_eq_none (loop : g.Index) : (s.controlOf loop).frame = none := by
  by_contra hSome
  obtain ⟨frame, hFrame⟩ := Option.ne_none_iff_exists'.mp hSome
  obtain ⟨-, hRunning, -, -, hIn⟩ := hCoherent.frame loop frame hFrame
  refine hRested.rounds loop ⟨⟨frame, hFrame, hIn⟩, ?_⟩
  refine List.all_eq_true.mpr fun i hi => ?_
  refine hg.induction_on_sources (P := fun i => i ∈ g.body loop → (s.statusOf i).isSettled) ?_ i hi
  intro i hSources hi
  by_contra hUnsettled
  have hKind := (hg.body_kind loop i hi).2.2
  have hPending : s.statusOf i = .pending := by
    have hFailed : s.statusOf i ≠ .failed := fun hFailed => by
      have hNone := hCoherent.failed loop i hi hFailed
      exact absurd (hNone.symm.trans hFrame) (by simp)
    have hNotRunning : s.statusOf i ≠ .running := fun hRunning => by
      rcases hCoherent.busy i hRunning with hCall | hRound | hHand | hLost
      · exact hCall (h.call i)
      · obtain ⟨f, hf⟩ := Option.ne_none_iff_exists'.mp hRound
        exact hKind (hCoherent.frame i f hf).1
      · cases hHand
      · cases hLost
    have hReady := h.ready i
    cases hStatus : s.statusOf i <;> simp_all [StepStatus.isSettled]
  have hEntry : i ≠ g.entry := by
    rintro rfl
    exact hCoherent.entry.1 hPending
  obtain ⟨e, he, hTarget, hSource, hLoop⟩ := exists_undecided (hRested.promoted i) hPending
    (h.waiting i) hEntry (by
      obtain ⟨e, he, hTarget, -⟩ := hg.body_origin loop i hi
      exact ⟨e, he, hTarget⟩)
  rcases hg.body_source loop i hi e he hTarget with ⟨rfl, hTag⟩ | hInner
  · exact hLoop ⟨hRunning, hTag, hSome⟩
  · exact hSource (hSources e he hTarget hInner)

theorem ne_running (i : g.Index) : s.statusOf i ≠ .running := by
  intro hRunning
  rcases hCoherent.busy i hRunning with hCall | hRound | hHand | hLost
  · exact hCall (h.call i)
  · exact hRound (h.frame_eq_none hg hCoherent hRested i)
  · cases hHand
  · cases hLost

/-- Behind every step that remains there is a failed step with an edge to a pending one. -/
theorem blocked (hNone : ∀ e ∈ g.edges, s.statusOf e.source = .failed →
    s.statusOf e.target ≠ .pending) (i : g.Index) : (s.statusOf i).isFinal := by
  have hPending : s.statusOf i ≠ .pending := by
    refine hg.induction_on_sources (P := fun i => s.statusOf i ≠ .pending) ?_ i
    intro i hSources hPending
    obtain ⟨hEntry, hEdge⟩ := exists_edge_of_pending hg hCoherent hPending
    obtain ⟨e, he, hTarget, hSource, -⟩ :=
      exists_undecided (hRested.promoted i) hPending (h.waiting i) hEntry hEdge
    have hBefore := hSources e he hTarget
    have hReady := h.ready e.source
    have hRunning := h.ne_running hg hCoherent hRested e.source
    have hFailed := hNone e he
    rw [hTarget] at hFailed
    cases hStatus : s.statusOf e.source <;> simp_all [StepStatus.isSettled]
  have hReady := h.ready i
  have hRunning := h.ne_running hg hCoherent hRested i
  cases hStatus : s.statusOf i <;> simp_all [StepStatus.isFinal]

/-- Nothing blocks a step if handlers have done what they have to do. -/
theorem not_blocked (hMatched : s.board.Matched .free) (hOpen : s.isOver = false)
    (hDutiful : s.IsDutiful) {e : Edge g.size} (he : e ∈ g.edges)
    (hFailed : s.statusOf e.source = .failed) : s.statusOf e.target ≠ .pending := by
  intro hPending
  cases hOwner : g.owner? e.source with
  | none =>
    refine hMatched.outer_ne_failed hg hCoherent ?_ ?_ e.source hOwner hFailed
    · simp only [isOver, Bool.or_eq_false_iff] at hOpen
      exact hOpen.1
    · intro k a hOwes
      have hReady := h.ready k
      have hRunning := h.ne_running hg hCoherent hRested k
      have hNotPending : s.statusOf k ≠ .pending := fun hPending => by
        have hWaits := hCoherent.owing k (by simp [hOwes]) hPending
        exact absurd (hWaits.symm.trans (h.waiting k)) (by simp)
      have hUnsettled : ¬ (s.statusOf k).isSettled := fun hSettled => by
        have hNone := hDutiful.handlers k hSettled
        exact absurd (hNone.symm.trans hOwes) (by simp)
      change s.statusOf k = .failed
      cases hStatus : s.statusOf k <;> simp_all [StepStatus.isSettled]
  | some loop =>
    have hi := hg.owner_mem _ _ hOwner
    have hTarget := (hg.body_target loop e.source hi e he rfl).2
    rcases hCoherent.closed loop (h.frame_eq_none hg hCoherent hRested loop) with hIdle | hThrough
    · have hSource : s.statusOf e.source = .pending ∨ s.statusOf e.source = .skipped :=
        hIdle e.source hi
      simp [hFailed] at hSource
    · have hFinal : (s.statusOf e.target).isFinal = true := hThrough e.target hTarget
      simp [hPending, StepStatus.isFinal] at hFinal

end IsIdle

/-! ## How a run comes to an error -/

/-- Whether the run has failed as a whole and not at one step. -/
def IsDeadlocked (s : Scheduler g) : Prop := ∃ message, s.state.error = some ⟨none, message⟩

/-- No move makes a run fail as a whole. -/
theorem Move.not_deadlocked {hand hand' : Hand g} {s s' : Scheduler g}
    (hMove : Move hand s hand' s') (h : ¬ s.IsDeadlocked) : ¬ s'.IsDeadlocked := by
  rintro ⟨message, hError⟩
  rcases hMove.shell_cases with ⟨_, _, _, _, hKept⟩ | ⟨i, reason, hFails⟩
  · exact h ⟨message, (congrArg Shell.error hKept).symm.trans hError⟩
  · cases (congrArg Shell.error hFails).symm.trans hError

theorem Moves.not_deadlocked {hand hand' : Hand g} {s s' : Scheduler g}
    (hMoves : Moves hand s hand' s') (h : ¬ s.IsDeadlocked) : ¬ s'.IsDeadlocked :=
  hMoves.invariant (P := fun _ s => ¬ s.IsDeadlocked) (fun _ _ _ _ hMove => hMove.not_deadlocked) h

theorem Receives.not_deadlocked {s s' : Scheduler g} {m : Message g} {hand : Hand g}
    (hReceive : Receives s m hand s') (h : ¬ s.IsDeadlocked) : ¬ s'.IsDeadlocked := by
  cases hReceive with
  | command =>
    rename_i c
    unfold obey
    split
    · split <;> exact h
    · split <;> exact h
    · exact h
  | _ => exact h

end Scheduler

namespace Course

/-- Whether a run is stuck: it is not over, nothing is under way, and yet a step remains behind a
failed one. -/
structure IsBlocked (p : Course g) : Prop where
  isOpen : p.scheduler.isOver = false
  stuck : p.scheduler.isStuck = true
  edge : ∃ e ∈ g.edges, p.scheduler.statusOf e.source = .failed ∧
    p.scheduler.statusOf e.target = .pending

theorem Reaches.idle_of_stuck (hg : g.Sound) {ok : Scheduler g → Prop} {p : Course g}
    (hReach : Reaches ok p) (hOpen : p.scheduler.isOver = false)
    (hStuck : p.scheduler.isStuck = true) :
    p.scheduler.board.Coherent .free ∧ p.scheduler.Rested ∧ p.scheduler.IsIdle := by
  refine ⟨hReach.coherent_free hg hOpen, (hReach.rested hg).resolve_left (by simp [hOpen]), ?_⟩
  simp only [Scheduler.isStuck, Bool.and_eq_true, Bool.not_eq_eq_eq_not, Bool.not_true,
    beq_iff_eq, List.isEmpty_iff, List.all_eq_true] at hStuck
  obtain ⟨⟨⟨-, hRunning⟩, hReady⟩, hWaiting⟩ := hStuck
  refine ⟨fun i hi => ?_, fun i => hWaiting i (List.mem_finRange i), fun i => ?_⟩
  · have hMem : i ∈ p.scheduler.readySteps :=
      List.mem_filter.mpr ⟨List.mem_finRange i, by simpa using hi⟩
    simp [hReady] at hMem
  · have hAccounted := (hReach.accounted hg).2
    have hNone : p.calls ++ p.scheduler.board.placed = [] :=
      List.length_eq_zero_iff.mp (hAccounted.counted.symm.trans hRunning)
    refine Option.eq_none_iff_forall_ne_some.mpr fun token hCall => ?_
    have hMem := hAccounted.expected i token hCall
    simp [hNone] at hMem

/-- A stuck run has unfinished steps just when a step is pending behind a failed one. -/
theorem Reaches.unfinished_iff (hg : g.Sound) {ok : Scheduler g → Prop} {p : Course g}
    (hReach : Reaches ok p) (hOpen : p.scheduler.isOver = false)
    (hStuck : p.scheduler.isStuck = true) :
    p.scheduler.unfinishedSteps ≠ [] ↔ p.IsBlocked := by
  obtain ⟨hCoherent, hRested, hIdle⟩ := hReach.idle_of_stuck hg hOpen hStuck
  constructor
  · intro hUnfinished
    refine ⟨hOpen, hStuck, ?_⟩
    by_contra hNone
    refine hUnfinished (List.filter_eq_nil_iff.mpr fun i _ => ?_)
    have hFinal := hIdle.blocked hg hCoherent hRested (fun e he hFailed hPending =>
      hNone ⟨e, he, hFailed, hPending⟩) i
    simp [hFinal]
  · rintro ⟨-, -, e, he, -, hPending⟩ hEmpty
    have hFinal := List.filter_eq_nil_iff.mp hEmpty e.target (List.mem_finRange _)
    simp [hPending, StepStatus.isFinal] at hFinal

/-- As long as handlers do what they have to do, no run is blocked. -/
theorem Reaches.not_blocked (hg : g.Sound) {p : Course g}
    (hReach : Reaches Scheduler.IsDutiful p) : ¬ p.IsBlocked := by
  rintro ⟨hOpen, hStuck, e, he, hFailed, hPending⟩
  obtain ⟨hCoherent, hRested, hIdle⟩ := hReach.idle_of_stuck hg hOpen hStuck
  have hMatched := hReach.matched_free hg (fun _ h => h.calm) hOpen
  exact hIdle.not_blocked hg hCoherent hRested hMatched hOpen hReach.holds he hFailed hPending

theorem not_deadlocked_of_enter {s : Scheduler g} (hFresh : s.IsFresh) : ¬ s.enter.IsDeadlocked := by
  obtain ⟨_, _, _, _, _, _, _, _, rfl⟩ := hFresh
  rintro ⟨message, hError⟩
  cases (congrArg Shell.error (Scheduler.shell_enter _)).symm.trans hError

/-- A run that is not over has not failed. -/
theorem Reaches.not_deadlocked (hg : g.Sound) {ok : Scheduler g → Prop} {p : Course g}
    (hReach : Reaches ok p) (hOpen : p.scheduler.isOver = false) :
    ¬ p.scheduler.IsDeadlocked := by
  obtain ⟨-, -, h⟩ := hReach.invariant (P := fun _ s => ¬ s.IsDeadlocked)
    (Q := fun _ s => s.isOver = false → ¬ s.IsDeadlocked) hg
    (fun _ => not_deadlocked_of_enter)
    (fun _ _ _ _ hMove => hMove.not_deadlocked)
    (fun _ _ _ _ hOpen hReceive h => hReceive.not_deadlocked (h hOpen))
    (fun _ _ _ _ _ h _ => h) (fun _ _ h => h) (fun s _ _ h => by
      rcases s.conclude_cases with hSame | ⟨-, hSame⟩ | ⟨-, -, hSame⟩
      · rw [hSame]
        exact h
      · rw [hSame]
        exact fun hNot => absurd hNot (by simp [Scheduler.isOver, Scheduler.finish,
          Scheduler.mapState, RunState.finish, RunState.isFinal, RunStatus.isFinal])
      · rw [hSame]
        exact fun hNot => absurd hNot (by simp [Scheduler.isOver, Scheduler.failRun,
          Scheduler.mapState, RunState.failRun, RunState.finish, RunState.isFinal,
          RunStatus.isFinal]))
  exact h hOpen

/-- A run has failed as a whole just when it has been concluded while it was blocked. -/
theorem Reaches.deadlocked_iff (hg : g.Sound) {ok : Scheduler g → Prop} {p : Course g}
    (hReach : Reaches ok p) :
    p.scheduler.IsDeadlocked ↔
      ∃ q now, Reaches ok q ∧ q.IsBlocked ∧ p = q.conclude now := by
  constructor
  · intro hDeadlocked
    cases hReach with
    | start runId workflowId workflowName input vars created now stepTimeout hOk =>
      obtain ⟨_, hMoves, -⟩ := Scheduler.advance_goes hg (Scheduler.enter _)
      refine absurd hDeadlocked (hMoves.not_deadlocked (not_deadlocked_of_enter ?_))
      exact ⟨runId, workflowId, workflowName, input, vars, created, stepTimeout, now, rfl⟩
    | turn hBefore hTurn hOk =>
      rename_i q
      cases hTurn with
      | conclude now hOpen =>
        have hNot := hBefore.not_deadlocked hg hOpen
        refine ⟨q, now, hBefore, ?_, rfl⟩
        rcases ({ q.scheduler with now } : Scheduler g).conclude_cases with
          hSame | ⟨-, hSame⟩ | ⟨hUnfinished, hStuck, -⟩
        · exact absurd ((congrArg Scheduler.IsDeadlocked hSame).mp hDeadlocked) hNot
        · exact absurd ((congrArg Scheduler.IsDeadlocked hSame).mp hDeadlocked) hNot
        · exact (hBefore.unfinished_iff hg hOpen hStuck).mp hUnfinished
      | read m now hOpen _ _ =>
        obtain ⟨_, s, hReceive, _, hMoves, -⟩ := read_goes hg hOpen m now
        exact absurd hDeadlocked (hMoves.not_deadlocked
          (hReceive.not_deadlocked (hBefore.not_deadlocked hg hOpen)))
  · rintro ⟨q, now, hBefore, hBlocked, rfl⟩
    have hUnfinished := (hBefore.unfinished_iff hg hBlocked.isOpen hBlocked.stuck).mpr hBlocked
    have hConclude : (q.conclude now).scheduler = ({ q.scheduler with now } : Scheduler g).failRun
        none (Scheduler.deadlockMessage (q.scheduler.unfinishedSteps.map g.idOf)) := by
      have hSome : ¬ ({ q.scheduler with now } : Scheduler g).unfinishedSteps.isEmpty = true :=
        fun hEmpty => hUnfinished (List.isEmpty_iff.mp hEmpty)
      exact (if_neg hSome).trans (if_pos hBlocked.stuck)
    rw [hConclude]
    exact ⟨_, rfl⟩

end Course

/-- A run ends with a deadlock if and only if it is concluded while a step is pending behind a failed
one and nothing is under way. That never happens as long as nobody waits but pending steps and no
settled handler has a failure on its hands. -/
theorem Course.deadlock_iff {allowOrphans : Bool} {steps : List Step} {g : Graph}
    (hCompile : Graph.compile allowOrphans steps = .ok g) {p : Course g}
    (hReach : Course.Reached p) :
    (p.scheduler.IsDeadlocked ↔
      ∃ q now, Course.Reached q ∧ q.IsBlocked ∧ p = q.conclude now) ∧
    (p.scheduler.isOver = false → p.scheduler.isStuck = true →
      (p.scheduler.unfinishedSteps ≠ [] ↔ p.IsBlocked)) ∧
    (Course.Reaches Scheduler.IsDutiful p → ¬ p.IsBlocked ∧ ¬ p.scheduler.IsDeadlocked) := by
  have hg := Graph.sound_of_compile hCompile
  refine ⟨hReach.deadlocked_iff hg, hReach.unfinished_iff hg, fun hDutiful => ?_⟩
  refine ⟨hDutiful.not_blocked hg, fun hDeadlocked => ?_⟩
  obtain ⟨q, _, hReach', hBlocked, -⟩ := (hDutiful.deadlocked_iff hg).mp hDeadlocked
  exact hReach'.not_blocked hg hBlocked

/-- What comes after a failed step goes on when the handler has done its work. -/
theorem Course.not_deadlocked_of_handled :
    ∃ g p, Graph.compile false (Script.handled "a").steps = .ok g ∧ Course.Reached (g := g) p ∧
      p.scheduler.isOver = true ∧ ¬ p.scheduler.IsDeadlocked := by
  have hShows : (Script.handled "a").shows (fun _ s => s.IsDutiful) (fun _ p =>
      p.scheduler.isOver = true) := by
    decide +kernel
  obtain ⟨g, p, hCompile, hReach, hOver⟩ := Script.exists_of_shows hShows
  refine ⟨g, p, hCompile, hReach.reached, hOver, ?_⟩
  exact ((Course.deadlock_iff hCompile hReach.reached).2.2 hReach).2

/-- A run can end with a deadlock: what comes after a failed step waits for ever when the handler has
been taken care of itself. -/
theorem Course.deadlocked_of_handlerHandled :
    ∃ g p, Graph.compile false (Script.handlerHandled "a").steps = .ok g ∧
      Course.Reached (g := g) p ∧ p.scheduler.state.status = .failed ∧
      p.scheduler.IsDeadlocked := by
  have hShows : (Script.handlerHandled "a").shows (fun _ _ => True) (fun _ p =>
      p.scheduler.state.status = .failed ∧
        ∃ e ∈ p.scheduler.state.error, e.stepId = none) := by
    decide +kernel
  obtain ⟨g, p, hCompile, hReach, hFailed, ⟨_, message⟩, hError, rfl⟩ :=
    Script.exists_of_shows hShows
  exact ⟨g, p, hCompile, hReach, hFailed, message, hError⟩

end Workflow

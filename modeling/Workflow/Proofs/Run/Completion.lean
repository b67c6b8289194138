/-
Workflow.Proofs.Run.Completion — what a completed run looks like.

A run is completed as soon as no step has anything left to do, and a failed
step has not. So a completed run may have failed steps, if they are left
failed: by a handler that was handed another failure, by a handler that was
itself taken care of while it had a failure on its hands, or by a loop that
was taken care of after a step of its body had failed. A completed run in
which none of this has happened is clean, and so is no other.

* `Snapshot.IsClean` — all steps are completed or skipped, and none is
  listed as failed.
* `Scheduler.IsKept` — nobody has left a step failed.
* `Matched.outer_ne_failed` — who must have been left with a failed step.
* `Course.isClean_iff_kept` — which completed runs are clean; some are not.
-/
import Workflow.Proofs.Run.Handlers

namespace Workflow

variable {g : Graph}

/-- Whether every step is completed or skipped, and none is listed as failed. -/
def Snapshot.IsClean (s : Snapshot) : Prop :=
  (∀ r ∈ s.stepResults, r.2.status.isSettled) ∧ s.failed = []

theorem RunState.markedIds_eq_nil_iff {marks : PerStep g.size Bool} :
    markedIds marks = [] ↔ ∀ i, marks.get i = false := by
  have hLength : (markedIds marks).length = (g.indices.filter fun i => marks.get i).length := by
    simp [markedIds, Text.sorted]
  rw [← List.length_eq_zero_iff, hLength, List.length_eq_zero_iff, List.filter_eq_nil_iff]
  simp [Graph.indices]

theorem RunState.isClean_snapshot_iff (s : RunState g) (now : Instant) :
    (s.snapshot now).IsClean ↔
      (∀ i, (s.statusOf i).isSettled) ∧ ∀ i, s.failed.get i = false := by
  unfold Snapshot.IsClean
  refine and_congr ?_ RunState.markedIds_eq_nil_iff
  simp [snapshot, Graph.indices, statusOf]

namespace Board

variable {hand : Hand g} {b : Board g}

/-- If every handler with a failure on its hands has itself failed, then there is no failure outside
of bodies: each would lead to another one. -/
theorem Matched.outer_ne_failed (hg : g.Sound) (hCoherent : b.Coherent hand)
    (h : b.Matched hand) (hOpen : b.desk.status.isFinal = false)
    (hOwed : ∀ k a, (b.slot k).activation = some a → (b.slot k).status = .failed) (i : g.Index) :
    g.owner? i = none → (b.slot i).status ≠ .failed := by
  refine hg.induction_on_targets (P := fun i => g.owner? i = none → (b.slot i).status ≠ .failed)
    ?_ i
  intro i hNext hOwner hFailed
  obtain ⟨k, a, hOwes, hNamed⟩ := h.cared hOpen i hOwner hFailed
  have hEdge := (hCoherent.edge k a hOwes).1
  exact hNext _ hEdge hNamed (hg.owner?_eq_none_of_catch hEdge).2 (hOwed k a hOwes)

/-- A settled step without anybody to take care of it is settled for good. -/
theorem Matched.closed (hCoherent : b.Coherent hand) (h : b.Matched hand)
    (hHand : hand.step? = none) {i : g.Index} (hOuter : ∀ loop, i ∉ g.body loop)
    (hSettled : (b.slot i).status.isSettled) : b.Closed hand i :=
  hCoherent.closed_of_settled (h.order i) (by simp [hHand]) hOuter hSettled

end Board

/-- Nobody is settled who has left a step failed: neither a handler with a failure on its hands nor a
loop with a failed step in its body. -/
structure Scheduler.IsKept (s : Scheduler g) : Prop extends s.IsDutiful where
  loops : ∀ loop, (s.statusOf loop).isSettled → ∀ i ∈ g.body loop, s.statusOf i ≠ .failed

namespace Course

/-- Whoever is settled and has left a step failed has done so for good. -/
theorem kept_or_strands (hg : g.Sound) {p : Course g} {hand : Hand g}
    (hAtRest : Scheduler.AtRest hand p.scheduler) (hCoherent : p.scheduler.board.Coherent hand)
    (hMatched : p.scheduler.board.Matched hand) : p.scheduler.IsKept ∨ ∃ i, p.Strands i := by
  have hHand : hand.step? = none := by
    rcases hAtRest with rfl | ⟨-, i, rfl⟩ <;> rfl
  have hStill : ∀ i, p.scheduler.statusOf i = .failed →
      (p.scheduler.board.slot i).waiting = false ∧ (p.scheduler.board.slot i).call = none := by
    intro i hFailed
    obtain ⟨hWaits, hCall, -, -, -⟩ := hMatched.order i
    have hStatus : (p.scheduler.board.slot i).status = .failed := hFailed
    grind -linarith
  -- a settled handler that still has a failure to care for strands the step that failed; a settled
  -- loop strands a failed step of its body
  by_cases hHandlers : ∀ k, (p.scheduler.statusOf k).isSettled →
      (p.scheduler.controlOf k).activation = none
  · by_cases hLoops : ∀ loop, (p.scheduler.statusOf loop).isSettled →
        ∀ i ∈ g.body loop, p.scheduler.statusOf i ≠ .failed
    · exact .inl ⟨⟨fun i => (hMatched.order i).waiting, hHandlers⟩, hLoops⟩
    · right
      simp only [not_forall, not_not] at hLoops
      obtain ⟨loop, hSettled, i, hi, hFailed⟩ := hLoops
      have hOuter := hg.not_mem_body_of_owner?_eq_none
        (hg.owner?_eq_none_of_loop (hg.body_loop loop i hi))
      refine ⟨i, hand, hAtRest, hFailed, hStill i hFailed, by simp [hHand], ?_, ?_⟩
      · intro k a hOwes hNamed
        exact absurd hNamed (hCoherent.unnamed hg hi hOwes)
      · intro loop' hi'
        obtain rfl := hg.body_disjoint hi hi'
        exact hMatched.closed hCoherent hHand hOuter hSettled
  · right
    simp only [not_forall] at hHandlers
    obtain ⟨k, hSettled, hSome⟩ := hHandlers
    obtain ⟨a, hOwes⟩ := Option.ne_none_iff_exists'.mp hSome
    have hOwners := hg.owner?_eq_none_of_catch (hCoherent.edge k a hOwes).1
    have hFailed := (hMatched.order a.failed).named k a hOwes rfl
    refine ⟨a.failed, hand, hAtRest, hFailed, hStill a.failed hFailed, by simp [hHand], ?_, ?_⟩
    · intro k' a' hOwes' hNamed
      obtain rfl := (hMatched.order a.failed).once k k' a a' hOwes hOwes' rfl hNamed
      exact hMatched.closed hCoherent hHand (hg.not_mem_body_of_owner?_eq_none hOwners.2) hSettled
    · exact fun loop hi => absurd hi (hg.not_mem_body_of_owner?_eq_none hOwners.1 loop)

/-- Either nobody has ever left a step failed, or some step is left failed for good. -/
theorem Reaches.kept_or_strands (hg : g.Sound) {p : Course g} (hReach : Reached p) :
    Reaches Scheduler.IsKept p ∨ ∃ i, p.Strands i := by
  induction hReach with
  | start runId workflowId workflowName input vars created now stepTimeout hOk =>
    rcases start_justice hg ⟨runId, workflowId, workflowName, input, vars, created, stepTimeout,
      now, rfl⟩ with ⟨hCalm, -⟩ | ⟨hand, k, a, hAtRest, hForsaken⟩
    · obtain ⟨hand, hAtRest, hCoherent, hMatched⟩ := Reaches.matched hg (fun _ => id)
        (.start runId workflowId workflowName input vars created now stepTimeout hCalm)
      rcases Course.kept_or_strands hg hAtRest hCoherent hMatched with h | h
      · exact .inl (.start _ _ _ _ _ _ _ _ h)
      · exact .inr h
    · exact .inr ⟨a.failed, hand, hAtRest, hForsaken.stranded⟩
  | turn hBefore hTurn hOk ih =>
    rcases ih with hKept | ⟨i, hStrands⟩
    · rcases hTurn.justice hg (fun _ h => h.calm) hKept with
        ⟨hCalm, -⟩ | ⟨hand, k, a, hAtRest, -, hForsaken⟩
      · have hReach := (hKept.mono fun _ h => h.calm).turn hTurn hCalm
        obtain ⟨hand, hAtRest, hCoherent, hMatched⟩ := hReach.matched hg fun _ => id
        rcases Course.kept_or_strands hg hAtRest hCoherent hMatched with h | h
        · exact .inl (hKept.turn hTurn h)
        · exact .inr h
      · exact .inr ⟨a.failed, hand, hAtRest, hForsaken.stranded⟩
    · exact .inr ⟨i, hStrands.turn hg hBefore hTurn⟩

end Course

/-- No move completes a run. -/
theorem Rule.not_completed {hand hand' : Hand g} {b b' : Board g} (hRule : Rule hand b hand' b')
    (h : b.desk.status ≠ .completed) : b'.desk.status ≠ .completed := by
  cases hRule with
  | recover hOwes =>
    rw [Board.desk_recover]
    dsimp only
    split <;> simp_all
  | _ => simp_all

theorem Scheduler.Moves.not_completed (hg : g.Sound) {hand hand' : Hand g} {s s' : Scheduler g}
    (hMoves : Moves hand s hand' s') (h : s.board.desk.status ≠ .completed) :
    s'.board.desk.status ≠ .completed :=
  hMoves.invariant (P := fun _ s => s.board.desk.status ≠ .completed)
    (fun _ _ _ _ hMove => (hMove.rule hg).not_completed) h

theorem Notice.not_completed {m : Message g} {hand : Hand g} {b b' : Board g}
    (hNotice : Notice b m hand b') (h : b.desk.status ≠ .completed) :
    b'.desk.status ≠ .completed := by
  cases hNotice with
  | command _ _ _ hStatus => exact hStatus.elim id fun hSame => hSame ▸ h
  | _ => simp_all

namespace Course

/-- A run is completed only when all steps are through. -/
theorem Reaches.all_final_of_completed (hg : g.Sound) {ok : Scheduler g → Prop} {p : Course g}
    (hReach : Reaches ok p) (hCompleted : p.scheduler.state.status = .completed) :
    ∃ q, Reaches ok q ∧ q.scheduler.isOver = false ∧
      (∀ i, (q.scheduler.statusOf i).isFinal) ∧
      p.scheduler.board.slot = q.scheduler.board.slot := by
  have hRunning : ∀ s : Scheduler g, s.isOver = false → s.state.status ≠ .completed := by
    rintro s hOpen hStatus
    simp [Scheduler.isOver, RunState.isFinal, hStatus, RunStatus.isFinal] at hOpen
  -- no move completes a run: only its conclusion does, when nothing is left to do
  cases hReach with
  | start runId workflowId workflowName input vars created now stepTimeout hOk =>
    obtain ⟨_, hMoves, -⟩ := Scheduler.advance_goes hg (Scheduler.enter _)
    refine absurd hCompleted (hMoves.not_completed hg ?_)
    intro hStatus
    have hDesk := congrArg Desk.status (Scheduler.desk_enter ({ Scheduler.initial
      (RunState.initial g runId workflowId workflowName input vars created) stepTimeout with now } :
        Scheduler g))
    have hRunning : RunStatus.running = .completed := hDesk.symm.trans hStatus
    cases hRunning
  | turn hBefore hTurn hOk =>
    rename_i q
    cases hTurn with
    | conclude now hOpen =>
      have hSlot := ({ q.scheduler with now } : Scheduler g).slot_conclude
      refine ⟨q, hBefore, hOpen, ?_, hSlot⟩
      rcases ({ q.scheduler with now } : Scheduler g).conclude_cases with
        hSame | ⟨hNone, -⟩ | ⟨-, -, hSame⟩
      · exact absurd ((congrArg (·.state.status) hSame).symm.trans hCompleted) (hRunning _ hOpen)
      · intro i
        have hFinal := List.filter_eq_nil_iff.mp hNone i (List.mem_finRange i)
        exact by simpa [Scheduler.statusOf] using hFinal
      · have hFailed : RunStatus.failed = .completed :=
          (congrArg (·.state.status) hSame).symm.trans hCompleted
        cases hFailed
    | read m now hOpen _ _ =>
      obtain ⟨hand, s, hReceive, last, hMoves, -⟩ := read_goes hg hOpen m now
      exact absurd hCompleted
        (hMoves.not_completed hg (hReceive.notice.not_completed (hRunning _ hOpen)))

end Course

/-- A completed run is clean if and only if nobody has ever left a step failed. -/
theorem Course.isClean_iff_kept {allowOrphans : Bool} {steps : List Step} {g : Graph}
    (hCompile : Graph.compile allowOrphans steps = .ok g) {p : Course g}
    (hReach : Course.Reached p) (hCompleted : p.scheduler.state.status = .completed)
    (now : Instant) :
    (p.scheduler.state.snapshot now).IsClean ↔ Course.Reaches Scheduler.IsKept p := by
  have hg := Graph.sound_of_compile hCompile
  rw [RunState.isClean_snapshot_iff]
  constructor
  · rintro ⟨hSettled, -⟩
    refine (hReach.kept_or_strands hg).resolve_right ?_
    rintro ⟨i, hand, -, hStranded⟩
    have hFailed : p.scheduler.state.statusOf i = .failed := hStranded.failed
    have hi := hSettled i
    rw [hFailed] at hi
    cases hi
  · intro hKept
    obtain ⟨q, hReach', hOpen, hFinal, hSlot⟩ := hKept.all_final_of_completed hg hCompleted
    have hCoherent := hReach'.coherent_free hg hOpen
    have hMatched := hReach'.matched_free hg (fun _ h => h.calm) hOpen
    have hRunning : q.scheduler.board.desk.status.isFinal = false := by
      simp only [Scheduler.isOver, Bool.or_eq_false_iff] at hOpen
      exact hOpen.1
    -- what is through is settled or failed, and who is settled has nothing on its hands
    have hThrough : ∀ i, (q.scheduler.statusOf i).isSettled ∨ q.scheduler.statusOf i = .failed := by
      intro i
      have hi := hFinal i
      grind -linarith
    have hOuter := hMatched.outer_ne_failed hg hCoherent hRunning fun k a hOwes => by
      refine (hThrough k).resolve_left fun hSettled => ?_
      have hNone := hReach'.holds.handlers k hSettled
      exact absurd (hNone.symm.trans hOwes) (by simp)
    have hSettled : ∀ i, (q.scheduler.statusOf i).isSettled := by
      intro i
      refine (hThrough i).resolve_right ?_
      cases hOwner : g.owner? i with
      | none => exact hOuter i hOwner
      | some loop =>
        have hi := hg.owner_mem i loop hOwner
        have hLoop := hg.owner?_eq_none_of_loop (hg.body_loop loop i hi)
        exact hReach'.holds.loops loop ((hThrough loop).resolve_right (hOuter loop hLoop)) i hi
    have hSame : ∀ i, p.scheduler.board.slot i = q.scheduler.board.slot i := congrFun hSlot
    refine ⟨fun i => ?_, fun i => ?_⟩
    · exact (congrArg (·.status.isSettled) (hSame i)).trans (hSettled i)
    · exact (congrArg Slot.listed (hSame i)).trans (hCoherent.listed i (hSettled i))

/-- Nobody has left the step failed whose handler has done its work. -/
theorem Course.kept_of_handled :
    ∃ g p, Graph.compile false (Script.handled "a").steps = .ok g ∧ Course.Reached (g := g) p ∧
      p.scheduler.state.status = .completed ∧ Course.Reaches Scheduler.IsKept p := by
  have hShows : (Script.handled "a").shows (fun _ _ => True) (fun g p =>
      p.scheduler.state.status = .completed ∧ (∀ i, (p.scheduler.state.statusOf i).isSettled) ∧
        ∀ i : g.Index, p.scheduler.state.failed.get i = false) := by
    decide +kernel
  obtain ⟨g, p, hCompile, hReach, hCompleted, hClean⟩ := Script.exists_of_shows hShows
  refine ⟨g, p, hCompile, hReach, hCompleted, ?_⟩
  exact (Course.isClean_iff_kept hCompile hReach hCompleted Course.scriptTime).mp
    ((RunState.isClean_snapshot_iff _ _).mpr hClean)

/-- A run can be completed and not clean: the step is left failed whose handler has been taken care of
itself. -/
theorem Course.completed_not_clean :
    ∃ g p, Graph.compile false (Script.handlerHandled "start").steps = .ok g ∧
      Course.Reached (g := g) p ∧ p.scheduler.state.status = .completed ∧
      ∀ now, ¬ (p.scheduler.state.snapshot now).IsClean := by
  have hShows : (Script.handlerHandled "start").shows (fun _ _ => True) (fun _ p =>
      p.scheduler.state.status = .completed ∧ ∃ i, p.scheduler.state.statusOf i = .failed) := by
    decide +kernel
  obtain ⟨g, p, hCompile, hReach, hCompleted, i, hFailed⟩ := Script.exists_of_shows hShows
  refine ⟨g, p, hCompile, hReach, hCompleted, fun now hClean => ?_⟩
  have hSettled := ((RunState.isClean_snapshot_iff _ _).mp hClean).1 i
  simp [hFailed, StepStatus.isSettled] at hSettled

end Workflow

/-
Workflow.Proofs.Run.Frontier — final statuses and the edges between steps.

The statuses of the steps come about one by one, promotion after promotion.
In the end they fit together: an edge is live or dead by the final status
and the recorded decision of its source alone, and a step outside of all
bodies is completed only behind a live edge and passed over only behind dead
ones. Steps next to error handlers are the exception, for a handler is
through before all of its failures are known.

* `Scheduler.verdict` — how an edge stands, read from its source alone.
* `Scheduler.Admitted`, `Scheduler.Excluded` — all edges into a step are
  decided, and one is live; all are dead.
* `Scheduler.Placed` — a step that its edges have put where it is.
* `Placed.move`, `Placed.receives` — moves and messages keep it there.
* `Course.frontier_equations` — completed and skipped steps fit their edges.
-/
import Workflow.Proofs.Graph.Wired
import Workflow.Proofs.Run.Promotion
import Workflow.Proofs.Run.Record
import Workflow.Proofs.Run.Replay

namespace Workflow

variable {g : Graph}

/-- Whether a step that has been let in has not gone back: it is pending only to be tried again, and
skipped only by a handler. -/
structure Board.IsIn (b : Board g) (v : g.Index) : Prop where
  pending : (b.slot v).status = .pending → (b.slot v).waiting = true
  skipped : (b.slot v).status = .skipped → (b.slot v).recoveredBy ≠ none

namespace Scheduler

/-- How an edge stands, read from the status of its source and from the decision recorded there: dead
behind a skipped step, live behind a completed one unless it is a branch not taken, and else open. -/
def verdict (s : Scheduler g) (source : g.Index) (tag : EdgeTag) : EdgeState :=
  let taken := (s.controlOf source).branch
  match s.statusOf source with
  | .skipped => .dead
  | .completed =>
    if tag = .branchTrue ∧ taken ≠ some true ∨ tag = .branchFalse ∧ taken ≠ some false then .dead
    else .live
  | _ => .undecided

/-- Outside of bodies the frontier goes by the same rule. -/
theorem edgeState_eq_verdict {s : Scheduler g} {source : g.Index} {tag : EdgeTag}
    (h : tag ≠ .loopBody) : s.edgeState source tag = s.verdict source tag := by
  unfold edgeState verdict
  cases s.statusOf source <;> cases tag <;> simp_all

/-! ## Steps and the edges into them -/

variable (s : Scheduler g) (v : g.Index)

/-- Whether all edges into a step are decided and one of them is live. -/
structure Admitted : Prop where
  decided : ∀ e ∈ g.edges, e.target = v → s.edgeState e.source e.tag ≠ .undecided
  live : ∃ e ∈ g.edges, e.target = v ∧ s.edgeState e.source e.tag = .live

/-- Whether all edges into a step are dead. -/
def Excluded : Prop := ∀ e ∈ g.edges, e.target = v → s.edgeState e.source e.tag = .dead

/-- A step that its edges have put where it is: it waits for them, it has been passed over because they
are all dead, or it has been let in along one of them. -/
inductive Placed : Prop
  | waiting (hPending : (s.board.slot v).status = .pending)
      (hWaiting : (s.board.slot v).waiting = false)
  | excluded (hSkipped : (s.board.slot v).status = .skipped) (hDead : s.Excluded v)
  | admitted (hLive : s.Admitted v) (hIn : s.board.IsIn v)

variable {s} {v}

theorem edgeState_of_record {s' : Scheduler g} {source : g.Index}
    (h : s'.record source = s.record source) (tag : EdgeTag) :
    s'.edgeState source tag = s.edgeState source tag := by
  have hStatus : s'.statusOf source = s.statusOf source := congrArg (·.1.status) h
  have hControl : s'.controlOf source = s.controlOf source := congrArg (·.2) h
  unfold edgeState
  rw [hStatus, hControl]

/-- What is decided about the edges into a step stays so if the decided edges do. -/
theorem Admitted.of_decided {s' : Scheduler g} (h : s.Admitted v)
    (hSame : ∀ e ∈ g.edges, e.target = v → s.edgeState e.source e.tag ≠ .undecided →
      s'.edgeState e.source e.tag = s.edgeState e.source e.tag) : s'.Admitted v := by
  obtain ⟨hDecided, e, he, hTarget, hLive⟩ := h
  constructor
  · intro f hf hTarget
    rw [hSame f hf hTarget (hDecided f hf hTarget)]
    exact hDecided f hf hTarget
  · exact ⟨e, he, hTarget, (hSame e he hTarget (by simp [hLive])).trans hLive⟩

theorem Excluded.of_decided {s' : Scheduler g} (h : s.Excluded v)
    (hSame : ∀ e ∈ g.edges, e.target = v → s.edgeState e.source e.tag ≠ .undecided →
      s'.edgeState e.source e.tag = s.edgeState e.source e.tag) : s'.Excluded v := by
  intro e he hTarget
  exact (hSame e he hTarget (by simp [h e he hTarget])).trans (h e he hTarget)

end Scheduler

/-! ## Steps that their edges decide about -/

/-- A step that its edges alone decide about: it neither starts the run nor handles errors, and it is
outside of all bodies and behind no error handler. -/
structure Graph.EdgeDriven (g : Graph) (v : g.Index) : Prop where
  start : g.kindOf v ≠ .start
  handler : g.kindOf v ≠ .errorHandler
  outer : g.owner? v = none
  source : ∀ e ∈ g.edges, e.target = v → g.kindOf e.source ≠ .errorHandler

namespace Scheduler

variable {hand : Hand g} {s : Scheduler g} {v : g.Index}

/-- The source of a decided edge into such a step is settled for good. -/
theorem closed_source (hg : g.Wired) (hCoherent : s.board.Coherent hand) (hv : g.EdgeDriven v)
    {e : Edge g.size} (he : e ∈ g.edges) (hTarget : e.target = v)
    (hDecided : s.edgeState e.source e.tag ≠ .undecided) : s.board.Closed hand e.source := by
  have hTarget' : ∀ loop, e.target ∉ g.body loop := by
    rw [hTarget]
    exact hg.not_mem_body_of_owner?_eq_none hv.outer
  have hTag : e.tag ≠ .loopBody := fun hTag => hTarget' _ (hg.enters e he hTag)
  refine hCoherent.closed_of_kind hg.toSound (hv.source e he hTarget) ?_ ?_
  · intro loop hi
    exact hTarget' loop (hg.body_target loop e.source hi e he rfl).2
  · exact (decided_cases hDecided).resolve_right fun h => hTag h.1

theorem edgeState_move (hg : g.Wired) {hand' : Hand g} {s' : Scheduler g}
    (hMove : Move hand s hand' s') (hCoherent : s.board.Coherent hand) (hv : g.EdgeDriven v) :
    ∀ e ∈ g.edges, e.target = v → s.edgeState e.source e.tag ≠ .undecided →
      s'.edgeState e.source e.tag = s.edgeState e.source e.tag := by
  intro e he hTarget hDecided
  have hClosed := closed_source hg hCoherent hv he hTarget hDecided
  exact edgeState_of_record (hMove.record_of_closed hg.toSound hCoherent hClosed) e.tag

theorem edgeState_receives (hg : g.Wired) {m : Message g} {s' : Scheduler g}
    (hReceives : Receives s m hand s') (hCoherent : s.board.Coherent .free)
    (hv : g.EdgeDriven v) :
    ∀ e ∈ g.edges, e.target = v → s.edgeState e.source e.tag ≠ .undecided →
      s'.edgeState e.source e.tag = s.edgeState e.source e.tag := by
  intro e he hTarget hDecided
  have hClosed := closed_source hg hCoherent hv he hTarget hDecided
  exact edgeState_of_record (hReceives.record_of_closed hClosed) e.tag

end Scheduler

/-! ## Moves and messages leave steps where their edges have put them -/

namespace Board

variable {hand hand' : Hand g} {b b' : Board g} {v : g.Index}

/-- Nothing that has been let in goes back. -/
theorem IsIn.rule (hg : g.Sound) (hRule : Rule hand b hand' b') (hCoherent : b.Coherent hand)
    (hv : g.EdgeDriven v) (h : b.IsIn v) : b'.IsIn v := by
  have hOuter := hg.not_mem_body_of_owner?_eq_none hv.outer
  obtain ⟨hPending, hSkipped⟩ := h
  cases hRule with
  | recover hOwes =>
    rename_i k a
    have hSlot := hCoherent.slot_recover hg hOwes
    have hCases := Slot.recoveredBy_of_skipped (g.recovery? k) (g.idOf k) (b.slot a.failed)
    have hStatus := Slot.recovered_cases (g.recovery? k) (g.idOf k) (b.slot a.failed)
    clear hCoherent
    constructor <;> grind -linarith
  | _ =>
    clear hCoherent
    constructor <;> grind -linarith

/-- What waits for its edges goes on waiting as long as it is pending. -/
theorem waiting_of_rule (hg : g.Sound) (hRule : Rule hand b hand' b')
    (hCoherent : b.Coherent hand) (hv : g.EdgeDriven v) (hPending : (b.slot v).status = .pending)
    (hWaiting : (b.slot v).waiting = false) : (b'.slot v).waiting = false := by
  have hOuter := hg.not_mem_body_of_owner?_eq_none hv.outer
  have hHeld := (hCoherent.plain v (hg.not_guards_of_kind hv.handler)).hand
  cases hRule with
  | recover hOwes =>
    have hSlot := hCoherent.slot_recover hg hOwes
    clear hCoherent
    grind -linarith
  | _ =>
    clear hCoherent
    grind -linarith

/-- A message leaves a step as it is, but for a retry that is due. -/
theorem status_of_notice {m : Message g} (hNotice : Notice b m hand' b') {i : g.Index}
    (hWaits : (b.slot i).waiting = true → (b.slot i).status = .pending) :
    ((b'.slot i).status = (b.slot i).status ∧ (b'.slot i).waiting = (b.slot i).waiting ∧
        (b'.slot i).recoveredBy = (b.slot i).recoveredBy) ∨
      (b.slot i).waiting = true ∧ (b.slot i).status = .pending ∧ (b'.slot i).status = .ready := by
  cases hNotice <;> grind -linarith

end Board

namespace Scheduler

variable {hand hand' : Hand g} {s s' : Scheduler g} {v : g.Index}

/-- A move leaves a step where its edges have put it, unless they now put it somewhere else. -/
theorem Placed.move (hg : g.Wired) (hMove : Move hand s hand' s')
    (hCoherent : s.board.Coherent hand) (hv : g.EdgeDriven v) (h : s.Placed v) : s'.Placed v := by
  have hRule := hMove.rule hg.toSound
  have hOuter := hg.not_mem_body_of_owner?_eq_none hv.outer
  have hSame := edgeState_move hg hMove hCoherent hv
  cases h with
  | waiting hPending hWaiting =>
    rcases hMove.status_of_pending hg.toSound hCoherent hv.handler hPending with hStatus |
      ⟨hPromotion, rfl⟩ | ⟨hPromotion, rfl⟩ | ⟨⟨loop, hi⟩, -⟩
    · exact .waiting hStatus
        (Board.waiting_of_rule hg.toSound hRule hCoherent hv hPending hWaiting)
    · obtain ⟨hDecided, hLive, -⟩ := decided_of_promotion? hv.handler hPromotion
      have hAdmitted : s.Admitted v := ⟨hDecided, hLive rfl⟩
      refine .admitted (hAdmitted.of_decided hSame) ?_
      rw [board_setStatus]
      constructor <;> simp
    · obtain ⟨-, -, hDead⟩ := decided_of_promotion? hv.handler hPromotion
      have hExcluded : s.Excluded v := hDead rfl
      refine .excluded ?_ (hExcluded.of_decided hSame)
      rw [board_skip, Board.slot_set, if_pos rfl]
    · exact absurd hi (hOuter loop)
  | excluded hSkipped hDead =>
    have hClosed := hCoherent.closed_of_kind hg.toSound hv.handler hOuter (by simp [hSkipped, StepStatus.isSettled])
    have hRecord := hMove.record_of_closed hg.toSound hCoherent hClosed
    exact .excluded ((congrArg (·.1.status) hRecord).trans hSkipped) (hDead.of_decided hSame)
  | admitted hLive hIn =>
    exact .admitted (hLive.of_decided hSame) (hIn.rule hg.toSound hRule hCoherent hv)

/-- So does taking note of a message. -/
theorem Placed.receives (hg : g.Wired) {m : Message g} (hReceives : Receives s m hand s')
    (hCoherent : s.board.Coherent .free) (hv : g.EdgeDriven v) (h : s.Placed v) :
    s'.Placed v := by
  have hSame := edgeState_receives hg hReceives hCoherent hv
  have hWaits := (hCoherent.plain v (hg.not_guards_of_kind hv.handler)).waiting
  rcases Board.status_of_notice hReceives.notice hWaits with ⟨hStatus, hWaiting, hBy⟩ |
    ⟨hWaiting, hPending, hReady⟩
  · cases h with
    | waiting hPending hNot => exact .waiting (hStatus.trans hPending) (hWaiting.trans hNot)
    | excluded hSkipped hDead => exact .excluded (hStatus.trans hSkipped) (hDead.of_decided hSame)
    | admitted hLive hIn =>
      refine .admitted (hLive.of_decided hSame) ⟨?_, ?_⟩
      · rw [hStatus, hWaiting]
        exact hIn.pending
      · rw [hStatus, hBy]
        exact hIn.skipped
  · cases h with
    | waiting _ hNot =>
      rw [hNot] at hWaiting
      cases hWaiting
    | excluded hSkipped _ =>
      rw [hSkipped] at hPending
      cases hPending
    | admitted hLive _ =>
      exact .admitted (hLive.of_decided hSame) ⟨by simp [hReady], by simp [hReady]⟩

/-- In the beginning a step waits for its edges, or nothing leads to it. -/
theorem placed_enter (hg : g.Sound) {s : Scheduler g} (hFresh : s.IsFresh)
    (hv : g.EdgeDriven v) : s.enter.Placed v := by
  have hSlot := slot_enter hg hFresh
  have hEntry : v ≠ g.entry := fun h => hv.start (h ▸ hg.entry_start)
  by_cases hOrphan : v ∈ g.orphans
  · refine .excluded ?_ ?_
    · rw [hSlot, if_neg hEntry, if_pos hOrphan]
      rfl
    · rintro e he rfl
      -- what leads to an orphan is an orphan
      have hSource : e.source ∈ g.orphans := by
        by_contra hNot
        exact hg.reached e he hNot hOrphan
      have hNe : e.source ≠ g.entry := fun h => hg.entry_reached (h ▸ hSource)
      have hSkipped : s.enter.statusOf e.source = .skipped := by
        have hStatus := congrArg Slot.status (hSlot e.source)
        rw [if_neg hNe, if_pos hSource] at hStatus
        exact hStatus
      unfold edgeState
      rw [hSkipped]
  · refine .waiting ?_ ?_ <;>
    · rw [hSlot, if_neg hEntry, if_neg hOrphan]
      rfl

/-- Only the steps and the edges between them matter. -/
theorem Placed.congr (h : s.Placed v) (hSlot : s'.board.slot v = s.board.slot v)
    (hEdge : ∀ u tag, s'.edgeState u tag = s.edgeState u tag) : s'.Placed v := by
  cases h with
  | waiting hPending hWaiting => exact .waiting (hSlot ▸ hPending) (hSlot ▸ hWaiting)
  | excluded hSkipped hDead =>
    exact .excluded (hSlot ▸ hSkipped) (hDead.of_decided fun _ _ _ _ => hEdge _ _)
  | admitted hLive hIn =>
    exact .admitted (hLive.of_decided fun _ _ _ _ => hEdge _ _)
      ⟨hSlot ▸ hIn.pending, hSlot ▸ hIn.skipped⟩

theorem edgeState_conclude (s : Scheduler g) (u : g.Index) (tag : EdgeTag) :
    s.conclude.edgeState u tag = s.edgeState u tag :=
  conclude_keeps (fun s => s.edgeState u tag) (fun _ _ => rfl) (fun _ _ _ => rfl) s

end Scheduler

/-- In every run a step is where its edges have put it. -/
theorem Course.Reaches.placed (hg : g.Wired) {p : Course g} (hReach : Course.Reached p)
    {v : g.Index} (hv : g.EdgeDriven v) : p.scheduler.Placed v := by
  obtain ⟨_, -, -, hPlaced⟩ := hReach.coherent_invariant hg.toSound
    (P := fun _ s => s.Placed v) (Q := fun _ s => s.Placed v)
    (fun _ hFresh => Scheduler.placed_enter hg.toSound hFresh hv)
    (fun _ _ _ _ hMove hCoherent h => h.move hg hMove hCoherent hv)
    (fun _ _ _ _ _ hReceives hCoherent h => h.receives hg hReceives hCoherent hv)
    (fun _ _ _ _ _ h => h.congr rfl fun _ _ => rfl)
    (fun _ _ h => h.congr rfl fun _ _ => rfl)
    (fun s _ _ h => h.congr (congrFun s.slot_conclude v) s.edgeState_conclude)
  exact hPlaced

/-- In every state of a run, and so also in the last one, a step that edges alone decide about fits
them: behind what is completed no edge is open and one is live, and behind what has been skipped
by nobody's recovery all edges are dead. -/
theorem Course.frontier_equations {allowOrphans : Bool} {steps : List Step} {g : Graph}
    (hCompile : Graph.compile allowOrphans steps = .ok g) {p : Course g}
    (hReach : Course.Reached p) {v : g.Index} (hStart : g.kindOf v ≠ .start)
    (hHandler : g.kindOf v ≠ .errorHandler) (hOuter : g.owner? v = none)
    (hSource : ∀ u tag, (u, tag) ∈ g.incoming v → g.kindOf u ≠ .errorHandler) :
    (p.scheduler.statusOf v = .completed →
      (∀ u tag, (u, tag) ∈ g.incoming v → p.scheduler.verdict u tag ≠ .undecided) ∧
      ∃ u tag, (u, tag) ∈ g.incoming v ∧ p.scheduler.verdict u tag = .live) ∧
    (p.scheduler.statusOf v = .skipped → (p.scheduler.state.result v).recoveredBy = none →
      ∀ u tag, (u, tag) ∈ g.incoming v → p.scheduler.verdict u tag = .dead) := by
  have hg := Graph.wired_of_compile hCompile
  have hv : g.EdgeDriven v :=
    ⟨hStart, hHandler, hOuter, fun e he hTarget =>
      hSource e.source e.tag (Graph.mem_incoming_iff.mpr (hTarget ▸ he))⟩
  have hEdge : ∀ u tag, (u, tag) ∈ g.incoming v →
      Edge.mk u v tag ∈ g.edges ∧ p.scheduler.edgeState u tag = p.scheduler.verdict u tag := by
    intro u tag hIn
    have he := Graph.mem_incoming_iff.mp hIn
    refine ⟨he, Scheduler.edgeState_eq_verdict ?_⟩
    rintro rfl
    exact hg.not_mem_body_of_owner?_eq_none hOuter u (hg.enters _ he rfl)
  have hSlot : (p.scheduler.board.slot v).status = p.scheduler.statusOf v := rfl
  have hPlaced := hReach.placed hg hv
  constructor
  · intro hCompleted
    cases hPlaced with
    | waiting hPending | excluded hPending =>
      rw [hSlot, hCompleted] at hPending
      cases hPending
    | admitted hLive _ =>
      refine ⟨fun u tag hIn => ?_, ?_⟩
      · rw [← (hEdge u tag hIn).2]
        exact hLive.decided _ (hEdge u tag hIn).1 rfl
      · obtain ⟨⟨u, _, tag⟩, he, rfl, hState⟩ := hLive.live
        have hIn := Graph.mem_incoming_iff.mpr he
        exact ⟨u, tag, hIn, (hEdge u tag hIn).2.symm.trans hState⟩
  · intro hSkipped hNobody u tag hIn
    cases hPlaced with
    | waiting hPending =>
      rw [hSlot, hSkipped] at hPending
      cases hPending
    | excluded _ hDead =>
      rw [← (hEdge u tag hIn).2]
      exact hDead _ (hEdge u tag hIn).1 rfl
    | admitted _ hIn => exact absurd hNobody (hIn.skipped hSkipped)

/-- When the branches of a condition have met again, the one taken has a live edge and the other one
has none. -/
theorem Course.frontier_of_forked :
    ∃ g p, Graph.compile false Script.forked.steps = .ok g ∧ Course.Reached (g := g) p ∧
      p.scheduler.state.status = .completed ∧
      (∃ v, p.scheduler.statusOf v = .completed ∧
        ∃ u tag, (u, tag) ∈ g.incoming v ∧ p.scheduler.verdict u tag = .live) ∧
      ∃ v, p.scheduler.statusOf v = .skipped ∧
        ∀ u tag, (u, tag) ∈ g.incoming v → p.scheduler.verdict u tag = .dead := by
  have hShows : Script.forked.shows (fun _ _ => True) (fun g p =>
      p.scheduler.state.status = RunStatus.completed ∧ ∃ v w : g.Index,
        p.scheduler.statusOf v = StepStatus.completed ∧
        p.scheduler.statusOf w = StepStatus.skipped ∧
        (p.scheduler.state.result w).recoveredBy = none ∧
        ∀ x ∈ [v, w], g.kindOf x = StepKind.action ∧ g.owner? x = none ∧
          ∀ e ∈ g.incoming x, g.kindOf e.1 ≠ StepKind.errorHandler) := by
    decide +kernel
  obtain ⟨g, p, hCompile, hReach, hDone, v, w, hCompleted, hSkipped, hNobody, hDriven⟩ :=
    Script.exists_of_shows hShows
  have hEquations : ∀ x ∈ [v, w], _ := fun x hx =>
    Course.frontier_equations hCompile hReach (v := x) (by simp [(hDriven x hx).1])
      (by simp [(hDriven x hx).1]) (hDriven x hx).2.1 fun u tag hIn => (hDriven x hx).2.2 (u, tag) hIn
  exact ⟨g, p, hCompile, hReach, hDone, ⟨v, hCompleted, ((hEquations v (by simp)).1 hCompleted).2⟩,
    w, hSkipped, (hEquations w (by simp)).2 hSkipped hNobody⟩

end Workflow

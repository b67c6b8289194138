/-
Workflow.Proofs.Run.Branch — the branch that a condition does not take.

What can be reached only along one branch of a condition is left alone as
long as the condition has not decided for that branch, and so it is left
alone for good when the condition decides for the other one.

* `Scheduler.Decided` — a condition has decided.
* `Board.Untouched` — nothing has been done about a step.
* `Move.untouched` — a move leaves a step alone that no live edge leads to.
* `Scheduler.Reserved` — what can be reached only along a branch is left
  alone unless the condition has decided for it.
* `Course.branch_exclusive` — what is behind the other branch never runs.
-/
import Workflow.Proofs.Graph.Path
import Workflow.Proofs.Run.Completion
import Workflow.Proofs.Run.History
import Workflow.Proofs.Run.Promotion
import Workflow.Proofs.Run.Replay

namespace Workflow

variable {g : Graph}

/-- The tag of the edge that a condition takes with a decision. -/
def EdgeTag.branch : Bool → EdgeTag
  | true => .branchTrue
  | false => .branchFalse

namespace Scheduler

/-- Whether a condition is completed with a decision. -/
structure Decided (s : Scheduler g) (c : g.Index) (decision : Bool) : Prop where
  completed : s.statusOf c = .completed
  branch : (s.controlOf c).branch = some decision

/-- Whether nothing has been done about a step: it is pending or skipped, and no call of it has been
asked for. -/
structure Unused (s : Scheduler g) (i : g.Index) : Prop where
  status : s.statusOf i = .pending ∨ s.statusOf i = .skipped
  uncalled : ∀ token invocation limit, Request.call i token invocation limit ∉ s.requests

variable {s s' : Scheduler g} {c : g.Index} {decision : Bool}

theorem Decided.of_record (h : s.Decided c decision) (hRecord : s'.record c = s.record c) :
    s'.Decided c decision :=
  ⟨(congrArg (·.1.status) hRecord).trans h.completed, (congrArg (·.2.branch) hRecord).trans h.branch⟩

/-- A decision is for one branch alone. -/
theorem Decided.unique {other : Bool} (h : s.Decided c decision) (h' : s.Decided c other) :
    decision = other :=
  Option.some.inj (h.branch.symm.trans h'.branch)

theorem Decided.settled (h : s.Decided c decision) : (s.statusOf c).isSettled := by
  rw [h.completed]
  rfl

/-- The edge of a branch is live only when the condition has decided for the branch. -/
theorem decided_of_live (h : s.edgeState c (.branch decision) = .live) : s.Decided c decision := by
  unfold edgeState at h
  constructor <;> cases decision <;> simp only [EdgeTag.branch] at h <;> split at h <;> grind

end Scheduler

/-! ## Steps that nothing has been done about -/

namespace Board

/-- Whether nothing has been done about a step, and nothing is about to be done. -/
structure Untouched (hand : Hand g) (b : Board g) (i : g.Index) : Prop where
  status : (b.slot i).status = .pending ∨ (b.slot i).status = .skipped
  still : (b.slot i).waiting = false ∧ (b.slot i).call = none
  held : hand.step? ≠ some i
  unnamed : ∀ k a, (b.slot k).activation = some a → a.failed ≠ i
  uncalled : ∀ token invocation limit, Request.call i token invocation limit ∉ b.desk.requests

variable {hand hand' : Hand g} {b b' : Board g} {i : g.Index}

/-- A step is left alone unless it is promoted, or handed the failure of a step that it guards. -/
theorem Untouched.rule (hg : g.Sound) (hRule : Rule hand b hand' b') (hCoherent : b.Coherent hand)
    (h : b.Untouched hand i)
    (hPromote : g.kindOf i ≠ .errorHandler → (b.slot i).status = .pending →
      (b'.slot i).status ≠ .ready)
    (hCatch : ∀ j, Edge.mk j i .errorCatch ∈ g.edges → hand.step? ≠ some j) :
    b'.Untouched hand' i := by
  obtain ⟨hStatus, hStill, hHeld, hUnnamed, hUncalled⟩ := h
  cases hRule with
  | lastRound hFrame | nextRound hFrame =>
    have hRunning := (hCoherent.frame _ _ hFrame).2.1
    clear hCoherent
    constructor <;> grind -linarith [Slot.cleared]
  | recover hOwes =>
    have hSlot := hCoherent.slot_recover hg hOwes
    have hNamed := hUnnamed _ _ hOwes
    clear hCoherent
    constructor <;> grind -linarith
  | giveUp hHand hOwner =>
    have hMember := hg.owner_mem _ _ hOwner
    have hRunning := (hCoherent.loop_of_hand hHand hMember).2.1
    have hPassed := Hand.step?_passTo hHand
    clear hCoherent
    constructor <;> grind -linarith
  | _ =>
    clear hCoherent
    constructor <;> grind -linarith [Slot.cleared]

theorem Untouched.notice {m : Message g} (hNotice : Notice b m hand' b')
    (h : b.Untouched .free i) : b'.Untouched hand' i := by
  obtain ⟨hStatus, hStill, hHeld, hUnnamed, hUncalled⟩ := h
  cases hNotice <;> constructor <;> grind -linarith

/-- Requests that are granted do not matter. -/
theorem Untouched.of_slots (h : b.Untouched hand i) (hSlots : b'.slot = b.slot)
    (hRequests : b'.desk.requests ⊆ b.desk.requests) : b'.Untouched hand i where
  status := hSlots ▸ h.status
  still := hSlots ▸ h.still
  held := h.held
  unnamed := hSlots ▸ h.unnamed
  uncalled token invocation limit hCall := h.uncalled token invocation limit (hRequests hCall)

end Board

namespace Scheduler

variable {hand hand' : Hand g} {s s' : Scheduler g} {i : g.Index}

/-- A move leaves a step alone that no live edge leads to, if no step that it guards is in hand. -/
theorem Move.untouched (hg : g.Sound) (hMove : Move hand s hand' s')
    (hCoherent : s.board.Coherent hand) (h : s.board.Untouched hand i)
    (hDead : ∀ e ∈ g.edges, e.target = i → s.edgeState e.source e.tag ≠ .live)
    (hCatch : ∀ j, Edge.mk j i .errorCatch ∈ g.edges → hand.step? ≠ some j) :
    s'.board.Untouched hand' i := by
  refine h.rule hg (hMove.rule hg) hCoherent (fun hKind hPending hReady => ?_) hCatch
  rcases hMove.status_of_pending hg hCoherent hKind hPending with hStatus | ⟨hPromotion, -⟩ |
    ⟨-, rfl⟩ | ⟨-, hStatus⟩
  · rw [hReady] at hStatus
    cases hStatus
  · obtain ⟨e, he, hTarget, hLive⟩ := (decided_of_promotion? hKind hPromotion).2.1 rfl
    exact hDead e he hTarget hLive
  · rw [board_skip, Board.slot_set, if_pos rfl] at hReady
    cases hReady
  · rw [hReady] at hStatus
    cases hStatus

/-- No edge is live behind a step that nothing has been done about. -/
theorem edgeState_of_untouched (h : s.board.Untouched hand i) (tag : EdgeTag) :
    s.edgeState i tag ≠ .live := by
  have hStatus : s.statusOf i = .pending ∨ s.statusOf i = .skipped := h.status
  unfold edgeState
  rcases hStatus with hPending | hSkipped
  · simp [hPending]
  · simp [hSkipped]

theorem unused_of_untouched (h : s.board.Untouched hand i) : s.Unused i := ⟨h.status, h.uncalled⟩

end Scheduler

/-! ## What is behind the branch of a condition -/

/-- Whether an edge is that of a branch of a condition. -/
def Edge.IsBranch (c : g.Index) (decision : Bool) (e : Edge g.size) : Prop :=
  e.source = c ∧ e.tag = .branch decision

instance (c : g.Index) (decision : Bool) : DecidablePred (Edge.IsBranch (g := g) c decision) :=
  fun _ => inferInstanceAs (Decidable (_ ∧ _))

namespace Scheduler

variable {hand hand' : Hand g} {s s' : Scheduler g} {c : g.Index} {decision : Bool}

/-- As long as a condition has not decided for a branch, nothing is done about what can be reached only
along it. -/
def Reserved (hand : Hand g) (s : Scheduler g) (c : g.Index) (decision : Bool) : Prop :=
  s.Decided c decision ∨
    ∀ i, g.OnlyThrough (Edge.IsBranch c decision) i → s.board.Untouched hand i

theorem Reserved.move (hg : g.Sound) (hMove : Move hand s hand' s')
    (hCoherent : s.board.Coherent hand) (hKind : g.kindOf c ≠ .errorHandler)
    (hOuter : ∀ loop, c ∉ g.body loop) (h : Reserved hand s c decision) :
    Reserved hand' s' c decision := by
  by_cases hDecided : s.Decided c decision
  · have hClosed := hCoherent.closed_of_kind hg hKind hOuter hDecided.settled
    exact .inl (hDecided.of_record (hMove.record_of_closed hg hCoherent hClosed))
  · have hUntouched := h.resolve_left hDecided
    right
    intro i hi
    -- the edges into the step come from steps that are left alone, or are the branch itself
    have hSource : ∀ e ∈ g.edges, e.target = i → Edge.IsBranch c decision e ∨
        s.board.Untouched hand e.source := by
      rintro e he rfl
      by_cases hBranch : Edge.IsBranch c decision e
      · exact .inl hBranch
      · exact .inr (hUntouched e.source (hi.source he hBranch))
    refine hMove.untouched hg hCoherent (hUntouched i hi) ?_ ?_
    · intro e he hTarget hLive
      rcases hSource e he hTarget with ⟨rfl, hTag⟩ | hSource
      · rw [hTag] at hLive
        exact hDecided (decided_of_live hLive)
      · exact edgeState_of_untouched hSource e.tag hLive
    · intro j hEdge
      rcases hSource _ hEdge rfl with ⟨-, hTag⟩ | hSource
      · cases decision <;> cases hTag
      · exact hSource.held

theorem Reserved.receives (hg : g.Sound) {m : Message g} (hReceives : Receives s m hand s')
    (hCoherent : s.board.Coherent .free) (hKind : g.kindOf c ≠ .errorHandler)
    (hOuter : ∀ loop, c ∉ g.body loop) (h : Reserved .free s c decision) :
    Reserved hand s' c decision := by
  rcases h with hDecided | hUntouched
  · have hClosed := hCoherent.closed_of_kind hg hKind hOuter hDecided.settled
    exact .inl (hDecided.of_record (hReceives.record_of_closed hClosed))
  · exact .inr fun i hi => (hUntouched i hi).notice hReceives.notice

theorem Reserved.of_record (h : Reserved hand s c decision) (hRecord : s'.record c = s.record c)
    (hSlots : s'.board.slot = s.board.slot)
    (hRequests : s'.board.desk.requests ⊆ s.board.desk.requests) :
    Reserved hand s' c decision := by
  rcases h with hDecided | hUntouched
  · exact .inl (hDecided.of_record hRecord)
  · exact .inr fun i hi => (hUntouched i hi).of_slots hSlots hRequests

theorem reserved_enter (hg : g.Sound) {s : Scheduler g} (hFresh : s.IsFresh) (c : g.Index)
    (decision : Bool) : Reserved .free s.enter c decision := by
  right
  intro i hi
  have hSlot := slot_enter hg hFresh
  have hDesk := s.desk_enter
  have hEntry := hi.ne_entry
  obtain ⟨runId, workflowId, workflowName, input, vars, created, stepTimeout, now, rfl⟩ := hFresh
  constructor
  · rw [hSlot, if_neg hEntry]
    by_cases hOrphan : i ∈ g.orphans
    · exact .inr (if_pos hOrphan)
    · exact .inl (if_neg hOrphan)
  · rw [hSlot]
    exact ⟨rfl, rfl⟩
  · simp
  · intro k a hOwes
    rw [hSlot] at hOwes
    cases hOwes
  · intro token invocation limit hCall
    rw [hDesk] at hCall
    cases hCall

end Scheduler

namespace Course

/-- In every run, at every moment, what can be reached only along a branch is left alone unless the
condition has decided for it. -/
theorem History.reserved (hg : g.Sound) {p : Course g} {log : List (Moment g)}
    (h : History p log) {c : g.Index} (hKind : g.kindOf c ≠ .errorHandler)
    (hOuter : ∀ loop, c ∉ g.body loop) (decision : Bool) :
    (∀ m ∈ log, Scheduler.Reserved .free m.scheduler c decision ∧
      ∃ hand, Scheduler.Reserved hand m.next c decision) ∧
    ∃ hand, Scheduler.Reserved hand { p.scheduler with requests := p.asked } c decision := by
  obtain ⟨hLog, hand, -, hNow⟩ := h.invariant hg
    (Q := fun hand s => Scheduler.Reserved hand s c decision)
    (fun _ hFresh => Scheduler.reserved_enter hg hFresh c decision)
    (fun _ _ _ _ hMove hCoherent h => h.move hg hMove hCoherent hKind hOuter)
    (fun _ _ _ _ hReceives hCoherent h => h.receives hg hReceives hCoherent hKind hOuter)
    (fun s h => h.of_record (s.record_conclude c) s.slot_conclude
      fun _ hRequest => (congrArg _ s.requests_conclude).mp hRequest)
    (fun _ _ _ h => h.of_record rfl rfl (List.nil_subset _))
  refine ⟨fun m hm => ⟨(hLog m hm).1, ?_⟩, hand, hNow⟩
  obtain ⟨hand, -, hNext⟩ := (hLog m hm).2
  exact ⟨hand, hNext⟩

/-- What a condition has decided has been decided at some moment. -/
theorem History.exists_decided (hg : g.Sound) {p : Course g} {log : List (Moment g)}
    (h : History p log) {c : g.Index} {decision : Bool}
    (hDecided : p.scheduler.Decided c decision) : ∃ m ∈ log, m.next.Decided c decision := by
  refine History.induction hg (P := fun log s =>
    s.Decided c decision → ∃ m ∈ log, m.next.Decided c decision) ?_ ?_ ?_ ?_ h
      (hDecided.of_record rfl)
  · intro s hFresh hNow
    rcases Scheduler.status_enter hg hFresh c with h | h | h <;> simp [hNow.completed] at h
  · intro log s act _ _ _ _ hNow
    exact ⟨⟨s, act⟩, by simp, hNow⟩
  · intro log s _ hBefore hNow
    exact hBefore (hNow.of_record (s.record_conclude c).symm)
  · exact fun _ _ _ hBefore hNow => hBefore (hNow.of_record rfl)

/-- When a condition outside of all bodies decides for one branch in a run, nothing ever happens to a
step that can be reached only along the other one: throughout the run it is pending or skipped, and
no call of it is asked for; and it has been skipped when the run is completed. -/
theorem branch_exclusive {allowOrphans : Bool} {steps : List Step} {g : Graph}
    (hCompile : Graph.compile allowOrphans steps = .ok g) {p : Course g} {log : List (Moment g)}
    (hHistory : History p log) {c : g.Index} (hCondition : g.kindOf c = .condition)
    (hOuter : g.owner? c = none) {decision : Bool}
    (hDecided : ∃ m ∈ log, m.next.Decided c decision) {i : g.Index}
    (hOnly : ∀ path, g.Path g.entry path i →
      ∃ e ∈ path, e.source = c ∧ e.tag = .branch (!decision)) :
    (∀ m ∈ log, m.scheduler.Unused i ∧ m.next.Unused i) ∧
      ({ p.scheduler with requests := p.asked } : Scheduler g).Unused i ∧
      (p.scheduler.state.status = .completed → p.scheduler.statusOf i = .skipped) := by
  have hg := Graph.sound_of_compile hCompile
  have hKind : g.kindOf c ≠ .errorHandler := by simp [hCondition]
  have hBody := hg.not_mem_body_of_owner?_eq_none hOuter
  obtain ⟨m₀, hm₀, hDecided⟩ := hDecided
  -- the decision stands, so at no moment before or after it is there the opposite one
  have hStands : p.scheduler.Decided c decision :=
    hDecided.of_record ((hHistory.record_of_settled hg hKind hBody hm₀).2 hDecided.settled)
  have hNever : ∀ t : Scheduler g,
      ((t.statusOf c).isSettled → p.scheduler.record c = t.record c) →
        ¬ t.Decided c (!decision) := by
    intro t hLater hOther
    have hSame := hStands.unique (hOther.of_record (hLater hOther.settled))
    cases decision <;> cases hSame
  obtain ⟨hLog, _, hNow⟩ := hHistory.reserved hg hKind hBody (!decision)
  have hNow := hNow.resolve_left (hNever _ fun _ => rfl) i hOnly
  refine ⟨fun m hm => ?_, Scheduler.unused_of_untouched hNow, fun hCompleted => ?_⟩
  · obtain ⟨hScheduler, hNext⟩ := hHistory.record_of_settled hg hKind hBody hm
    obtain ⟨hReserved, _, hReserved'⟩ := hLog m hm
    exact ⟨Scheduler.unused_of_untouched (hReserved.resolve_left (hNever _ hScheduler) i hOnly),
      Scheduler.unused_of_untouched (hReserved'.resolve_left (hNever _ hNext) i hOnly)⟩
  · obtain ⟨q, -, -, hFinal, hSlot⟩ := hHistory.reached.all_final_of_completed hg hCompleted
    have hThrough : (p.scheduler.statusOf i).isFinal := by
      have hStatus : p.scheduler.statusOf i = q.scheduler.statusOf i :=
        congrArg Slot.status (congrFun hSlot i)
      rw [hStatus]
      exact hFinal i
    have hStatus : p.scheduler.statusOf i = .pending ∨ p.scheduler.statusOf i = .skipped :=
      hNow.status
    refine hStatus.resolve_left fun hPending => ?_
    rw [hPending] at hThrough
    cases hThrough

/-- When a condition has decided for one of two branches, the other one is skipped. -/
theorem branch_of_forked :
    ∃ g p log, Graph.compile false Script.forked.steps = .ok g ∧ History (g := g) p log ∧
      ∃ c i : g.Index, (∃ m ∈ log, m.next.Decided c true) ∧
        g.OnlyThrough (Edge.IsBranch c false) i ∧ (∀ m ∈ log, m.next.Unused i) ∧
        p.scheduler.statusOf i = .skipped := by
  have hShows : Script.forked.shows (fun _ _ => True) (fun g p =>
      p.scheduler.state.status = RunStatus.completed ∧ ∃ c i : g.Index,
        g.kindOf c = StepKind.condition ∧ g.owner? c = none ∧
        p.scheduler.statusOf c = StepStatus.completed ∧
        (p.scheduler.controlOf c).branch = some true ∧
        ¬ i ∈ Graph.closure
          (Edge.targets (g.edges.filter fun e => ¬ Edge.IsBranch c false e)) g.entry) := by
    decide +kernel
  obtain ⟨g, p, hCompile, hReach, hDone, c, i, hCondition, hOuter, hCompleted, hTaken, hNotFound⟩ :=
    Script.exists_of_shows hShows
  obtain ⟨log, hHistory⟩ := reached_iff_history.mp hReach
  have hDecided := hHistory.exists_decided (Graph.sound_of_compile hCompile) ⟨hCompleted, hTaken⟩
  have hOnly := Graph.onlyThrough_of_not_mem_closure hNotFound
  obtain ⟨hLog, -, hSkipped⟩ := branch_exclusive hCompile hHistory hCondition hOuter hDecided hOnly
  exact ⟨g, p, log, hCompile, hHistory, c, i, hDecided, hOnly, fun m hm => (hLog m hm).2,
    hSkipped hDone⟩

end Course

end Workflow

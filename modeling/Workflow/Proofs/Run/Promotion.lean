/-
Workflow.Proofs.Run.Promotion — what becomes of pending steps.

A pending step that guards nothing leaves that status in one way only: all
edges into it are decided, and it is promoted or passed over. The steps of
a body are the exception, for they are also given up with their loop.

* `EdgeState.Decided`, `decided_of_promotion?` — what a promotion rests on.
* `Move.status_of_pending` — what a move makes of a pending step.
-/
import Workflow.Proofs.Run.Coherence

namespace Workflow

variable {g : Graph}

namespace Scheduler

/-- An edge is decided if its source is settled or is a loop whose body it enters in a round. -/
theorem decided_cases {s : Scheduler g} {source : g.Index} {tag : EdgeTag}
    (h : s.edgeState source tag ≠ .undecided) :
    (s.statusOf source).isSettled ∨
      tag = .loopBody ∧ s.statusOf source = .running ∧ (s.controlOf source).frame ≠ none := by
  unfold edgeState at h
  dsimp only at h
  split at h <;> simp_all [StepStatus.isSettled, Option.isSome_iff_ne_none]

/-- A step is promoted or passed over when all edges into it are decided: along a live one, or because
all are dead. -/
theorem decided_of_promotion? {s : Scheduler g} {i : g.Index} {promotion : Promotion}
    (hKind : g.kindOf i ≠ .errorHandler) (h : s.promotion? i = some promotion) :
    (∀ e ∈ g.edges, e.target = i → s.edgeState e.source e.tag ≠ .undecided) ∧
    (promotion = .start → ∃ e ∈ g.edges, e.target = i ∧ s.edgeState e.source e.tag = .live) ∧
    (promotion = .skip → ∀ e ∈ g.edges, e.target = i → s.edgeState e.source e.tag = .dead) := by
  have hEdges : s.edgePromotion? i = some promotion := by
    unfold promotion? at h
    split at h
    · cases h
    · exact h
  unfold edgePromotion? at hEdges
  dsimp only at hEdges
  -- the promotion looks at the states of the incoming edges as a list
  have hMem : ∀ e ∈ g.edges, e.target = i → s.edgeState e.source e.tag ∈
      (g.incoming i).map fun t => s.edgeState t.1 t.2 := by
    rintro e he rfl
    exact List.mem_map_of_mem (f := fun t : g.Index × EdgeTag => s.edgeState t.1 t.2)
      (Graph.mem_incoming_iff.mpr he)
  split at hEdges
  · cases hEdges
  · rename_i hDecided
    simp only [Bool.or_eq_true, List.contains_eq_mem, decide_eq_true_eq, not_or] at hDecided
    have hAll : ∀ e ∈ g.edges, e.target = i → s.edgeState e.source e.tag ≠ .undecided := by
      intro e he hTarget hUndecided
      exact hDecided.2 (hUndecided ▸ hMem e he hTarget)
    refine ⟨hAll, ?_⟩
    split at hEdges
    · rename_i hLive
      cases hEdges
      refine ⟨fun _ => ?_, by simp⟩
      simp only [List.contains_eq_mem, List.mem_map, decide_eq_true_eq] at hLive
      obtain ⟨⟨source, tag⟩, hIncoming, hState⟩ := hLive
      exact ⟨⟨source, i, tag⟩, Graph.mem_incoming_iff.mp hIncoming, rfl, hState⟩
    · rename_i hNoneLive
      cases hEdges
      refine ⟨by simp, fun _ e he hTarget => ?_⟩
      simp only [List.contains_eq_mem, decide_eq_true_eq] at hNoneLive
      cases hState : s.edgeState e.source e.tag with
      | undecided => exact absurd hState (hAll e he hTarget)
      | live => exact absurd (hState ▸ hMem e he hTarget) hNoneLive
      | dead => rfl

/-- A pending step that guards nothing stays pending until it is promoted or passed over, or given up
with its loop. -/
theorem Move.status_of_pending (hg : g.Sound) {hand hand' : Hand g} {s s' : Scheduler g}
    (h : Move hand s hand' s') (hCoherent : s.board.Coherent hand) {i : g.Index}
    (hKind : g.kindOf i ≠ .errorHandler) (hPending : (s.board.slot i).status = .pending) :
    (s'.board.slot i).status = .pending ∨
      s.promotion? i = some .start ∧ s' = s.setStatus i .ready ∨
      s.promotion? i = some .skip ∧ s' = s.skip i ∨
      (∃ loop, i ∈ g.body loop) ∧ (s'.board.slot i).status = .skipped := by
  have hPlain := hCoherent.plain i (hg.not_guards_of_kind hKind)
  have hHand : ∀ k, hand.step? = some k → k ≠ i := by
    rintro k hk rfl
    rw [(hPlain.hand hk).1] at hPending
    cases hPending
  -- a pending step is neither at hand nor in a round, so only its promotion, a reset and the end of
  -- its loop concern it
  cases h with
  | promote hPromotion =>
    rename_i k
    by_cases hk : k = i
    · exact .inr (.inl ⟨hk ▸ hPromotion, hk ▸ rfl⟩)
    · left
      rwa [board_setStatus, Board.slot_set, if_neg hk]
  | passOver hPromotion =>
    rename_i k
    by_cases hk : k = i
    · exact .inr (.inr (.inl ⟨hk ▸ hPromotion, hk ▸ rfl⟩))
    · left
      rwa [board_skip, Board.slot_set, if_neg hk]
  | nextRound =>
    left
    rw [board_resetBody, board_setFrame]
    grind -linarith [Slot.cleared]
  | lastRound hFrame =>
    left
    have hRunning := (hCoherent.frame _ _ hFrame).2.1
    rw [board_completeLoop]
    grind -linarith
  | begin =>
    left
    rw [board_begin]
    grind -linarith
  | decide =>
    rw [board_setBranch]
    exact .inl hPending
  | forget =>
    rw [board_setIterations]
    exact .inl hPending
  | openLoop =>
    left
    rw [board_setFrame, board_resetBody]
    grind -linarith [Slot.cleared]
  | emptyLoop =>
    left
    have hNe := hHand _ rfl
    rw [board_complete, board_resetBody]
    grind -linarith [Slot.cleared]
  | call _ hInput =>
    left
    rw [board_dispatch _ _ hInput]
    grind -linarith
  | crash => exact .inl hPending
  | complete hStep =>
    left
    rw [board_complete]
    grind -linarith
  | recover hOwes =>
    left
    have hNe := hHand _ rfl
    have hNamed := hPlain.named _ _ hOwes
    rw [board_applyRecovery, board_setActivation, board_complete]
    grind -linarith
  | retry hRetry =>
    left
    obtain ⟨delay, hBoard⟩ := board_retryLater? s _ hRetry
    have hNe := hHand _ rfl
    rw [hBoard]
    grind -linarith
  | giveUp hStep hOwner =>
    rw [board_giveUp hg s _ (hg.owner_mem _ _ hOwner)]
    grind -linarith
  | activate hStep hOwner hGuards =>
    left
    have hHandler := hg.catch_handler _ (Graph.mem_handlersOf_iff.mp hGuards) rfl
    rw [board_setStatus, board_setActivation, board_recordFailure]
    grind -linarith
  | failRun hStep =>
    left
    rw [board_failRun, board_recordFailure]
    grind -linarith

end Scheduler

end Workflow

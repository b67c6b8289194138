/-
Workflow.Proofs.Run.Order — no step starts before those it depends on.

A step starts when it is promoted, when its retry is due, when its failure
has been taken care of by another try, or in the next round of its loop.
Whichever it is, all steps with an edge to it are completed or skipped at
that moment, but for the loop whose body it begins. Error handlers are the
exception on both sides: they start because of a failure, and what they are
handed is not over.

* `Board.IsUp` — a step that is under way or may be again.
* `Board.Ordered` — whatever is up stands behind settled steps.
* `Ordered.move`, `Ordered.receives` — moves and messages keep it.
* `Moment.starts_of_running` — only a start makes a step running.
* `Course.starts_in_order` — every step starts in order.
-/
import Workflow.Proofs.Graph.Wired
import Workflow.Proofs.Run.Duty
import Workflow.Proofs.Run.History
import Workflow.Proofs.Run.Promotion
import Workflow.Proofs.Run.Replay

namespace Workflow

variable {g : Graph}

namespace Board

/-- Whether a step is under way or may be again: it is ready or running, it waits for a retry, or it
has failed outside of all bodies, where a handler may have it tried again. -/
def IsUp (b : Board g) (i : g.Index) : Prop :=
  (b.slot i).status = .ready ∨ (b.slot i).status = .running ∨ (b.slot i).waiting = true ∨
    (b.slot i).status = .failed ∧ g.owner? i = none

/-- Whether what is up stands behind settled steps, but for the loop whose body it begins. -/
def Ordered (b : Board g) : Prop :=
  ∀ e ∈ g.edges, e.tag ≠ .loopBody → g.kindOf e.source ≠ .errorHandler →
    g.kindOf e.target ≠ .errorHandler → g.kindOf e.target ≠ .start → b.IsUp e.target →
      (b.slot e.source).status.isSettled

variable {hand hand' : Hand g} {b b' : Board g}

/-- What is up in a body has its loop in a round. -/
theorem Coherent.frame_of_up (hg : g.Sound) (h : b.Coherent hand) {loop i : g.Index}
    (hi : i ∈ g.body loop) (hUp : b.IsUp i) :
    (b.slot loop).frame ≠ none ∧ (b.slot loop).status = .running := by
  have hOwner := hg.owner?_eq_some_iff.mpr hi
  cases hFrame : (b.slot loop).frame with
  | some f => exact ⟨by simp, (h.frame loop f hFrame).2.1⟩
  | none =>
    have hClosed := h.closed loop hFrame
    have hIdle := h.idle loop hFrame i hi
    unfold IsUp at hUp
    clear h
    grind -linarith

/-- A step that no move promotes is up after the move only if it was before. -/
theorem IsUp.of_rule (hg : g.Sound) (hRule : Rule hand b hand' b') (hCoherent : b.Coherent hand)
    {i : g.Index} (hKind : g.kindOf i ≠ .errorHandler) (hUp : b'.IsUp i) :
    b.IsUp i ∨ (b.slot i).status = .pending ∧ (b'.slot i).status = .ready := by
  have hPlain := hCoherent.plain i (hg.not_guards_of_kind hKind)
  have hWaits := hPlain.waiting
  have hHeld := hPlain.hand
  unfold IsUp at hUp ⊢
  cases hRule with
  | recover hOwes =>
    have hSlot := hCoherent.slot_recover hg hOwes
    have hNamed := hPlain.named _ _ hOwes
    have hOwners := hg.owner?_eq_none_of_catch (hCoherent.edge _ _ hOwes).1
    clear hCoherent hPlain
    grind -linarith
  | activate _ _ hEdge =>
    have hHandler := hg.catch_handler _ hEdge rfl
    clear hCoherent hPlain
    grind -linarith
  | _ =>
    clear hCoherent hPlain
    grind -linarith [Slot.cleared]

/-- A settled step of a body stays settled as long as a step of the same body is up, for that keeps
the loop in its round. -/
theorem settled_rule_of_mem (hg : g.Sound) (hRule : Rule hand b hand' b')
    (hCoherent : b.Coherent hand) {loop i j : g.Index} (hi : i ∈ g.body loop)
    (hj : j ∈ g.body loop) (hSettled : (b.slot i).status.isSettled) (hUp : b.IsUp j)
    (hUp' : b'.IsUp j) : (b'.slot i).status.isSettled := by
  have hHeld := ((hCoherent.plain i (hg.not_guards_of_mem hi)).hand)
  have hWaits := ((hCoherent.plain j (hg.not_guards_of_mem hj)).waiting)
  have hFrame := (hCoherent.frame_of_up hg hj hUp).1
  have hFrame' := ((hCoherent.rule hg hRule).frame_of_up hg hj hUp').1
  have hOne : ∀ l, i ∈ g.body l → l = loop := fun l hl => hg.body_disjoint hl hi
  have hLoop : i ≠ loop := fun h => hg.not_mem_own_body loop (h ▸ hi)
  have hBusy : ¬ (b.slot j).status.isSettled := by
    unfold IsUp at hUp
    clear hCoherent
    grind -linarith
  -- only a reset unsettles a step of the body, and it needs the whole body settled or the loop out of
  -- its rounds
  cases hRule with
  | nextRound hRound hThrough hMore =>
    rename_i loop' frame iterations
    have hOther : loop' ≠ loop := by
      rintro rfl
      exact hBusy (hThrough j hj)
    have hKind' := (hCoherent.frame _ _ hRound).1
    have hKind'' := (hg.body_kind loop i hi).2.2
    clear hCoherent
    grind -linarith
  | lastRound hRound =>
    have hKind' := (hCoherent.frame _ _ hRound).1
    have hKind'' := (hg.body_kind loop i hi).2.2
    clear hCoherent
    grind -linarith
  | openLoop | emptyLoop =>
    have hNone := hCoherent.frame_of_hand (Hand.step?_starting _)
    clear hCoherent
    grind -linarith
  | recover hOwes =>
    have hSlot := hCoherent.slot_recover hg hOwes
    have hUnnamed := hCoherent.unnamed hg hi hOwes
    clear hCoherent
    grind -linarith
  | giveUp hHand hOwner =>
    have hMember := hg.owner_mem _ _ hOwner
    clear hCoherent
    grind -linarith
  | activate _ _ hEdge =>
    have hHandler := hg.catch_handler _ hEdge rfl
    clear hCoherent
    grind -linarith
  | _ =>
    clear hCoherent
    grind -linarith

/-- A settled step that something stands behind stays settled, as long as that is up. -/
theorem settled_rule (hg : g.Wired) (hRule : Rule hand b hand' b') (hCoherent : b.Coherent hand)
    {e : Edge g.size} (he : e ∈ g.edges) (hTag : e.tag ≠ .loopBody)
    (hKind : g.kindOf e.source ≠ .errorHandler) (hSettled : (b.slot e.source).status.isSettled)
    (hUp : b.IsUp e.target) (hUp' : b'.IsUp e.target) : (b'.slot e.source).status.isSettled := by
  by_cases hBody : ∃ loop, e.target ∈ g.body loop
  · obtain ⟨loop, hTarget⟩ := hBody
    have hSource : e.source ∈ g.body loop :=
      (hg.body_source loop e.target hTarget e he rfl).resolve_left fun h => hTag h.2
    exact settled_rule_of_mem hg.toSound hRule hCoherent hSource hTarget hSettled hUp hUp'
  · -- what is settled outside of all bodies is settled for good
    have hOuter : ∀ loop, e.source ∉ g.body loop := fun loop hi =>
      hBody ⟨loop, (hg.body_target loop e.source hi e he rfl).2⟩
    exact ((hCoherent.closed_of_kind hg.toSound hKind hOuter hSettled).rule hg.toSound hRule
      hCoherent).settled

/-- Taking note of a message leaves what is up behind settled steps. -/
theorem Ordered.notice {m : Message g} (hNotice : Notice b m hand' b') (hg : g.Sound)
    (hCoherent : b.Coherent .free) (h : b.Ordered) : b'.Ordered := by
  intro e he hTag hSource hTarget hStart hUp
  have hBefore := h e he hTag hSource hTarget hStart
  have hWaits := (hCoherent.plain e.source (hg.not_guards_of_kind hSource)).waiting
  unfold IsUp at hBefore hUp
  clear hCoherent h
  cases hNotice <;> grind -linarith

/-- It is a matter of the steps alone. -/
theorem Ordered.of_slots (h : b.Ordered) (hSlots : b'.slot = b.slot) : b'.Ordered := by
  obtain ⟨slot, desk⟩ := b'
  dsimp only at hSlots
  subst hSlots
  exact h

end Board

namespace Scheduler

/-- Every move leaves what is up behind settled steps. -/
theorem Move.ordered (hg : g.Wired) {hand hand' : Hand g} {s s' : Scheduler g}
    (hMove : Move hand s hand' s') (hCoherent : s.board.Coherent hand) (h : s.board.Ordered) :
    s'.board.Ordered := by
  intro e he hTag hSource hTarget hStart hUp
  have hRule := hMove.rule hg.toSound
  rcases hUp.of_rule hg.toSound hRule hCoherent hTarget with hBefore | ⟨hPending, hReady⟩
  · exact Board.settled_rule hg hRule hCoherent he hTag hSource
      (h e he hTag hSource hTarget hStart hBefore) hBefore hUp
  · -- the step has just been promoted, and a promotion changes nothing of the steps before it
    rcases hMove.status_of_pending hg.toSound hCoherent hTarget hPending with hStatus |
      ⟨hPromotion, rfl⟩ | ⟨-, rfl⟩ | ⟨-, hStatus⟩
    · rw [hReady] at hStatus
      cases hStatus
    · have hDecided := (decided_of_promotion? hTarget hPromotion).1 e he rfl
      have hSettled : (s.board.slot e.source).status.isSettled :=
        (decided_cases hDecided).resolve_right fun h => hTag h.1
      have hNe : e.target ≠ e.source := by
        intro hEq
        rw [← hEq, hPending] at hSettled
        cases hSettled
      rwa [board_setStatus, Board.slot_set, if_neg hNe]
    · rw [board_skip, Board.slot_set, if_pos rfl] at hReady
      cases hReady
    · rw [hReady] at hStatus
      cases hStatus

theorem ordered_enter (hg : g.Sound) {s : Scheduler g} (hFresh : s.IsFresh) :
    s.enter.board.Ordered := by
  intro e he hTag hSource hTarget hStart hUp
  have hSlot := slot_enter hg hFresh e.target
  have hEntry : e.target ≠ g.entry := fun h => hStart (h ▸ hg.entry_start)
  unfold Board.IsUp at hUp
  rw [hSlot, if_neg hEntry] at hUp
  split at hUp <;> simp [Slot.initial] at hUp

end Scheduler

/-! ## What makes a step running -/

/-- With something in hand, no move makes a step running. -/
theorem Board.running_of_rule (hg : g.Sound) {hand hand' : Hand g} {b b' : Board g}
    (hRule : Rule hand b hand' b') (hCoherent : b.Coherent hand) (hHand : hand.step? ≠ none)
    {i : g.Index} (h : (b'.slot i).status = .running) : (b.slot i).status = .running := by
  cases hRule with
  | recover hOwes =>
    rename_i k a
    have hSlot := hCoherent.slot_recover hg hOwes
    have hCases := Slot.recovered_cases (g.recovery? k) (g.idOf k) (b.slot a.failed)
    clear hCoherent
    grind -linarith
  | _ =>
    clear hCoherent
    grind -linarith [Slot.cleared]

/-- Taking note of a message makes no step running. -/
theorem Board.running_of_notice {hand : Hand g} {b b' : Board g} {m : Message g}
    (hNotice : Notice b m hand b') {i : g.Index} (h : (b'.slot i).status = .running) :
    (b.slot i).status = .running := by
  cases hNotice <;> grind -linarith

/-- While a scheduler deals with what it has in hand, no step becomes running. -/
theorem Scheduler.Deals.running (hg : g.Sound) {hand : Hand g} {s s' : Scheduler g}
    (h : Scheduler.Deals hand s s') (hCoherent : s.board.Coherent hand) {i : g.Index}
    (hRunning : s'.statusOf i = .running) : s.statusOf i = .running := by
  by_contra hNot
  obtain ⟨_, -, -, hStill⟩ := h.invariant
    (P := fun hand t => t.board.Coherent hand ∧ t.statusOf i ≠ .running)
    (fun _ _ _ _ hHand hMove hKept => ⟨hKept.1.rule hg (hMove.rule hg), fun hNow =>
      hKept.2 (Board.running_of_rule hg (hMove.rule hg) hKept.1 hHand hNow)⟩)
    ⟨hCoherent, hNot⟩
  exact hStill hRunning

/-- A promotion makes no step running, and neither does the end of a round. -/
theorem Scheduler.running_of_promote {s : Scheduler g} {i j : g.Index}
    (h : (s.promote j).statusOf i = .running) : s.statusOf i = .running := by
  have hSlot : ((s.promote j).board.slot i).status = .running := h
  change (s.board.slot i).status = .running
  unfold Scheduler.promote at hSlot
  split at hSlot
  · rw [board_setStatus] at hSlot
    grind -linarith
  · rw [board_skip] at hSlot
    grind -linarith
  · exact hSlot

theorem Scheduler.running_of_closeRound {s : Scheduler g} {i loop : g.Index}
    (hOver : s.RoundOver loop) (h : (s.closeRound loop).statusOf i = .running) :
    s.statusOf i = .running := by
  have hSlot : ((s.closeRound loop).board.slot i).status = .running := h
  change (s.board.slot i).status = .running
  obtain ⟨⟨f, hFrame, hIn⟩, hSettled⟩ := hOver
  rw [closeRound_of_over hFrame hIn hSettled] at hSlot
  split at hSlot
  · rw [board_resetBody, board_setFrame] at hSlot
    grind -linarith [Slot.cleared]
  · rw [board_completeLoop] at hSlot
    grind -linarith

/-- Only the start of a step makes it running. -/
theorem Moment.starts_of_running (hg : g.Sound) {m : Moment g}
    (hOpen : m.scheduler.isOver = false) (hPossible : m.act.IsPossible m.scheduler)
    (hCoherent : m.scheduler.board.Coherent .free) {i : g.Index}
    (hBefore : m.scheduler.statusOf i ≠ .running) (hAfter : m.next.statusOf i = .running) :
    m.act = .start i := by
  obtain ⟨s, act⟩ := m
  cases act with
  | read m =>
    have hFinal : s.state.isFinal = false := (Bool.or_eq_false_iff.mp hOpen).1
    obtain ⟨hand, t, hReceives, hDeals⟩ := Scheduler.heed_deals hg hFinal m
    have hNoticed : (t.board.slot i).status = .running :=
      hDeals.running hg (hCoherent.notice hg hReceives.notice) hAfter
    exact absurd (Board.running_of_notice hReceives.notice hNoticed) hBefore
  | promote j => exact absurd (Scheduler.running_of_promote hAfter) hBefore
  | close loop => exact absurd (Scheduler.running_of_closeRound hPossible hAfter) hBefore
  | start j =>
    have hBegun : ((s.begin j).board.slot i).status = .running :=
      (Scheduler.begin_deals hg s j).running hg
        (hCoherent.rule hg (Scheduler.Move.rule hg (.begin hPossible hOpen))) hAfter
    rw [Scheduler.board_begin, Board.slot_set] at hBegun
    by_cases hj : j = i
    · rw [hj]
    · rw [if_neg hj] at hBegun
      exact absurd hBegun hBefore

/-- Whatever is running has been started. -/
theorem Course.History.exists_start (hg : g.Sound) {p : Course g} {log : List (Moment g)}
    (h : Course.History p log) {i : g.Index} (hRunning : p.scheduler.statusOf i = .running) :
    ∃ m ∈ log, m.act = .start i := by
  refine Course.History.induction hg (P := fun log s =>
    ∀ i, s.statusOf i = .running → ∃ m ∈ log, m.act = .start i) ?_ ?_ ?_ ?_ h i hRunning
  · intro s hFresh i hRunning
    rcases Scheduler.status_enter hg hFresh i with h | h | h <;> simp [hRunning] at h
  · intro log s act hOpen hPossible hCoherent hBefore i hRunning
    by_cases hOld : s.statusOf i = .running
    · obtain ⟨m, hm, hStart⟩ := hBefore i hOld
      exact ⟨m, List.mem_append_left _ hm, hStart⟩
    · exact ⟨⟨s, act⟩, by simp,
        Moment.starts_of_running hg hOpen hPossible hCoherent hOld hRunning⟩
  · intro log s _ hBefore i hRunning
    refine hBefore i ?_
    have hSlot := congrArg Slot.status (congrFun s.slot_conclude i)
    exact hSlot.symm.trans hRunning
  · exact fun _ _ _ hBefore => hBefore

/-! ## Every step starts in order -/

/-- A step becomes running only when it is started, and at that moment every step with an edge to it,
error handlers apart, is completed or skipped; the loop whose body the step begins is running
and in a round instead. -/
theorem Course.starts_in_order {allowOrphans : Bool} {steps : List Step} {g : Graph}
    (hCompile : Graph.compile allowOrphans steps = .ok g) {p : Course g} {log : List (Moment g)}
    (hHistory : Course.History p log) {m : Moment g} (hm : m ∈ log) (v : g.Index) :
    (m.scheduler.statusOf v ≠ .running → m.next.statusOf v = .running → m.act = .start v) ∧
    (m.act = .start v → g.kindOf v ≠ .start → g.kindOf v ≠ .errorHandler →
      ∀ u tag, (u, tag) ∈ g.incoming v → g.kindOf u ≠ .errorHandler →
        (tag ≠ .loopBody → (m.scheduler.statusOf u).isSettled) ∧
        (tag = .loopBody → g.owner? v = some u ∧ m.scheduler.statusOf u = .running ∧
          (m.scheduler.controlOf u).frame ≠ none)) := by
  have hg := Graph.wired_of_compile hCompile
  obtain ⟨hOpen, hPossible, hCoherent⟩ := hHistory.moments hg.toSound hm
  refine ⟨Moment.starts_of_running hg.toSound hOpen hPossible hCoherent, ?_⟩
  intro hStart hEntry hKind u tag hEdge hSource
  have hReady : (m.scheduler.board.slot v).status = .ready := by
    rw [hStart] at hPossible
    exact hPossible
  have hUp : m.scheduler.board.IsUp v := .inl hReady
  have he := Graph.mem_incoming_iff.mp hEdge
  constructor
  · intro hTag
    have hOrdered := (hHistory.invariant hg.toSound (Q := fun _ s => s.board.Ordered)
      (fun _ => Scheduler.ordered_enter hg.toSound)
      (fun _ _ _ _ hMove hCoherent h => hMove.ordered hg hCoherent h)
      (fun _ _ _ _ hReceives hCoherent h => h.notice hReceives.notice hg.toSound hCoherent)
      (fun s h => h.of_slots s.slot_conclude) (fun _ _ _ h => h.of_slots rfl)).1 m hm
    exact hOrdered.1 _ he hTag hSource hKind hEntry hUp
  · rintro rfl
    have hBody : v ∈ g.body u := hg.enters _ he rfl
    obtain ⟨hFrame, hRunning⟩ := hCoherent.frame_of_up hg.toSound hBody hUp
    exact ⟨hg.owner?_eq_some_iff.mpr hBody, hRunning, hFrame⟩

/-- An action that is called has been started behind a completed step. -/
theorem Course.started_behind_start :
    ∃ g p log, Graph.compile false (Script.handled "a").steps = .ok g ∧
      Course.History (g := g) p log ∧ ∃ m ∈ log, ∃ u v : g.Index, m.act = .start v ∧
        g.kindOf v = .action ∧ (u, .dependency) ∈ g.incoming v ∧
        (m.scheduler.statusOf u).isSettled := by
  have hShows : { Script.handled "a" with cues := [] }.shows (fun _ _ => True) (fun g p =>
      ∃ u v : g.Index, p.scheduler.statusOf v = StepStatus.running ∧
        g.kindOf v = StepKind.action ∧ g.kindOf u = StepKind.start ∧
        (u, EdgeTag.dependency) ∈ g.incoming v) := by
    decide +kernel
  obtain ⟨g, p, hCompile, hReach, u, v, hRunning, hKind, hStart, hEdge⟩ :=
    Script.exists_of_shows hShows
  obtain ⟨log, hHistory⟩ := Course.reached_iff_history.mp hReach
  obtain ⟨m, hm, hAct⟩ := hHistory.exists_start (Graph.sound_of_compile hCompile) hRunning
  refine ⟨g, p, log, hCompile, hHistory, m, hm, u, v, hAct, hKind, hEdge, ?_⟩
  exact ((Course.starts_in_order hCompile hHistory hm v).2 hAct (by simp [hKind]) (by simp [hKind])
    u .dependency hEdge (by simp [hStart])).1 (by simp)

end Workflow

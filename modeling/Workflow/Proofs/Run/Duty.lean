/-
Workflow.Proofs.Run.Duty — what error handlers have to do.

As long as nobody waits but pending steps, failures and handlers are
matched: every failed step outside of all bodies is on the hands of one
handler, and every handler that is under way has such a step to deal with.
This ends when a handler that waits for a retry of its own is handed
another failure. Then the failure that it had to deal with is forgotten,
and the step is left failed for good.

* `Board.Matched` — failures and handlers are matched.
* `Board.Stranded` — a step is left failed for good.
* `Board.Forsaken` — the failure on the hands of a handler is forgotten.
* `Matched.rule` — every move keeps failures and handlers matched, or one
  is forgotten.
* `Course.Reaches.matched` — in a run in which nobody waits but pending
  steps, failures and handlers are matched.
-/
import Mathlib.Logic.Relation
import Workflow.Proofs.Run.Coherence

namespace Workflow

variable {g : Graph}

namespace Board

/-! ## Steps that are left failed -/

/-- A step outside of all bodies that is settled for good. -/
structure Closed (hand : Hand g) (b : Board g) (i : g.Index) : Prop where
  outer : ∀ loop, i ∉ g.body loop
  settled : (b.slot i).status.isSettled
  still : (b.slot i).waiting = false ∧ (b.slot i).call = none ∧ (b.slot i).frame = none
  held : hand.step? ≠ some i
  unnamed : ∀ k a, (b.slot k).activation = some a → a.failed ≠ i

/-- A settled step outside of all bodies that is in order and not in hand is settled for good. -/
theorem Coherent.closed_of_settled {hand : Hand g} {b : Board g} (h : b.Coherent hand) {i : g.Index}
    (hOrder : b.InOrder hand i) (hHand : hand.step? ≠ some i) (hOuter : ∀ loop, i ∉ g.body loop)
    (hSettled : (b.slot i).status.isSettled) : b.Closed hand i := by
  have hFrame : (b.slot i).frame ≠ none → _ := h.running_of_frame
  obtain ⟨hWaits, hCall, -, hNamed, -⟩ := hOrder
  clear h
  constructor <;> grind -linarith

/-- So is every settled step outside of all bodies that handles no errors. -/
theorem Coherent.closed_of_kind (hg : g.Sound) {hand : Hand g} {b : Board g}
    (h : b.Coherent hand) {i : g.Index} (hKind : g.kindOf i ≠ .errorHandler)
    (hOuter : ∀ loop, i ∉ g.body loop) (hSettled : (b.slot i).status.isSettled) :
    b.Closed hand i := by
  have hPlain := h.plain i (hg.not_guards_of_kind hKind)
  refine h.closed_of_settled hPlain ?_ hOuter hSettled
  intro hHand
  rw [(hPlain.hand hHand).1] at hSettled
  cases hSettled

/-- A failed step that nobody is going to do anything about: the handlers that have it on their hands
and the loop that it is in are settled for good. -/
structure Stranded (hand : Hand g) (b : Board g) (i : g.Index) : Prop where
  failed : (b.slot i).status = .failed
  still : (b.slot i).waiting = false ∧ (b.slot i).call = none
  held : hand.step? ≠ some i
  handlers : ∀ k a, (b.slot k).activation = some a → a.failed = i → b.Closed hand k
  loops : ∀ loop, i ∈ g.body loop → b.Closed hand loop

variable {hand hand' : Hand g} {b b' : Board g}

/-- No move changes what is settled for good. -/
theorem Closed.rule (hg : g.Sound) (hRule : Rule hand b hand' b') (hCoherent : b.Coherent hand)
    {i : g.Index} (h : b.Closed hand i) : b'.Closed hand' i := by
  obtain ⟨hOuter, hSettled, hStill, hHeld, hUnnamed⟩ := h
  cases hRule with
  | recover hOwes =>
    have hSlot := hCoherent.slot_recover hg hOwes
    have hNamed := hUnnamed _ _ hOwes
    clear hCoherent
    constructor <;> grind -linarith
  | giveUp hHand hOwner =>
    have hMember := hg.owner_mem _ _ hOwner
    have hLoop := hCoherent.loop_of_hand hHand hMember
    have hPassed := Hand.step?_passTo hHand
    clear hCoherent
    constructor <;> grind -linarith
  | _ =>
    clear hCoherent
    constructor <;> grind -linarith [Slot.cleared]

/-- What is left failed for good stays failed. -/
theorem Stranded.rule (hg : g.Sound) (hRule : Rule hand b hand' b') (hCoherent : b.Coherent hand)
    {i : g.Index} (h : b.Stranded hand i) : b'.Stranded hand' i := by
  have hHandlers : ∀ k a, (b.slot k).activation = some a → a.failed = i → b'.Closed hand' k :=
    fun k a hOwes hNamed => (h.handlers k a hOwes hNamed).rule hg hRule hCoherent
  have hLoops : ∀ loop, i ∈ g.body loop → b'.Closed hand' loop :=
    fun loop hi => (h.loops loop hi).rule hg hRule hCoherent
  have hLoop : ∀ loop, i ∈ g.body loop → (b.slot loop).frame = none ∧ hand.step? ≠ some loop :=
    fun loop hi => ⟨(h.loops loop hi).still.2.2, (h.loops loop hi).held⟩
  obtain ⟨hFailed, hStill, hHeld, hNamed, -⟩ := h
  cases hRule with
  | recover hOwes =>
    rename_i k a
    have hSlot := hCoherent.slot_recover hg hOwes
    have hOther : a.failed ≠ i := fun hi => (hNamed k a hOwes hi).held rfl
    clear hCoherent hNamed
    constructor <;> grind -linarith
  | giveUp hHand hOwner =>
    have hMember := hg.owner_mem _ _ hOwner
    have hGivenUp := hCoherent.loop_of_hand hHand hMember
    have hPassed := Hand.step?_passTo hHand
    clear hCoherent hNamed
    constructor <;> grind -linarith
  | lastRound hFrame | nextRound hFrame =>
    have hRunning := (hCoherent.frame _ _ hFrame).2.1
    clear hCoherent hNamed
    constructor <;> grind -linarith [Slot.cleared]
  | _ =>
    clear hCoherent hNamed
    constructor <;> grind -linarith [Slot.cleared]

/-- Taking note of a message changes nothing of what is settled for good. -/
theorem Closed.notice {m : Message g} (hNotice : Notice b m hand' b') {i : g.Index}
    (h : b.Closed .free i) : b'.Closed hand' i := by
  obtain ⟨hOuter, hSettled, hStill, hHeld, hUnnamed⟩ := h
  cases hNotice <;> constructor <;> grind -linarith

theorem Stranded.notice {m : Message g} (hNotice : Notice b m hand' b') {i : g.Index}
    (h : b.Stranded .free i) : b'.Stranded hand' i := by
  have hHandlers : ∀ k a, (b.slot k).activation = some a → a.failed = i → b'.Closed hand' k :=
    fun k a hOwes hNamed => (h.handlers k a hOwes hNamed).notice hNotice
  have hLoops : ∀ loop, i ∈ g.body loop → b'.Closed hand' loop :=
    fun loop hi => (h.loops loop hi).notice hNotice
  obtain ⟨hFailed, hStill, hHeld, -, -⟩ := h
  cases hNotice <;> constructor <;> grind -linarith

/-- What is left failed is about the steps alone. -/
theorem Closed.of_slots {i : g.Index} (h : b.Closed hand i) (hSlots : b'.slot = b.slot) :
    b'.Closed hand i where
  outer := h.outer
  settled := hSlots ▸ h.settled
  still := hSlots ▸ h.still
  held := h.held
  unnamed := hSlots ▸ h.unnamed

theorem Stranded.of_slots {i : g.Index} (h : b.Stranded hand i) (hSlots : b'.slot = b.slot) :
    b'.Stranded hand i where
  failed := hSlots ▸ h.failed
  still := hSlots ▸ h.still
  held := h.held
  handlers k a hOwes hNamed := (h.handlers k a (hSlots ▸ hOwes) hNamed).of_slots hSlots
  loops loop hi := (h.loops loop hi).of_slots hSlots

/-- The failure `a` on the hands of a handler is forgotten: the handler waits for its own retry and
has been handed another failure. -/
structure Forsaken (hand : Hand g) (b : Board g) (k : g.Index) (a : Activation g) : Prop where
  outer : ∀ loop, k ∉ g.body loop
  waits : (b.slot k).waiting = true ∧ (b.slot k).status ≠ .pending
  free : ∀ i, hand ≠ .ending i
  other : ∃ a', (b.slot k).activation = some a' ∧ a'.failed ≠ a.failed
  stranded : b.Stranded hand a.failed

theorem Forsaken.of_slots {k : g.Index} {a : Activation g} (h : b.Forsaken hand k a)
    (hSlots : b'.slot = b.slot) : b'.Forsaken hand k a where
  outer := h.outer
  waits := hSlots ▸ h.waits
  free := h.free
  other := hSlots ▸ h.other
  stranded := h.stranded.of_slots hSlots

/-- In the rest of the turn the handler stays with the other failure. -/
theorem Forsaken.rule (hg : g.Sound) (hRule : Rule hand b hand' b') (hCoherent : b.Coherent hand)
    {k : g.Index} {a : Activation g} (h : b.Forsaken hand k a) : b'.Forsaken hand' k a := by
  have hStranded := h.stranded.rule hg hRule hCoherent
  obtain ⟨hOuter, hWaits, hHand, hOther, -⟩ := h
  clear hCoherent
  cases hRule with
  | recover => exact absurd rfl (hHand _)
  | giveUp _ hOwner =>
    have hMember := hg.owner_mem _ _ hOwner
    have hPassed := Hand.passTo_ne_ending hHand
    constructor <;> grind -linarith
  | _ => constructor <;> grind -linarith [Slot.cleared]

/-! ## Failures and handlers are matched -/

/-- Failures and handlers are matched, if nobody waits but pending steps. -/
structure Matched (hand : Hand g) (b : Board g) : Prop where
  order : ∀ i, b.InOrder hand i
  /-- A handler deals with the error of the step that has failed. -/
  cause : ∀ k a, (b.slot k).activation = some a → (b.slot a.failed).error = some a.error
  /-- A handler that is under way deals with a failure. -/
  engaged : ∀ k, g.Guards k → ((b.slot k).status = .ready ∨ (b.slot k).status = .running ∨
    (b.slot k).status = .failed ∨ (b.slot k).waiting = true) → (b.slot k).activation ≠ none
  /-- A failed step outside of all bodies is on the hands of a handler, or the run has failed. -/
  cared : b.desk.status.isFinal = false → ∀ i, g.owner? i = none → (b.slot i).status = .failed →
    ∃ k a, (b.slot k).activation = some a ∧ a.failed = i

namespace Matched

variable (hg : g.Sound) (hRule : Rule hand b hand' b') (hCoherent : b.Coherent hand)
  (h : b.Matched hand)
include hg hRule hCoherent h

theorem cause_rule {k : g.Index} {a : Activation g} (hOwes : (b'.slot k).activation = some a) :
    (b'.slot a.failed).error = some a.error := by
  have hNamed := fun i => (h.order i).named
  have hOnce := fun i => (h.order i).once
  have hHeld := fun i => (h.order i).hand
  have hInner : ∀ loop k a, (b.slot k).activation = some a → a.failed ∉ g.body loop :=
    fun loop k a hOwes hi => hCoherent.unnamed hg hi hOwes rfl
  obtain ⟨-, hCause, -, -⟩ := h
  cases hRule with
  | recover hBefore =>
    rename_i i before
    have hSlot := hCoherent.slot_recover hg hBefore
    have hNe := hCoherent.failed_ne hg hBefore
    have hOne := fun k a hOwes hSame => hOnce before.failed i k before a hBefore hOwes rfl hSame
    clear hCoherent
    grind -linarith
  | lastRound hFrame | nextRound hFrame =>
    have hRunning := (hCoherent.frame _ _ hFrame).2.1
    clear hCoherent
    grind -linarith [Slot.cleared]
  | _ =>
    clear hCoherent
    grind -linarith [Slot.cleared]

theorem engaged_rule (hCalm : ∀ i, (b'.slot i).waiting = true → (b'.slot i).status = .pending)
    {k : g.Index} (hGuards : g.Guards k)
    (hBusy : (b'.slot k).status = .ready ∨ (b'.slot k).status = .running ∨
      (b'.slot k).status = .failed ∨ (b'.slot k).waiting = true) :
    (b'.slot k).activation ≠ none := by
  have hHeld := fun i => (h.order i).hand
  have hNamed := fun i => (h.order i).named
  have hKind : g.kindOf k = .errorHandler := by
    obtain ⟨j, hEdge⟩ := hGuards
    exact hg.catch_handler _ hEdge rfl
  have hOuter : ∀ loop, k ∉ g.body loop := fun loop hk => hg.not_guards_of_mem hk hGuards
  have hBefore := h.engaged k hGuards
  clear h
  cases hRule with
  | recover hOwes =>
    have hSlot := hCoherent.slot_recover hg hOwes
    clear hCoherent
    grind -linarith
  | lastRound hFrame | nextRound hFrame =>
    have hRunning := (hCoherent.frame _ _ hFrame).2.1
    clear hCoherent
    grind -linarith [Slot.cleared]
  | _ =>
    clear hCoherent
    grind -linarith [Slot.cleared]

theorem cared_rule (hCalm : ∀ i, (b'.slot i).waiting = true → (b'.slot i).status = .pending)
    (hOpen : b'.desk.status.isFinal = false) {i : g.Index} (hOwner : g.owner? i = none)
    (hFailed : (b'.slot i).status = .failed) :
    ∃ k a, (b'.slot k).activation = some a ∧ a.failed = i := by
  have hOuter := hg.not_mem_body_of_owner?_eq_none hOwner
  -- who has the step on its hands keeps it, unless it is through with it
  have hKeep : b.desk.status.isFinal = false → (b.slot i).status = .failed →
      (∀ k a, (b.slot k).activation = some a → a.failed = i → (b'.slot k).activation = some a) →
      ∃ k a, (b'.slot k).activation = some a ∧ a.failed = i := by
    intro hBefore hWas hSame
    obtain ⟨k, a, hOwes, hNamed⟩ := h.cared hBefore i hOwner hWas
    exact ⟨k, a, hSame k a hOwes hNamed, hNamed⟩
  cases hRule with
  | recover hOwes =>
    rename_i k a
    have hSlot := hCoherent.slot_recover hg hOwes
    have hNe := hCoherent.failed_ne hg hOwes
    obtain ⟨action, hAction⟩ := Graph.exists_recovery? (hCoherent.edge k a hOwes).2
    have hGoesOn : action ≠ .stop ∧ b.desk.status.isFinal = false := by
      rw [desk_recover, hAction] at hOpen
      by_cases hStop : action = .stop
      · simp [hStop, RunStatus.isFinal] at hOpen
      · exact ⟨hStop, by simpa [hStop] using hOpen⟩
    have hOther : a.failed ≠ i := by
      rintro rfl
      rw [hSlot, if_pos rfl, hAction] at hFailed
      exact Slot.status_recovered_ne _ _ hGoesOn.1 hFailed
    clear hCoherent h
    refine hKeep hGoesOn.2 ?_ ?_ <;> grind -linarith
  | activate hHand hOuter' hEdge hConfig hNe hPending =>
    rename_i j handler error
    by_cases hij : j = i
    · subst hij
      exact ⟨handler, ⟨j, error⟩, by simp, rfl⟩
    · have hFree : (b.slot handler).activation = none := by
        have hOwing := hCoherent.owing handler
        have hStill := hCalm handler
        grind -linarith
      clear hCoherent h
      refine hKeep ?_ ?_ ?_ <;> grind -linarith
  | failRun => cases hOpen
  | _ =>
    clear hCoherent h
    refine hKeep ?_ ?_ ?_ <;> grind -linarith [Slot.cleared]

/-- As long as nobody waits but pending steps, every move keeps failures and handlers matched. -/
theorem rule_of_calm (hCalm : ∀ i, (b'.slot i).waiting = true → (b'.slot i).status = .pending) :
    b'.Matched hand' where
  order i := (h.order i).rule hg hRule hCoherent fun _ => hCalm i
  cause _ _ := h.cause_rule hg hRule hCoherent
  engaged _ := h.engaged_rule hg hRule hCoherent hCalm
  cared hOpen _ := h.cared_rule hg hRule hCoherent hCalm hOpen

omit hRule in
/-- When a handler that waits for its own retry is handed another failure, the failure that it had to
deal with is forgotten. -/
theorem forsaken_of_handOver {i handler : g.Index} {error : StepError} (hHand : hand.step? = some i)
    (hEdge : Edge.mk i handler .errorCatch ∈ g.edges) (hWaits : (b.slot handler).waiting = true) :
    ∃ a, (b.slot handler).activation = some a ∧
      (b.handOver i handler error).Forsaken .free handler a := by
  have hGuards : g.Guards handler := ⟨i, hEdge⟩
  obtain ⟨a, hOwes⟩ := Option.ne_none_iff_exists'.mp
    (h.engaged handler hGuards (.inr (.inr (.inr hWaits))))
  have hFailed := (h.order a.failed).named handler a hOwes rfl
  have hRunning := ((h.order i).hand hHand).1
  -- what has come to an end now is running, and what the handler had to deal with has failed
  have hOther : i ≠ a.failed := by
    rintro rfl
    rw [hFailed] at hRunning
    cases hRunning
  have hOnce := (h.order a.failed).once handler
  have hInner : ∀ loop, a.failed ∉ g.body loop := fun loop hi => hCoherent.unnamed hg hi hOwes rfl
  have hCall := (h.order a.failed).call
  have hWaiting := (h.order a.failed).waiting
  refine ⟨a, hOwes, fun loop hk => hg.not_guards_of_mem hk hGuards, ⟨by simpa using hWaits, by simp⟩,
    by simp, ⟨⟨i, error⟩, by simp, hOther⟩, ?_⟩
  clear h hCoherent
  constructor <;> grind -linarith

/-- When somebody waits who is not pending, a handler has been handed a failure although it waits. -/
theorem calm_or_forsaken :
    (∀ i, (b'.slot i).waiting = true → (b'.slot i).status = .pending) ∨
      ∃ k a, (b.slot k).activation = some a ∧ (b.slot k).waiting = true ∧
        b'.Forsaken hand' k a := by
  by_cases hCalm : ∀ i, (b'.slot i).waiting = true → (b'.slot i).status = .pending
  · exact .inl hCalm
  · right
    simp only [not_forall] at hCalm
    obtain ⟨k, hWaits, hStatus⟩ := hCalm
    have hWaiting := fun i => (h.order i).waiting
    have hHeld := fun i => (h.order i).hand
    cases hRule with
    | activate hHand hOwner hEdge hConfig hNe hPending =>
      rename_i i handler error
      obtain rfl : handler = k := by
        by_contra hOther
        grind -linarith
      have hWaited : (b.slot handler).waiting = true := by simpa using hWaits
      obtain ⟨a, hOwes, hForsaken⟩ := h.forsaken_of_handOver hg hCoherent hHand hEdge hWaited
      exact ⟨handler, a, hOwes, hWaited, hForsaken⟩
    | recover hOwes =>
      have hSlot := hCoherent.slot_recover hg hOwes
      have hFailed := fun i => (h.order i).named
      clear h hCoherent
      grind -linarith
    | giveUp hHand hOwner =>
      have hMember := hg.owner_mem _ _ hOwner
      clear h hCoherent
      grind -linarith
    | lastRound hFrame =>
      have hRunning := (hCoherent.frame _ _ hFrame).2.1
      clear h hCoherent
      grind -linarith
    | _ =>
      clear h hCoherent
      grind -linarith [Slot.cleared]

/-- A move keeps failures and handlers matched, or a failure is forgotten. -/
theorem rule :
    b'.Matched hand' ∨
      ∃ k a, (b.slot k).activation = some a ∧ (b.slot k).waiting = true ∧
        b'.Forsaken hand' k a :=
  (h.calm_or_forsaken hg hRule hCoherent).imp_left fun hCalm =>
    h.rule_of_calm hg hRule hCoherent hCalm

end Matched

/-- Messages change nothing about what handlers have on their hands. -/
theorem activation_of_notice {m : Message g} (hNotice : Notice b m hand' b') (k : g.Index) :
    (b'.slot k).activation = (b.slot k).activation := by
  cases hNotice <;> grind -linarith

/-- Taking note of a message keeps failures and handlers matched. -/
theorem Matched.notice {m : Message g} (hNotice : Notice b m hand' b')
    (hOpen : b.desk.status.isFinal = false) (h : b.Matched .free) : b'.Matched hand' := by
  have hOrder : ∀ i, b'.InOrder hand' i := fun i => (h.order i).notice hNotice
  have hCared := h.cared hOpen
  obtain ⟨-, hCause, hEngaged, -⟩ := h
  refine ⟨hOrder, ?_, ?_, ?_⟩
  · cases hNotice <;> grind -linarith
  · cases hNotice <;> grind -linarith
  · intro _ i hOwner hFailed
    have hWas : (b.slot i).status = .failed := by cases hNotice <;> grind -linarith
    obtain ⟨k, a, hOwes, hNamed⟩ := hCared i hOwner hWas
    exact ⟨k, a, (activation_of_notice hNotice k).trans hOwes, hNamed⟩

/-- The failures on the hands of handlers are about the steps alone, as long as the run is not
final. -/
theorem Matched.of_slots (h : b.Matched hand) (hSlots : b'.slot = b.slot)
    (hStatus : b'.desk.status.isFinal = false → b.desk.status.isFinal = false) :
    b'.Matched hand := by
  obtain ⟨slot, desk⟩ := b'
  dsimp only at hSlots
  subst hSlots
  obtain ⟨hOrder, hCause, hEngaged, hCared⟩ := h
  refine ⟨fun i => ?_, hCause, hEngaged, fun hOpen => hCared (hStatus hOpen)⟩
  obtain ⟨hWaits, hCall, hHeld, hNamed, hOnce⟩ := hOrder i
  exact ⟨hWaits, hCall, hHeld, hNamed, hOnce⟩

end Board

namespace Scheduler

/-- Whether nobody waits but pending steps. -/
def IsCalm (s : Scheduler g) : Prop :=
  ∀ i, (s.controlOf i).waiting = true → s.statusOf i = .pending

/-- Nobody waits but pending steps, and no settled handler has a failure on its hands. -/
structure IsDutiful (s : Scheduler g) : Prop where
  calm : s.IsCalm
  handlers : ∀ k, (s.statusOf k).isSettled → (s.controlOf k).activation = none

instance : DecidablePred (IsCalm (g := g)) := fun s =>
  inferInstanceAs (Decidable (∀ i : Fin g.size, _ → s.statusOf i = .pending))

instance : DecidablePred (IsDutiful (g := g)) := fun s =>
  decidable_of_iff (s.IsCalm ∧ ∀ k : Fin g.size, (s.statusOf k).isSettled →
    (s.controlOf k).activation = none) ⟨fun ⟨hCalm, hHandlers⟩ => ⟨hCalm, hHandlers⟩,
      fun ⟨hCalm, hHandlers⟩ => ⟨hCalm, hHandlers⟩⟩

theorem matched_enter (hg : g.Sound) {s : Scheduler g} (hFresh : s.IsFresh) :
    s.enter.board.Matched .free := by
  have hSlot := slot_enter hg hFresh
  have hEntry : ¬ g.Guards g.entry := hg.not_guards_of_kind (by simp [hg.entry_start])
  constructor
  · intro i
    constructor <;> grind -linarith [Slot.initial]
  all_goals grind -linarith [Slot.initial]

end Scheduler

/-- In a run in which nobody waits but pending steps, failures and handlers are matched. -/
theorem Course.Reaches.matched (hg : g.Sound) {ok : Scheduler g → Prop}
    (hOk : ∀ s, ok s → s.IsCalm) {p : Course g} (hReach : Course.Reaches ok p) :
    ∃ hand, Scheduler.AtRest hand p.scheduler ∧ p.scheduler.board.Coherent hand ∧
      p.scheduler.board.Matched hand := by
  -- In the middle of a turn a handler may have been forsaken, but no calm state comes of that.
  refine hReach.coherent_invariant hg
    (P := fun hand s => s.board.Matched hand ∨ ∃ k a, s.board.Forsaken hand k a)
    (Q := fun hand s => s.board.Matched hand) ?_ ?_ ?_ ?_ ?_ ?_
  · intro s hFresh
    exact .inl (Scheduler.matched_enter hg hFresh)
  · rintro hand s hand' s' hMove hCoherent (hMatched | ⟨k, a, hForsaken⟩)
    · rcases hMatched.rule hg (hMove.rule hg) hCoherent with h | ⟨k, a, -, -, h⟩
      · exact .inl h
      · exact .inr ⟨k, a, h⟩
    · exact .inr ⟨k, a, hForsaken.rule hg (hMove.rule hg) hCoherent⟩
  · intro s m hand s' hOpen hReceive _ hMatched
    have hStatus : s.board.desk.status.isFinal = false := (Bool.or_eq_false_iff.mp hOpen).1
    exact .inl (hMatched.notice hReceive.notice hStatus)
  · rintro hand s requests - hCalm (hMatched | ⟨k, a, hForsaken⟩)
    · exact hMatched.of_slots rfl id
    · exact absurd (hOk _ hCalm k hForsaken.waits.1) hForsaken.waits.2
  · exact fun _ _ hMatched => hMatched.of_slots rfl id
  · exact fun s hOpen _ hMatched =>
      hMatched.of_slots s.slot_conclude fun _ => (Bool.or_eq_false_iff.mp hOpen).1

/-- Between two turns of such a run that is not over nothing is in hand. -/
theorem Course.Reaches.matched_free (hg : g.Sound) {ok : Scheduler g → Prop}
    (hOk : ∀ s, ok s → s.IsCalm) {p : Course g} (hReach : Course.Reaches ok p)
    (hOpen : p.scheduler.isOver = false) : p.scheduler.board.Matched .free := by
  obtain ⟨hand, hAtRest, -, h⟩ := hReach.matched hg hOk
  exact hAtRest.free hOpen ▸ h

/-! ## Steps that are left failed stay failed -/

namespace Course

/-- Whether a step is left failed for good. -/
def Strands (p : Course g) (i : g.Index) : Prop :=
  ∃ hand, Scheduler.AtRest hand p.scheduler ∧ p.scheduler.board.Stranded hand i

theorem Strands.turn (hg : g.Sound) {ok : Scheduler g → Prop} {p q : Course g} {i : g.Index}
    (h : p.Strands i) (hReach : Reaches ok p) (hTurn : Turn p q) : q.Strands i := by
  obtain ⟨hand, hAtRest, hStranded⟩ := h
  cases hTurn with
  | conclude now hOpen =>
    obtain rfl := hAtRest.free hOpen
    exact ⟨.free, .inl rfl,
      hStranded.of_slots ({ p.scheduler with now } : Scheduler g).slot_conclude⟩
  | read m now hOpen _ _ =>
    obtain rfl := hAtRest.free hOpen
    obtain ⟨_, s, hReceive, last, hMoves, hAtRest'⟩ := read_goes hg hOpen m now
    have hKeep := hMoves.coherent_invariant hg (P := fun hand s => s.board.Stranded hand i)
      (fun _ _ _ _ hMove hCoherent h => h.rule hg (hMove.rule hg) hCoherent)
      ((hReach.coherent_free hg hOpen).notice hg hReceive.notice) (hStranded.notice hReceive.notice)
    exact ⟨last, hAtRest', hKeep.2.of_slots rfl⟩

/-- However the run goes on, a step that is left failed for good stays failed. -/
theorem Strands.stays (hg : g.Sound) {p q : Course g} {i : g.Index} (h : p.Strands i)
    (hReach : Reached p) (hRun : Relation.ReflTransGen Turn p q) :
    q.scheduler.statusOf i = .failed := by
  have hKeep : Reached q ∧ q.Strands i := by
    induction hRun with
    | refl => exact ⟨hReach, h⟩
    | tail _ hTurn ih => exact ⟨ih.1.turn hTurn trivial, ih.2.turn hg ih.1 hTurn⟩
  obtain ⟨_, _, hStranded⟩ := hKeep.2
  exact hStranded.failed

end Course

end Workflow

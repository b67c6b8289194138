/-
Workflow.Proofs.Run.Coherence — what is true of the steps in every run.

Whatever happens in a run, what is remembered of its steps stays coherent:
a running step has a call or a round that is under way, a loop has rounds
only while it is running, the steps of its body rest while it has none, and
what an error handler is to deal with is a step that it guards.

Steps that guard others are the exception. A handler that waits for a retry
of its own is pending and can be handed another failure; then it is ready
and still waits. Every other step is in order.

* `Board.InOrder` — a step that is in order.
* `Board.Coherent` — what is true of the steps in every run.
* `Coherent.rule`, `Coherent.notice` — moves and messages keep it.
* `Reaches.coherent_invariant` — what moves and messages of a coherent
  scheduler keep holds throughout, and every run is coherent.
-/
import Workflow.Proofs.Run.Course
import Workflow.Proofs.Run.Rule
import Workflow.Proofs.Run.Shell

namespace Workflow

variable {g : Graph}

/-- Whether a step guards others. -/
def Graph.Guards (g : Graph) (h : g.Index) : Prop := ∃ i, Edge.mk i h .errorCatch ∈ g.edges

namespace Graph.Sound

variable (hg : g.Sound)
include hg

theorem not_guards_of_kind {i : g.Index} (h : g.kindOf i ≠ .errorHandler) : ¬ g.Guards i := by
  rintro ⟨j, hEdge⟩
  exact h (hg.catch_handler _ hEdge rfl)

theorem not_guards_of_mem {loop i : g.Index} (h : i ∈ g.body loop) : ¬ g.Guards i := by
  rintro ⟨j, hEdge⟩
  exact hg.not_mem_body_of_owner?_eq_none (hg.owner?_eq_none_of_catch hEdge).2 loop h

end Graph.Sound

namespace Board

/-! ## Coherent boards -/

/-- A step that waits only while it is pending, has a call only while it is running, and owes its
failure, if it has been handed to somebody, to one handler. -/
structure InOrder (hand : Hand g) (b : Board g) (i : g.Index) : Prop where
  waiting : (b.slot i).waiting = true → (b.slot i).status = .pending
  call : (b.slot i).call ≠ none → (b.slot i).status = .running
  hand : hand.step? = some i → (b.slot i).status = .running ∧ (b.slot i).call = none
  named : ∀ h a, (b.slot h).activation = some a → a.failed = i → (b.slot i).status = .failed
  once : ∀ h h' a a', (b.slot h).activation = some a → (b.slot h').activation = some a' →
    a.failed = i → a'.failed = i → h = h'

/-- What is true of the steps in every run. -/
structure Coherent (hand : Hand g) (b : Board g) : Prop where
  /-- Steps that guard nothing are in order. -/
  plain : ∀ i, ¬ g.Guards i → b.InOrder hand i
  /-- A handler deals with failures of steps that it guards. -/
  edge : ∀ h a, (b.slot h).activation = some a →
    Edge.mk a.failed h .errorCatch ∈ g.edges ∧ (g.step h).errorConfig.isSome
  /-- A pending handler that has a failure to deal with waits for a retry. -/
  owing : ∀ h, (b.slot h).activation ≠ none → (b.slot h).status = .pending →
    (b.slot h).waiting = true
  /-- What is settled is not listed as failed. -/
  listed : ∀ i, (b.slot i).status.isSettled → (b.slot i).listed = false
  /-- A loop with rounds is running and in one of them. -/
  frame : ∀ i f, (b.slot i).frame = some f → g.kindOf i = .loop ∧
    (b.slot i).status = .running ∧ (b.slot i).call = none ∧ hand.step? ≠ some i ∧
    f.position < f.items.length
  /-- A loop with a failed step in its body has no more rounds. -/
  failed : ∀ loop, ∀ i ∈ g.body loop, (b.slot i).status = .failed → (b.slot loop).frame = none
  /-- The body of a loop without rounds has not begun or is through. -/
  closed : ∀ loop, (b.slot loop).frame = none →
    (∀ i ∈ g.body loop, (b.slot i).status = .pending ∨ (b.slot i).status = .skipped) ∨
    ∀ i ∈ g.body loop, (b.slot i).status.isFinal
  idle : ∀ loop, (b.slot loop).frame = none → ∀ i ∈ g.body loop,
    (b.slot i).waiting = false ∧ (b.slot i).call = none ∧ hand.step? ≠ some i
  /-- What is running is under way. -/
  busy : ∀ i, (b.slot i).status = .running →
    (b.slot i).call ≠ none ∨ (b.slot i).frame ≠ none ∨ hand.step? = some i ∨ hand = .lost i
  entry : (b.slot g.entry).status ≠ .pending ∧ (b.slot g.entry).call = none ∧
    hand ≠ .ending g.entry
  orphan : ∀ i ∈ g.orphans, (b.slot i).status = .skipped ∧ (b.slot i).waiting = false ∧
    (b.slot i).call = none ∧ hand.step? ≠ some i ∧
    ∀ k a, (b.slot k).activation = some a → a.failed ≠ i

variable {hand hand' : Hand g} {b b' : Board g}

namespace Coherent

variable (h : b.Coherent hand)
include h

/-- Nothing in a body is handed to a handler. -/
theorem unnamed (hg : g.Sound) {loop i : g.Index} (hi : i ∈ g.body loop) {k : g.Index}
    {a : Activation g} (hOwes : (b.slot k).activation = some a) : a.failed ≠ i := by
  rintro rfl
  have hOwner := (hg.owner?_eq_none_of_catch (h.edge k a hOwes).1).1
  exact hg.not_mem_body_of_owner?_eq_none hOwner loop hi

theorem failed_ne (hg : g.Sound) {k : g.Index} {a : Activation g}
    (hOwes : (b.slot k).activation = some a) : a.failed ≠ k := by
  obtain ⟨rank, hRank⟩ := hg.ranked
  have hLt := hRank _ (h.edge k a hOwes).1
  rintro rfl
  simp at hLt

theorem frame_of_hand {i : g.Index} (hHand : hand.step? = some i) :
    (b.slot i).frame = none := by
  cases hFrame : (b.slot i).frame with
  | none => rfl
  | some f => exact absurd hHand (h.frame i f hFrame).2.2.2.1

/-- Only a running loop is in a round. -/
theorem running_of_frame {i : g.Index} (hSome : (b.slot i).frame ≠ none) :
    (b.slot i).status = .running := by
  obtain ⟨f, hFrame⟩ := Option.ne_none_iff_exists'.mp hSome
  exact (h.frame i f hFrame).2.1

/-- While a step of a body is in hand, its loop is in a round. -/
theorem loop_of_hand {i loop : g.Index} (hHand : hand.step? = some i) (hi : i ∈ g.body loop) :
    (b.slot loop).frame ≠ none ∧ (b.slot loop).status = .running ∧ (b.slot loop).call = none := by
  cases hFrame : (b.slot loop).frame with
  | none => exact absurd hHand (h.idle loop hFrame i hi).2.2
  | some f =>
    obtain ⟨_, hRunning, hCall, _⟩ := h.frame loop f hFrame
    exact ⟨by simp, hRunning, hCall⟩

/-- What a handler does when it is through, for it does not guard itself. -/
theorem slot_recover (hg : g.Sound) {k : g.Index} {a : Activation g}
    (hOwes : (b.slot k).activation = some a) (j : g.Index) :
    (b.recover k a).slot j =
      if a.failed = j then (b.slot j).recovered (g.recovery? k) (g.idOf k)
      else if k = j then
        { b.slot k with status := .completed, error := none, listed := false, activation := none }
      else b.slot j :=
  Board.slot_recover b k j (h.failed_ne hg hOwes)

/-- A step that a handler deals with is no loop that is in a round. -/
theorem frame_of_named (hg : g.Sound) {k : g.Index} {a : Activation g}
    (hOwes : (b.slot k).activation = some a) : (b.slot a.failed).frame = none := by
  cases hFrame : (b.slot a.failed).frame with
  | none => rfl
  | some f =>
    obtain ⟨hKind, hRunning, _⟩ := h.frame _ f hFrame
    have hPlain : ¬ g.Guards a.failed := hg.not_guards_of_kind (by simp [hKind])
    rw [(h.plain _ hPlain).named k a hOwes rfl] at hRunning
    cases hRunning

end Coherent

/-! ## Moves keep boards coherent

One lemma for each part of coherence, with one case for each rule. -/

/-- A move keeps a step in order, unless the step is a handler that waits and is handed a failure
nevertheless. -/
theorem InOrder.rule (hg : g.Sound) (hRule : Rule hand b hand' b') (h : b.Coherent hand)
    {i : g.Index} (hi : b.InOrder hand i)
    (hCalm : g.Guards i → (b'.slot i).waiting = true → (b'.slot i).status = .pending) :
    b'.InOrder hand' i := by
  have hOwn := hg.not_mem_own_body
  have hUnnamed : ∀ loop k a, i ∈ g.body loop → (b.slot k).activation = some a → a.failed ≠ i :=
    fun loop k a hMem hOwes => h.unnamed hg hMem hOwes
  obtain ⟨hWaits, hCall, hHeld, hNamed, hOnce⟩ := hi
  -- what coherence says about the steps of a rule is named before the hypothesis is cleared, for the
  -- search would take it up again for every slot
  cases hRule with
  | recover hOwes =>
    rename_i k a
    have hSlot := h.slot_recover hg hOwes
    have hCases := Slot.recovered_cases (g.recovery? k) (g.idOf k) (b.slot a.failed)
    clear h hUnnamed
    constructor <;> grind -linarith
  | nextRound =>
    clear h
    constructor <;> grind -linarith [Slot.cleared]
  | lastRound hFrame _ =>
    have hLoop := h.frame _ _ hFrame
    clear h hUnnamed
    constructor <;> grind -linarith
  | openLoop =>
    have hBody := h.idle _ (h.frame_of_hand rfl)
    clear h
    constructor <;> grind -linarith [Slot.cleared]
  | emptyLoop =>
    have hBody := h.idle _ (h.frame_of_hand rfl)
    clear h
    constructor <;> grind -linarith [Slot.cleared]
  | giveUp hHand hOwner =>
    have hMember := hg.owner_mem _ _ hOwner
    have hPassed := Hand.step?_passTo hHand
    have hLoop := h.loop_of_hand hHand hMember
    clear h
    constructor <;> grind -linarith
  | activate _ _ hEdge =>
    have hGuards : g.Guards _ := ⟨_, hEdge⟩
    clear h hUnnamed
    constructor <;> grind -linarith
  | _ =>
    clear h hUnnamed
    constructor <;> grind -linarith

namespace Coherent

variable (hg : g.Sound) (hRule : Rule hand b hand' b') (h : b.Coherent hand)
include hg hRule h

theorem edge_rule {k : g.Index} {a : Activation g} (hOwes : (b'.slot k).activation = some a) :
    Edge.mk a.failed k .errorCatch ∈ g.edges ∧ (g.step k).errorConfig.isSome := by
  have hEdge := h.edge
  cases hRule with
  | recover hBefore =>
    have hSlot := h.slot_recover hg hBefore
    clear h
    grind -linarith
  | _ =>
    clear h
    grind -linarith [Slot.cleared]

theorem owing_rule {k : g.Index} (hOwes : (b'.slot k).activation ≠ none)
    (hPending : (b'.slot k).status = .pending) : (b'.slot k).waiting = true := by
  have hOwing := h.owing
  have hMember : ∀ loop, ∀ i ∈ g.body loop, (b.slot i).activation = none := by
    intro loop i hi
    cases hOwes : (b.slot i).activation with
    | none => rfl
    | some a => exact absurd ⟨_, (h.edge i a hOwes).1⟩ (hg.not_guards_of_mem hi)
  cases hRule with
  | recover hBefore =>
    rename_i i a
    have hSlot := h.slot_recover hg hBefore
    have hCases := Slot.recovered_cases (g.recovery? i) (g.idOf i) (b.slot a.failed)
    clear h
    grind -linarith
  | giveUp hHand hOwner =>
    have hGivenUp := hg.owner_mem _ _ hOwner
    clear h
    grind -linarith
  | _ =>
    clear h
    grind -linarith [Slot.cleared]

theorem listed_rule {i : g.Index} (hSettled : (b'.slot i).status.isSettled) :
    (b'.slot i).listed = false := by
  have hListed := h.listed
  cases hRule with
  | recover hOwes =>
    rename_i k a
    have hSlot := h.slot_recover hg hOwes
    have hCases := Slot.recovered_cases (g.recovery? k) (g.idOf k) (b.slot a.failed)
    clear h
    grind -linarith
  | _ =>
    clear h
    grind -linarith [Slot.cleared, Slot.abandoned]

theorem frame_rule {i : g.Index} {f : Frame} (hFrame : (b'.slot i).frame = some f) :
    g.kindOf i = .loop ∧ (b'.slot i).status = .running ∧ (b'.slot i).call = none ∧
      hand'.step? ≠ some i ∧ f.position < f.items.length := by
  have hFrames := h.frame
  have hKind := fun loop i hi => (hg.body_kind loop i hi).2.2
  cases hRule with
  | recover hOwes =>
    rename_i k a
    have hSlot := h.slot_recover hg hOwes
    have hNamed := h.frame_of_named hg hOwes
    have hHeld := h.frame_of_hand (Hand.step?_ending k)
    clear h
    grind -linarith
  | openLoop hLoop hSafe hItems =>
    rename_i loop items
    have hHeld := (h.plain loop (hg.not_guards_of_kind (by simp [hLoop]))).hand rfl
    have hLength : 0 < items.length := List.length_pos_iff.mpr hItems
    clear h
    grind -linarith [Slot.cleared]
  | giveUp hHand hOwner =>
    have hMember := hg.owner_mem _ _ hOwner
    have hPassed := Hand.step?_passTo hHand
    clear h
    grind -linarith
  | _ =>
    clear h
    grind -linarith [Slot.cleared]

theorem failed_rule {loop i : g.Index} (hi : i ∈ g.body loop)
    (hFailed : (b'.slot i).status = .failed) : (b'.slot loop).frame = none := by
  have hBefore := h.failed
  have hOwn := hg.not_mem_own_body
  have hOne : ∀ l l' i, i ∈ g.body l → i ∈ g.body l' → l = l' := fun _ _ _ => hg.body_disjoint
  cases hRule with
  | recover hOwes =>
    rename_i k a
    have hSlot := h.slot_recover hg hOwes
    have hCases := Slot.recovered_cases (g.recovery? k) (g.idOf k) (b.slot a.failed)
    clear h hOne
    grind -linarith
  | openLoop | nextRound =>
    clear h
    grind -linarith [Slot.cleared]
  | giveUp hHand hOwner =>
    have hMember := hg.owner_mem _ _ hOwner
    clear h
    grind -linarith
  | activate _ hOwner | failRun _ hOwner =>
    have hOuter := hg.not_mem_body_of_owner?_eq_none hOwner
    clear h hOne
    grind -linarith
  | _ =>
    clear h hOne
    grind -linarith [Slot.cleared]

theorem closed_rule {loop : g.Index} (hFrame : (b'.slot loop).frame = none) :
    (∀ i ∈ g.body loop, (b'.slot i).status = .pending ∨ (b'.slot i).status = .skipped) ∨
      ∀ i ∈ g.body loop, (b'.slot i).status.isFinal := by
  have hClosed := h.closed
  have hOne : ∀ l l' i, i ∈ g.body l → i ∈ g.body l' → l = l' := fun _ _ _ => hg.body_disjoint
  have hKind := fun l i hi => (hg.body_kind l i hi).2.2
  have hHeld : ∀ i l, hand.step? = some i → i ∈ g.body l → (b.slot l).frame ≠ none :=
    fun i l hHand hi => (h.loop_of_hand hHand hi).1
  cases hRule with
  | promote hHandler hPending hWaiting hEdge hLive =>
    -- nothing is live in a body that rests, and a body that is through has nothing pending
    have hSource := fun l hi => hg.body_source l _ hi _ hEdge rfl
    clear h
    grind -linarith [Board.IsLive]
  | lastRound hLast hSettled =>
    rename_i last frame
    have hLoop := (h.frame _ _ hLast).1
    clear h
    by_cases hEq : loop = last
    · subst hEq
      right
      intro i hi
      have hThrough := hSettled i hi
      grind -linarith
    · have hBefore := hClosed loop
      grind -linarith
  | recover hOwes =>
    have hSlot := h.slot_recover hg hOwes
    have hUnnamed : ∀ l, ∀ j ∈ g.body l, _ := fun _ _ hi => h.unnamed hg hi hOwes
    clear h
    grind -linarith
  | giveUp hHand hOwner =>
    have hMember := hg.owner_mem _ _ hOwner
    have hLoop := hg.body_loop _ _ hMember
    have hThrough := Slot.isFinal_abandoned (g := g)
    clear h
    grind -linarith
  | activate hHand hOwner hEdge =>
    have hOwners := hg.owner?_eq_none_of_catch hEdge
    have hFailed := hg.not_mem_body_of_owner?_eq_none hOwners.1
    have hHandler := hg.not_mem_body_of_owner?_eq_none hOwners.2
    clear h
    grind -linarith
  | failRun hHand hOwner =>
    have hFailed := hg.not_mem_body_of_owner?_eq_none hOwner
    clear h
    grind -linarith
  | _ =>
    clear h
    grind -linarith [Slot.cleared]

theorem idle_rule {loop i : g.Index} (hFrame : (b'.slot loop).frame = none)
    (hi : i ∈ g.body loop) :
    (b'.slot i).waiting = false ∧ (b'.slot i).call = none ∧ hand'.step? ≠ some i := by
  have hIdle := h.idle
  have hOne : ∀ l l' i, i ∈ g.body l → i ∈ g.body l' → l = l' := fun _ _ _ => hg.body_disjoint
  have hKind := fun l i hi => (hg.body_kind l i hi).2.2
  cases hRule with
  | begin hReady =>
    have hClosed := h.closed
    clear h
    grind -linarith
  | lastRound hLast hSettled =>
    rename_i last frame
    have hPlain : ∀ j ∈ g.body last, b.InOrder .free j :=
      fun j hj => h.plain j (hg.not_guards_of_mem hj)
    have hWaiting := fun j hj => (hPlain j hj).waiting
    have hCall := fun j hj => (hPlain j hj).call
    clear h
    grind -linarith
  | recover hOwes =>
    have hSlot := h.slot_recover hg hOwes
    clear h
    grind -linarith
  | giveUp hHand hOwner =>
    have hMember := hg.owner_mem _ _ hOwner
    have hLoop := hg.body_loop _ _ hMember
    have hPassed := Hand.step?_passTo hHand
    clear h
    grind -linarith
  | _ =>
    clear h
    grind -linarith [Slot.cleared]

theorem busy_rule {i : g.Index} (hRunning : (b'.slot i).status = .running) :
    (b'.slot i).call ≠ none ∨ (b'.slot i).frame ≠ none ∨ hand'.step? = some i ∨
      hand' = .lost i := by
  have hBusy := h.busy
  cases hRule with
  | recover hOwes =>
    rename_i k a
    have hNe := h.failed_ne hg hOwes
    have hSlot := h.slot_recover hg hOwes
    have hCases := Slot.recovered_cases (g.recovery? k) (g.idOf k) (b.slot a.failed)
    clear h
    grind -linarith
  | giveUp hHand hOwner =>
    have hPassed := Hand.step?_passTo hHand
    have hNotLost : ∀ j, hand ≠ .lost j := by
      rintro j rfl
      cases hHand
    clear h
    grind -linarith
  | _ =>
    clear h
    grind -linarith [Slot.cleared]

theorem entry_rule :
    (b'.slot g.entry).status ≠ .pending ∧ (b'.slot g.entry).call = none ∧
      hand' ≠ .ending g.entry := by
  have hEntry := h.entry
  have hKind := hg.entry_start
  have hBody := fun l => hg.body_kind l g.entry
  cases hRule with
  | recover hOwes =>
    rename_i k a
    have hSlot := h.slot_recover hg hOwes
    have hCases := Slot.recovered_cases (g.recovery? k) (g.idOf k) (b.slot a.failed)
    clear h
    grind -linarith
  | giveUp hHand hOwner =>
    have hLoop := hg.body_loop _ _ (hg.owner_mem _ _ hOwner)
    clear h
    cases hand <;> grind -linarith [Hand.passTo]
  | _ =>
    clear h
    grind -linarith [Hand.step?, Slot.cleared]

theorem orphan_rule {i : g.Index} (hi : i ∈ g.orphans) :
    (b'.slot i).status = .skipped ∧ (b'.slot i).waiting = false ∧ (b'.slot i).call = none ∧
      hand'.step? ≠ some i ∧ ∀ k a, (b'.slot k).activation = some a → a.failed ≠ i := by
  have hOrphan := h.orphan
  have hBody : ∀ loop j, loop ∉ g.orphans → j ∈ g.body loop → j ∉ g.orphans :=
    fun _ _ => hg.body_reached
  cases hRule with
  | recover hOwes =>
    have hSlot := h.slot_recover hg hOwes
    clear h
    grind -linarith
  | nextRound hFrame | lastRound hFrame =>
    have hRunning := (h.frame _ _ hFrame).2.1
    clear h
    grind -linarith [Slot.cleared]
  | giveUp hHand hOwner =>
    have hLoop := h.loop_of_hand hHand (hg.owner_mem _ _ hOwner)
    have hPassed := Hand.step?_passTo hHand
    clear h
    grind -linarith
  | _ =>
    clear h
    grind -linarith [Slot.cleared]

/-- Every move keeps the steps coherent. -/
theorem rule : b'.Coherent hand' where
  plain i hi := (h.plain i hi).rule hg hRule h fun hGuards => absurd hGuards hi
  edge _ _ := h.edge_rule hg hRule
  owing _ := h.owing_rule hg hRule
  listed _ := h.listed_rule hg hRule
  frame _ _ := h.frame_rule hg hRule
  failed _ _ := h.failed_rule hg hRule
  closed _ := h.closed_rule hg hRule
  idle _ hFrame _ := h.idle_rule hg hRule hFrame
  busy _ := h.busy_rule hg hRule
  entry := h.entry_rule hg hRule
  orphan _ := h.orphan_rule hg hRule

end Coherent

/-! ## Messages keep boards coherent -/

/-- Taking note of a message keeps every step in order. -/
theorem InOrder.notice {m : Message g} (hNotice : Notice b m hand' b') {i : g.Index}
    (hi : b.InOrder .free i) : b'.InOrder hand' i := by
  obtain ⟨hWaits, hCall, hHeld, hNamed, hOnce⟩ := hi
  cases hNotice <;> constructor <;> grind -linarith

/-- Taking note of a message keeps the steps coherent. -/
theorem Coherent.notice (hg : g.Sound) {m : Message g} (hNotice : Notice b m hand' b')
    (h : b.Coherent .free) : b'.Coherent hand' := by
  have hPlain : ∀ i, ¬ g.Guards i → b'.InOrder hand' i :=
    fun i hi => (h.plain i hi).notice hNotice
  obtain ⟨hInOrder, hEdge, hOwing, hListed, hFrame, hFailed, hClosed, hIdle, hBusy, hEntry,
    hOrphan⟩ := h
  cases hNotice with
  | command | stale => constructor <;> assumption
  | early => constructor <;> assumption
  | ended hCall =>
    rename_i k token outcome
    have hRunning : ∀ loop, k ∈ g.body loop → (b.slot k).status = .running := fun loop hk =>
      (hInOrder k (hg.not_guards_of_mem hk)).call (by simp [hCall])
    constructor
    · exact hPlain
    all_goals grind -linarith
  | due hWaiting =>
    rename_i k
    have hLoop : (b.slot k).frame = none := by
      cases hSome : (b.slot k).frame with
      | none => rfl
      | some f =>
        obtain ⟨hKind, hRunning, _⟩ := hFrame k f hSome
        have hWaits := (hInOrder k (hg.not_guards_of_kind (by simp [hKind]))).waiting hWaiting
        rw [hRunning] at hWaits
        cases hWaits
    constructor
    · exact hPlain
    all_goals grind -linarith

/-- Coherence is about the steps alone. -/
theorem Coherent.of_slots (h : b.Coherent hand) (hSlots : b'.slot = b.slot) :
    b'.Coherent hand := by
  obtain ⟨slot, desk⟩ := b'
  dsimp only at hSlots
  subst hSlots
  obtain ⟨hInOrder, hEdge, hOwing, hListed, hFrame, hFailed, hClosed, hIdle, hBusy, hEntry,
    hOrphan⟩ := h
  constructor
  · intro i hi
    obtain ⟨hWaits, hCall, hHeld, hNamed, hOnce⟩ := hInOrder i hi
    exact ⟨hWaits, hCall, hHeld, hNamed, hOnce⟩
  all_goals assumption

end Board

/-! ## The beginning -/

/-- A step that has not begun. -/
def Slot.initial (status : StepStatus) : Slot g :=
  { status, error := none, recoveredBy := none, listed := false, call := none, waiting := false,
    frame := none, activation := none }

namespace Scheduler

/-- In the beginning the entry is ready and what nothing leads to is skipped. -/
theorem slot_enter (hg : g.Sound) {s : Scheduler g} (hFresh : s.IsFresh) (i : g.Index) :
    s.enter.board.slot i = Slot.initial
      (if i = g.entry then .ready else if i ∈ g.orphans then .skipped else .pending) := by
  obtain ⟨runId, workflowId, workflowName, input, vars, created, stepTimeout, now, rfl⟩ := hFresh
  have hInitial (j : g.Index) : (({ initial (RunState.initial g runId workflowId workflowName input
      vars created) stepTimeout with now } : Scheduler g).board.slot j) = Slot.initial .pending := by
    simp [board, initial, RunState.initial, RunState.result, controlOf, StepResult.initial,
      Control.initial, Slot.initial]
  unfold enter
  rw [board_setStatus, board_foldl _ (fun x => { x with status := .skipped, listed := false }) board_skip
    fun _ => rfl]
  simp only [Board.slot_set, hInitial, hg.entry_reached, if_false]
  by_cases h : i = g.entry
  · simp [h, Slot.initial]
  · by_cases hOrphan : i ∈ g.orphans
    · simp [h, Ne.symm h, hOrphan, Slot.initial]
    · simp [h, Ne.symm h, hOrphan]

theorem status_enter (hg : g.Sound) {s : Scheduler g} (hFresh : s.IsFresh) (i : g.Index) :
    s.enter.statusOf i = .ready ∨ s.enter.statusOf i = .skipped ∨ s.enter.statusOf i = .pending := by
  have hStatus : s.enter.statusOf i =
      if i = g.entry then .ready else if i ∈ g.orphans then .skipped else .pending :=
    congrArg Slot.status (slot_enter hg hFresh i)
  rw [hStatus]
  split
  · exact .inl rfl
  · split <;> simp

theorem desk_enter (s : Scheduler g) : s.enter.board.desk = s.board.desk :=
  congrArg (fun v : Shell g => Desk.mk v.status v.paused v.running v.requests v.crashed) s.shell_enter

theorem coherent_enter (hg : g.Sound) {s : Scheduler g} (hFresh : s.IsFresh) :
    s.enter.board.Coherent .free := by
  have hSlot := slot_enter hg hFresh
  have hReached := hg.entry_reached
  have hBody := fun loop hi => (hg.body_kind loop g.entry hi).1 hg.entry_start
  constructor
  · intro i hi
    constructor <;> grind -linarith [Slot.initial]
  all_goals grind -linarith [Slot.initial]

theorem slot_conclude (s : Scheduler g) : s.conclude.board.slot = s.board.slot :=
  conclude_keeps (fun s => s.board.slot) (fun _ _ => rfl) (fun _ _ _ => rfl) s

theorem requests_conclude (s : Scheduler g) : s.conclude.requests = s.requests :=
  conclude_keeps requests (fun _ _ => rfl) (fun _ _ _ => rfl) s

end Scheduler

/-- What every move of a coherent scheduler keeps, some moves keep. -/
theorem Scheduler.Moves.coherent_invariant (hg : g.Sound) {P : Hand g → Scheduler g → Prop}
    (hMove : ∀ hand s hand' s', Move hand s hand' s' → s.board.Coherent hand → P hand s →
      P hand' s')
    {hand hand' : Hand g} {s s' : Scheduler g} (h : Moves hand s hand' s')
    (hCoherent : s.board.Coherent hand) (hP : P hand s) :
    s'.board.Coherent hand' ∧ P hand' s' :=
  h.invariant (P := fun hand s => s.board.Coherent hand ∧ P hand s)
    (fun _ _ _ _ hMoved ⟨hCoherent, hP⟩ =>
      ⟨hCoherent.rule hg (hMoved.rule hg), hMove _ _ _ _ hMoved hCoherent hP⟩)
    ⟨hCoherent, hP⟩

/-- Every run is coherent, and so what holds in the beginning and is kept by every message and every
move of a coherent scheduler holds throughout. -/
theorem Course.Reaches.coherent_invariant (hg : g.Sound) {ok : Scheduler g → Prop}
    {P Q : Hand g → Scheduler g → Prop} (hEnter : ∀ s : Scheduler g, s.IsFresh → P .free s.enter)
    (hMove : ∀ hand s hand' s', Scheduler.Move hand s hand' s' → s.board.Coherent hand →
      P hand s → P hand' s')
    (hReceives : ∀ s m hand s', s.isOver = false → Scheduler.Receives s m hand s' →
      s.board.Coherent .free → Q .free s → P hand s')
    (hRest : ∀ hand s requests, Scheduler.AtRest hand s → ok { s with requests } → P hand s →
      Q hand { s with requests })
    (hNow : ∀ s now, Q .free s → Q .free { s with now })
    (hConclude : ∀ s : Scheduler g, s.isOver = false → ok s.conclude → Q .free s → Q .free s.conclude)
    {p : Course g} (hReach : Course.Reaches ok p) :
    ∃ hand, Scheduler.AtRest hand p.scheduler ∧ p.scheduler.board.Coherent hand ∧
      Q hand p.scheduler :=
  hReach.invariant (P := fun hand s => s.board.Coherent hand ∧ P hand s)
    (Q := fun hand s => s.board.Coherent hand ∧ Q hand s) hg
    (fun s hFresh => ⟨Scheduler.coherent_enter hg hFresh, hEnter s hFresh⟩)
    (fun _ _ _ _ hMoved ⟨hCoherent, hP⟩ =>
      ⟨hCoherent.rule hg (hMoved.rule hg), hMove _ _ _ _ hMoved hCoherent hP⟩)
    (fun _ _ _ _ hOpen hReceive ⟨hCoherent, hQ⟩ =>
      ⟨hCoherent.notice hg hReceive.notice, hReceives _ _ _ _ hOpen hReceive hCoherent hQ⟩)
    (fun _ _ _ hAtRest hOk ⟨hCoherent, hP⟩ => ⟨hCoherent.of_slots rfl, hRest _ _ _ hAtRest hOk hP⟩)
    (fun _ now ⟨hCoherent, hQ⟩ => ⟨hCoherent.of_slots rfl, hNow _ now hQ⟩)
    (fun s hOpen hOk ⟨hCoherent, hQ⟩ =>
      ⟨hCoherent.of_slots s.slot_conclude, hConclude s hOpen hOk hQ⟩)

/-- Every run is coherent. -/
theorem Course.Reaches.coherent (hg : g.Sound) {ok : Scheduler g → Prop} {p : Course g}
    (hReach : Course.Reaches ok p) :
    ∃ hand, Scheduler.AtRest hand p.scheduler ∧ p.scheduler.board.Coherent hand := by
  obtain ⟨hand, hAtRest, hCoherent, -⟩ := hReach.coherent_invariant hg (P := fun _ _ => True)
    (Q := fun _ _ => True) (fun _ _ => trivial) (fun _ _ _ _ _ _ h => h) (fun _ _ _ _ _ _ _ h => h)
    (fun _ _ _ _ _ h => h) (fun _ _ h => h) (fun _ _ _ h => h)
  exact ⟨hand, hAtRest, hCoherent⟩

/-- Between two turns of a run that is not over nothing is in hand. -/
theorem Course.Reaches.coherent_free (hg : g.Sound) {ok : Scheduler g → Prop} {p : Course g}
    (hReach : Course.Reaches ok p) (hOpen : p.scheduler.isOver = false) :
    p.scheduler.board.Coherent .free := by
  obtain ⟨hand, hAtRest, h⟩ := hReach.coherent hg
  exact hAtRest.free hOpen ▸ h

end Workflow

/-
Workflow.Proofs.Run.Rest — a scheduler goes on as long as it can.

A scheduler settles what is decided and starts what is ready, over and
over as long as that leaves less to start. When it stops, nothing is left
that could be promoted, no round is through that has not been ended, and,
unless the run is paused, nothing is ready.

* `Board.toStart` — what is left to start, as three numbers.
* `Rule.toStart_le` — no move leaves more, and every start leaves less.
* `Scheduler.Rested`, `advance_rested` — where a scheduler stops.
-/
import Mathlib.Algebra.Order.BigOperators.Group.List
import Mathlib.Algebra.GroupWithZero.Nat
import Mathlib.Algebra.Order.Group.Nat
import Mathlib.Data.Prod.Lex
import Workflow.Proofs.Run.Course
import Workflow.Proofs.Run.Rule

namespace Workflow

variable {g : Graph}

/-! ## What is left to start -/

/-- Whether a step has not begun. -/
def StepStatus.IsUnstarted (status : StepStatus) : Prop := status = .pending ∨ status = .ready

instance (status : StepStatus) : Decidable status.IsUnstarted := by
  unfold StepStatus.IsUnstarted
  infer_instance

/-- The rounds of a loop that are not through. -/
def Slot.remaining (x : Slot g) : Nat := (x.frame.map Scheduler.Frame.remaining).getD 0

/-- Whether a loop is being started. -/
def Hand.opening : Hand g → Nat
  | .starting i => if g.kindOf i = .loop then 1 else 0
  | _ => 0

theorem countP_lt_countP {α : Type} {p q : α → Bool} {l : List α} (h : ∀ x, p x = true → q x = true)
    {x : α} (hx : x ∈ l) (hp : p x = false) (hq : q x = true) : l.countP p < l.countP q := by
  obtain ⟨before, after, rfl⟩ := List.append_of_mem hx
  have hBefore := List.countP_mono_left (l := before) fun y _ => h y
  have hAfter := List.countP_mono_left (l := after) fun y _ => h y
  simp only [List.countP_append, List.countP_cons, hp, hq]
  simp only [Bool.false_eq_true, if_false, if_true]
  omega

namespace Board

/-- The loops that have not started. -/
def unstarted (b : Board g) : Nat :=
  g.indices.countP fun i => g.kindOf i = .loop && (b.slot i).status.IsUnstarted

/-- The rounds of all loops that are not through. -/
def rounds (b : Board g) : Nat := (g.indices.map fun i => (b.slot i).remaining).sum

/-- How far all steps are from having started. -/
def distance (b : Board g) : Nat :=
  (g.indices.map fun i => Scheduler.distance (b.slot i).status).sum

/-- What is left to start. A loop in hand counts as one that has not started. -/
def toStart (hand : Hand g) (b : Board g) : Nat ×ₗ Nat ×ₗ Nat :=
  toLex (b.unstarted + hand.opening, toLex (b.rounds, b.distance))

variable {b b' : Board g} {hand hand' : Hand g}

theorem unstarted_le (h : ∀ i, g.kindOf i = .loop → (b'.slot i).status.IsUnstarted →
    (b.slot i).status.IsUnstarted) : b'.unstarted ≤ b.unstarted := by
  refine List.countP_mono_left fun i _ hi => ?_
  simp only [Bool.and_eq_true, decide_eq_true_eq] at hi ⊢
  exact ⟨hi.1, h i hi.1 hi.2⟩

theorem unstarted_lt (h : ∀ i, g.kindOf i = .loop → (b'.slot i).status.IsUnstarted →
    (b.slot i).status.IsUnstarted) {i : g.Index} (hLoop : g.kindOf i = .loop)
    (hBefore : (b.slot i).status.IsUnstarted) (hAfter : ¬ (b'.slot i).status.IsUnstarted) :
    b'.unstarted < b.unstarted := by
  have hAll : ∀ j, (g.kindOf j = .loop && (b'.slot j).status.IsUnstarted) = true →
      (g.kindOf j = .loop && (b.slot j).status.IsUnstarted) = true := by
    intro j hj
    simp only [Bool.and_eq_true, decide_eq_true_eq] at hj ⊢
    exact ⟨hj.1, h j hj.1 hj.2⟩
  refine countP_lt_countP hAll (List.mem_finRange i) ?_ ?_
  · simp [hAfter]
  · simp [hLoop, hBefore]

theorem rounds_le (h : ∀ i, (b'.slot i).remaining ≤ (b.slot i).remaining) :
    b'.rounds ≤ b.rounds :=
  List.sum_le_sum fun i _ => h i

theorem rounds_lt (h : ∀ i, (b'.slot i).remaining ≤ (b.slot i).remaining) {i : g.Index}
    (hi : (b'.slot i).remaining < (b.slot i).remaining) : b'.rounds < b.rounds :=
  List.sum_lt_sum _ _ (fun i _ => h i) ⟨i, List.mem_finRange i, hi⟩

theorem distance_le (h : ∀ i, Scheduler.distance (b'.slot i).status ≤
    Scheduler.distance (b.slot i).status) : b'.distance ≤ b.distance :=
  List.sum_le_sum fun i _ => h i

theorem distance_lt (h : ∀ i, Scheduler.distance (b'.slot i).status ≤
    Scheduler.distance (b.slot i).status) {i : g.Index}
    (hi : Scheduler.distance (b'.slot i).status < Scheduler.distance (b.slot i).status) :
    b'.distance < b.distance :=
  List.sum_lt_sum _ _ (fun i _ => h i) ⟨i, List.mem_finRange i, hi⟩

theorem toStart_le (hUnstarted : b'.unstarted + hand'.opening ≤ b.unstarted + hand.opening)
    (hRounds : b'.rounds ≤ b.rounds) (hDistance : b'.distance ≤ b.distance) :
    b'.toStart hand' ≤ b.toStart hand := by
  simp only [toStart, Prod.Lex.toLex_le_toLex]
  omega

theorem toStart_le_of_slots (hOpening : hand'.opening ≤ hand.opening)
    (hUnstarted : ∀ i, g.kindOf i = .loop → (b'.slot i).status.IsUnstarted →
      (b.slot i).status.IsUnstarted)
    (hRounds : ∀ i, (b'.slot i).remaining ≤ (b.slot i).remaining)
    (hDistance : ∀ i, Scheduler.distance (b'.slot i).status ≤
      Scheduler.distance (b.slot i).status) : b'.toStart hand' ≤ b.toStart hand :=
  toStart_le (Nat.add_le_add (unstarted_le hUnstarted) hOpening) (rounds_le hRounds)
    (distance_le hDistance)

theorem toStart_lt_of_unstarted
    (h : b'.unstarted + hand'.opening < b.unstarted + hand.opening) :
    b'.toStart hand' < b.toStart hand := by
  simp only [toStart, Prod.Lex.toLex_lt_toLex]
  exact .inl h

theorem toStart_lt_of_rounds (hUnstarted : b'.unstarted + hand'.opening ≤ b.unstarted + hand.opening)
    (h : b'.rounds < b.rounds) : b'.toStart hand' < b.toStart hand := by
  simp only [toStart, Prod.Lex.toLex_lt_toLex]
  omega

/-- What is in hand counts only for more. -/
theorem toStart_free_le (b : Board g) (hand : Hand g) : b.toStart .free ≤ b.toStart hand :=
  toStart_le (by simp [Hand.opening]) le_rfl le_rfl

end Board

/-- A step that starts leaves less to start. -/
theorem Board.toStart_begin {b b' : Board g} {i : g.Index}
    (hBegin : b' = b.set i { b.slot i with status := .running })
    (hReady : (b.slot i).status = .ready) : b'.toStart (.starting i) < b.toStart .free := by
  have hUnstarted : ∀ j, g.kindOf j = .loop → (b'.slot j).status.IsUnstarted →
      (b.slot j).status.IsUnstarted := by
    subst hBegin
    grind -linarith [StepStatus.IsUnstarted]
  have hRounds : b'.rounds ≤ b.rounds := by
    refine rounds_le ?_
    subst hBegin
    grind -linarith [Slot.remaining]
  have hDistance : b'.distance < b.distance := by
    refine distance_lt (i := i) ?_ ?_
    · subst hBegin
      grind -linarith [Scheduler.distance]
    · simp [hBegin, hReady, Scheduler.distance]
  have hLoops : b'.unstarted + (Hand.starting i).opening ≤
      b.unstarted + (Hand.free : Hand g).opening := by
    simp only [Hand.opening]
    split
    · rename_i hLoop
      have hLess := unstarted_lt hUnstarted hLoop (by simp [hReady, StepStatus.IsUnstarted])
        (by simp [hBegin, StepStatus.IsUnstarted])
      omega
    · exact unstarted_le hUnstarted
  simp only [toStart, Prod.Lex.toLex_lt_toLex]
  omega

/-- No move leaves more to start, unless a call has come to an end. -/
theorem Rule.toStart_le (hg : g.Sound) {hand hand' : Hand g} {b b' : Board g}
    (hRule : Rule hand b hand' b') (hHand : ∀ i, hand ≠ .ending i) :
    (∀ i, hand' ≠ .ending i) ∧ b'.toStart hand' ≤ b.toStart hand := by
  have hKind := fun l i hi => (hg.body_kind l i hi).2.2
  -- the parts of the measure are compared slot by slot, except where a step, a round or a loop
  -- begins: there one part gets less
  cases hRule with
  | same => exact ⟨by simp, le_rfl⟩
  | promote _ hPending | passOver hPending =>
    refine ⟨by simp, Board.toStart_le_of_slots le_rfl ?_ ?_ ?_⟩
    · grind -linarith [StepStatus.IsUnstarted]
    · grind -linarith [Slot.remaining]
    · grind -linarith [Scheduler.distance]
  | begin hReady => exact ⟨by simp, (Board.toStart_begin rfl hReady).le⟩
  | lastRound hFrame =>
    refine ⟨by simp, Board.toStart_le_of_slots le_rfl ?_ ?_ ?_⟩
    · grind -linarith [StepStatus.IsUnstarted]
    · grind -linarith [Slot.remaining]
    · grind -linarith [Scheduler.distance]
  | nextRound hFrame hSettled hMore =>
    rename_i loop frame iterations
    refine ⟨by simp, (Board.toStart_lt_of_rounds ?_ (Board.rounds_lt (i := loop) ?_ ?_)).le⟩
    · refine Nat.add_le_add (Board.unstarted_le ?_) le_rfl
      grind -linarith [StepStatus.IsUnstarted]
    · grind -linarith [Slot.remaining, Slot.cleared, Scheduler.Frame.remaining]
    · simp [Slot.remaining, hFrame, Scheduler.Frame.remaining]
      omega
  | openLoop hLoop | emptyLoop hLoop =>
    refine ⟨by simp, (Board.toStart_lt_of_unstarted ?_).le⟩
    simp only [Hand.opening, hLoop, if_true]
    refine Nat.lt_succ_of_le (Board.unstarted_le ?_)
    grind -linarith [StepStatus.IsUnstarted]
  | call | crash =>
    refine ⟨by simp, Board.toStart_le_of_slots (by simp [Hand.opening]) ?_ ?_ ?_⟩
    · grind -linarith [StepStatus.IsUnstarted]
    · grind -linarith [Slot.remaining]
    · grind -linarith [Scheduler.distance]
  | complete | activate | failRun =>
    refine ⟨by simp, Board.toStart_le_of_slots (by simp [Hand.opening]) ?_ ?_ ?_⟩
    · grind -linarith [StepStatus.IsUnstarted]
    · grind -linarith [Slot.remaining]
    · grind -linarith [Scheduler.distance]
  | giveUp hStep hOwner =>
    refine ⟨Hand.passTo_ne_ending hHand _, Board.toStart_le_of_slots ?_ ?_ ?_ ?_⟩
    · cases hand <;> simp [Hand.passTo, Hand.opening]
    · grind -linarith [StepStatus.IsUnstarted]
    · grind -linarith [Slot.remaining]
    · grind -linarith [Scheduler.distance]
  | recover | retry => exact absurd rfl (hHand _)

namespace Scheduler

/-- Some moves leave no more to start, unless a call has come to an end. -/
theorem Moves.toStart_le (hg : g.Sound) {hand hand' : Hand g} {s s' : Scheduler g}
    (hMoves : Moves hand s hand' s') (hHand : ∀ i, hand ≠ .ending i) :
    s'.board.toStart hand' ≤ s.board.toStart hand := by
  have hKeep := hMoves.invariant
    (P := fun hand' s' => (∀ i, hand' ≠ .ending i) ∧ s'.board.toStart hand' ≤ s.board.toStart hand)
    (fun _ _ _ _ hMove h =>
      have hLess := (hMove.rule hg).toStart_le hg h.1
      ⟨hLess.1, hLess.2.trans h.2⟩)
    ⟨hHand, le_rfl⟩
  exact hKeep.2

theorem Goes.toStart_le (hg : g.Sound) {hand : Hand g} {s s' : Scheduler g}
    (hGoes : Goes hand s s') (hHand : ∀ i, hand ≠ .ending i) :
    s'.board.toStart .free ≤ s.board.toStart hand := by
  obtain ⟨hand', hMoves, _⟩ := hGoes
  exact (Board.toStart_free_le _ hand').trans (hMoves.toStart_le hg hHand)

theorem unstarted_board (s : Scheduler g) : s.board.unstarted = s.unstartedLoops := by
  refine List.countP_congr fun i _ => ?_
  simp only [Bool.and_eq_true, Bool.or_eq_true, decide_eq_true_eq]
  exact Iff.rfl

theorem closer_iff {next s : Scheduler g} :
    Closer next s ↔ next.board.toStart .free < s.board.toStart .free := by
  simp only [Board.toStart, Prod.Lex.toLex_lt_toLex, Hand.opening, unstarted_board]
  exact closer_def

/-- To start what is ready leaves less to start. -/
theorem startReady_closer (hg : g.Sound) {s : Scheduler g} {i : g.Index}
    (hReady : s.statusOf i = .ready) (hOpen : s.isOver = false) :
    (s.startReady i).board.toStart .free < s.board.toStart .free := by
  have hStart : s.startReady i = s.startStep i := by
    simp [startReady, hReady, hOpen]
  rw [hStart]
  refine ((begin_deals hg s i).goes.toStart_le hg (by simp)).trans_lt ?_
  exact Board.toStart_begin (board_begin s i) hReady

theorem foldl_startReady_closer (hg : g.Sound) {s : Scheduler g} (hOpen : s.isOver = false)
    (hReady : s.readySteps ≠ []) :
    (s.readySteps.foldl startReady s).board.toStart .free < s.board.toStart .free := by
  cases hSteps : s.readySteps with
  | nil => exact absurd hSteps hReady
  | cons i rest =>
    have hi : s.statusOf i = .ready := by
      have hMem : i ∈ s.readySteps := by rw [hSteps]; exact List.mem_cons_self
      exact of_decide_eq_true (List.mem_filter.mp hMem).2
    rw [List.foldl_cons]
    exact ((foldl_startReady_goes hg rest _).toStart_le hg (by simp)).trans_lt
      (startReady_closer hg hi hOpen)

/-! ## Settling ends when nothing changes -/

/-- If no change in a list raises a number, and each makes it less or is refused, then either all
are refused or the number is less in the end. -/
theorem foldl_refused_or_less {change : Scheduler g → g.Index → Scheduler g}
    {refused : Scheduler g → g.Index → Prop} {count : Scheduler g → Nat}
    (hChange : ∀ s i, refused s i ∧ change s i = s ∨ count (change s i) < count s)
    (steps : List g.Index) (s : Scheduler g) :
    ((∀ i ∈ steps, refused s i) ∧ steps.foldl change s = s) ∨
      count (steps.foldl change s) < count s := by
  induction steps generalizing s with
  | nil => exact .inl ⟨by simp, rfl⟩
  | cons i rest ih =>
    rw [List.foldl_cons]
    rcases hChange s i with ⟨hRefused, hSame⟩ | hLess
    · rw [hSame]
      rcases ih s with ⟨hAll, hFold⟩ | hFold
      · left
        exact ⟨List.forall_mem_cons.mpr ⟨hRefused, hAll⟩, hFold⟩
      · exact .inr hFold
    · right
      rcases ih (change s i) with ⟨_, hFold⟩ | hFold
      · rw [hFold]
        exact hLess
      · exact hFold.trans hLess

theorem pendingCount_lt {s s' : Scheduler g} {i : g.Index} {status : StepStatus}
    (hStatus : ∀ j, s'.statusOf j = if i = j then status else s.statusOf j)
    (hPending : s.statusOf i = .pending) (hNow : status ≠ .pending) :
    s'.pendingCount < s.pendingCount := by
  refine countP_lt_countP ?_ (List.mem_finRange i) ?_ ?_
  · intro j hj
    simp only [decide_eq_true_eq] at hj ⊢
    rw [hStatus] at hj
    split at hj
    · exact absurd hj hNow
    · exact hj
  · simpa [hStatus] using hNow
  · simpa using hPending

theorem promote_refused_or_less (s : Scheduler g) (i : g.Index) :
    s.promotion? i = none ∧ s.promote i = s ∨ (s.promote i).pendingCount < s.pendingCount := by
  have hSlot : ∀ (t : Scheduler g) (y : Slot g), t.board = s.board.set i y →
      ∀ j, t.statusOf j = if i = j then y.status else s.statusOf j := by
    intro t y hBoard j
    have hStatus := congrArg (fun b => (b.slot j).status) hBoard
    rw [Board.slot_set] at hStatus
    exact hStatus.trans (apply_ite Slot.status (i = j) y (s.board.slot j))
  unfold promote
  split
  · rename_i hPromotion
    exact .inr (pendingCount_lt (hSlot _ _ (board_setStatus s i .ready))
      (promotion?_some hPromotion).1 (by simp))
  · rename_i hPromotion
    exact .inr (pendingCount_lt (hSlot _ _ (board_skip s i)) (promotion?_some hPromotion).1
      (by simp))
  · exact .inl ⟨‹_›, rfl⟩

/-- Promoting ends when no step can be promoted. -/
theorem promotion?_refreshFrontier (s : Scheduler g) (i : g.Index) :
    s.refreshFrontier.promotion? i = none := by
  induction s using refreshFrontier.induct with
  | case1 s next hFewer ih =>
    rw [refreshFrontier, if_pos hFewer]
    exact ih
  | case2 s next hSame =>
    rw [refreshFrontier, if_neg hSame]
    rcases foldl_refused_or_less promote_refused_or_less g.indices s with ⟨hAll, hFold⟩ | hLess
    · rw [hFold]
      exact hAll i (List.mem_finRange i)
    · exact absurd hLess hSame

/-- Whether the round of a loop is through and can be ended. -/
def RoundOver (s : Scheduler g) (loop : g.Index) : Prop :=
  (∃ f, (s.board.slot loop).frame = some f ∧ f.position < f.items.length) ∧ s.bodySettled loop

/-- A round that is not through stays as it is. -/
theorem closeRound_of_not_over {s : Scheduler g} {loop : g.Index} (h : ¬ s.RoundOver loop) :
    s.closeRound loop = s := by
  unfold closeRound
  split
  · rfl
  · rename_i frame hFrame
    split
    · rfl
    · rename_i item hItem
      have hIn : frame.position < frame.items.length := (List.getElem?_eq_some_iff.mp hItem).1
      rw [if_neg fun hSettled => h ⟨⟨frame, hFrame, hIn⟩, hSettled⟩]

/-- What the end of a round makes of a scheduler. -/
theorem closeRound_of_over {s : Scheduler g} {loop : g.Index} {f : Frame}
    (hFrame : (s.controlOf loop).frame = some f) (hIn : f.position < f.items.length)
    (hSettled : s.bodySettled loop = true) :
    s.closeRound loop =
      if f.position + 1 < f.items.length then
        (s.mapControl loop fun c =>
          { c with frame := some ⟨f.items, f.position + 1, f.iterations ++
            [⟨f.position, f.items[f.position], s.outputsOf (g.body loop)⟩]⟩ }).resetBody loop
      else s.completeLoop loop (f.iterations ++
        [⟨f.position, f.items[f.position], s.outputsOf (g.body loop)⟩]) := by
  unfold closeRound
  simp only [hFrame, List.getElem?_eq_getElem hIn, hSettled, if_true]

/-- Fewer rounds remain when fewer do of one loop and the others are left alone. -/
theorem remainingRounds_lt {s t : Scheduler g} {loop : g.Index} {f : Frame}
    (hFrame : (s.controlOf loop).frame = some f)
    (hLess : (t.board.slot loop).remaining < f.items.length - f.position)
    (hOthers : ∀ i, loop ≠ i → (t.board.slot i).frame = (s.board.slot i).frame) :
    t.remainingRounds < s.remainingRounds := by
  have hBefore : (s.board.slot loop).remaining = f.items.length - f.position := by
    change ((s.controlOf loop).frame.map Frame.remaining).getD 0 = _
    rw [hFrame]
    rfl
  refine Board.rounds_lt (i := loop) (fun i => ?_) (hBefore ▸ hLess)
  by_cases h : loop = i
  · subst h
    exact (hBefore ▸ hLess).le
  · rw [Slot.remaining, hOthers i h]
    exact le_rfl

theorem closeRound_refused_or_less (s : Scheduler g) (loop : g.Index) :
    ¬ s.RoundOver loop ∧ s.closeRound loop = s ∨
      (s.closeRound loop).remainingRounds < s.remainingRounds := by
  by_cases hOver : s.RoundOver loop
  case neg => exact .inl ⟨hOver, closeRound_of_not_over hOver⟩
  right
  obtain ⟨⟨f, hFrame, hIn⟩, hSettled⟩ := hOver
  rw [closeRound_of_over hFrame hIn hSettled]
  split
  · refine remainingRounds_lt hFrame ?_ ?_
    · rw [board_resetBody, board_setFrame]
      simp only [Board.slot_mapBody, Board.slot_set, if_true, Slot.remaining, Slot.cleared]
      split <;> simp [Frame.remaining] <;> omega
    · rw [board_resetBody, board_setFrame]
      grind -linarith [Slot.cleared]
  · refine remainingRounds_lt hFrame ?_ ?_
    · rw [board_completeLoop]
      simp [Slot.remaining]
      omega
    · rw [board_completeLoop]
      grind -linarith

/-- Promotions leave the rounds alone. -/
theorem remainingRounds_refreshFrontier (s : Scheduler g) :
    s.refreshFrontier.remainingRounds = s.remainingRounds := by
  refine refreshFrontier_keeps (P := fun t => t.remainingRounds = s.remainingRounds) ?_ rfl
  intro t i hRounds
  refine Eq.trans ?_ hRounds
  unfold promote
  split <;> rfl

/-- When everything is settled, no step can be promoted and no round can be ended. -/
theorem settle_settled (s : Scheduler g) :
    (∀ i, s.settle.promotion? i = none) ∧ ∀ loop, ¬ s.settle.RoundOver loop := by
  induction s using settle.induct with
  | case1 s next hFewer ih =>
    rw [settle, if_pos hFewer]
    exact ih
  | case2 s next hSame =>
    rw [settle, if_neg hSame]
    rcases foldl_refused_or_less closeRound_refused_or_less g.indices s.refreshFrontier with
      ⟨hAll, hFold⟩ | hLess
    · rw [hFold]
      exact ⟨promotion?_refreshFrontier s, fun loop => hAll loop (List.mem_finRange loop)⟩
    · rw [remainingRounds_refreshFrontier] at hLess
      exact absurd hLess hSame

theorem desk_promote (s : Scheduler g) (i : g.Index) : (s.promote i).board.desk = s.board.desk := by
  unfold promote
  split <;> rfl

theorem desk_closeRound (s : Scheduler g) (loop : g.Index) :
    (s.closeRound loop).board.desk = s.board.desk := by
  by_cases hOver : s.RoundOver loop
  · obtain ⟨⟨f, hFrame, hIn⟩, hSettled⟩ := hOver
    rw [closeRound_of_over hFrame hIn hSettled]
    split
    · rw [board_resetBody, board_setFrame]
      rfl
    · rw [board_completeLoop]
      rfl
  · rw [closeRound_of_not_over hOver]

theorem isOver_settle (s : Scheduler g) : s.settle.isOver = s.isOver := by
  have hDesk : s.settle.board.desk = s.board.desk := by
    refine settle_keeps (P := fun t => t.board.desk = s.board.desk) ?_ ?_ rfl
    · intro t i hSame
      exact (desk_promote t i).trans hSame
    · intro t loop hSame
      exact (desk_closeRound t loop).trans hSame
  exact congrArg (fun d => d.status.isFinal || d.crashed) hDesk

/-- Where a scheduler stops. -/
structure Rested (s : Scheduler g) : Prop where
  promoted : ∀ i, s.promotion? i = none
  rounds : ∀ loop, ¬ s.RoundOver loop
  started : s.paused = true ∨ s.readySteps = []

/-- A sweep that does not come closer to the end has had nothing to start. -/
theorem readySteps_settle_of_not_closer (hg : g.Sound) {s : Scheduler g} (hOpen : s.isOver = false)
    (hNot : ¬ Closer (s.settle.readySteps.foldl startReady s.settle) s) :
    s.settle.readySteps = [] := by
  by_contra hSome
  have hLess := foldl_startReady_closer hg ((isOver_settle s).trans hOpen) hSome
  have hSettle := (settle_moves s).toStart_le hg (by simp)
  exact hNot (closer_iff.mpr (hLess.trans_le hSettle))

/-- A scheduler goes on until it is over or nothing is left to do for it. -/
theorem advance_rested (hg : g.Sound) (s : Scheduler g) : s.advance.isOver = true ∨ s.advance.Rested := by
  obtain ⟨hPromoted, hRounds⟩ := settle_settled s
  induction s using advance_sweeps with
  | ended s hOver hSame =>
    rw [hSame]
    exact .inl hOver
  | paused s _ hPaused hSame =>
    rw [hSame]
    exact .inr ⟨hPromoted, hRounds, .inl hPaused⟩
  | more s _ _ hSame ih =>
    rw [hSame]
    exact ih (settle_settled _).1 (settle_settled _).2
  | last s hOpen _ hNot hSame =>
    have hReady := readySteps_settle_of_not_closer hg hOpen hNot
    rw [hSame, hReady]
    exact .inr ⟨hPromoted, hRounds, .inr hReady⟩

/-- What is written down beside the state of a run does not keep its scheduler going. -/
theorem Rested.note {s : Scheduler g} (h : s.Rested) (requests : List (Request g)) (now : Instant) :
    { s with requests, now }.Rested where
  promoted := h.promoted
  rounds := h.rounds
  started := h.started

theorem handle_rested (hg : g.Sound) (s : Scheduler g) (m : Message g) :
    (Process.handle s m).isOver = true ∨ (Process.handle s m).Rested := by
  cases m with
  | command c => exact advance_rested hg (s.obey c)
  | event e => exact advance_rested hg (s.note e)

theorem conclude_rested {s : Scheduler g} (h : s.Rested) :
    s.conclude.isOver = true ∨ s.conclude.Rested := by
  rcases s.conclude_cases with hSame | ⟨_, hSame⟩ | ⟨_, _, hSame⟩
  · rw [hSame]
    exact .inr h
  · rw [hSame]
    exact .inl rfl
  · rw [hSame]
    exact .inl rfl

end Scheduler

/-- Between two turns a scheduler is over or has nothing left to do. -/
theorem Course.Reaches.rested (hg : g.Sound) {ok : Scheduler g → Prop} {p : Course g}
    (hReach : Course.Reaches ok p) : p.scheduler.isOver = true ∨ p.scheduler.Rested := by
  induction hReach with
  | start runId workflowId workflowName input vars created now stepTimeout hOk =>
    exact (Scheduler.advance_rested hg _).imp_right fun h => h.note [] _
  | turn hBefore hTurn hOk ih =>
    cases hTurn with
    | conclude now hOpen =>
      have hRested := ih.resolve_left (by simp [hOpen])
      exact Scheduler.conclude_rested (hRested.note _ now)
    | read m now hOpen hMore hExpected =>
      exact (Scheduler.handle_rested hg _ m).imp_right fun h => h.note [] _

end Workflow

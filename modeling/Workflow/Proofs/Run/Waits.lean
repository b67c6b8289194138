/-
Workflow.Proofs.Run.Waits — steps that wait for a retry and the retries to come.

A step that waits for a retry is told when it is due, and the message names
the step and nothing else. A wait can come to an end without that message:
when the loop around the step is given up, or when an error handler that
waits is handed another failure. The retry is then still to come, and it
will find the step in another attempt, or waiting again.

A step that is in no body and handles no errors is spared this. It has one
retry to come while it waits for it, and none otherwise.

* `Board.alone_rule` — it begins to wait when it asks for a retry.
* `Course.Reaches.alone` — one retry to come while it waits for it.
-/
import Workflow.Proofs.Run.Requests

namespace Workflow

variable {g : Graph}

namespace Board

variable {hand hand' : Hand g} {b b' : Board g}

/-- A step that is in no body and handles no errors begins to wait exactly when it asks to be told of
a retry. -/
theorem alone_rule (hg : g.Sound) (hRule : Rule hand b hand' b') (hCoherent : b.Coherent hand)
    {i : g.Index} (hOuter : g.owner? i = none) (hKind : g.kindOf i ≠ .errorHandler) :
    b'.timed.count i + (b.slot i).waiting.toNat = b.timed.count i + (b'.slot i).waiting.toNat := by
  have hBody := hg.not_mem_body_of_owner?_eq_none hOuter
  have hInOrder := hCoherent.plain i (hg.not_guards_of_kind hKind)
  have hSame : b'.timed = b.timed → (b'.slot i).waiting = (b.slot i).waiting →
      b'.timed.count i + (b.slot i).waiting.toNat = b.timed.count i + (b'.slot i).waiting.toNat :=
    fun hTimed hWaiting => by rw [hTimed, hWaiting]
  cases hRule with
  | retry =>
    rename_i k error delay
    by_cases h : k = i
    · subst h
      have hIdle : (b.slot k).waiting = false := by
        by_contra hWaits
        have hPending := hInOrder.waiting (by simpa using hWaits)
        rw [(hInOrder.hand rfl).1] at hPending
        cases hPending
      simp [timed, hIdle]
    · simp [timed, h]
  | recover hOwes =>
    have hSlot := hCoherent.slot_recover hg hOwes i
    refine hSame rfl ?_
    clear hCoherent hInOrder
    grind -linarith
  | call => exact hSame (by simp [timed]) (by grind -linarith)
  | giveUp _ hOwner =>
    refine hSame rfl ?_
    clear hCoherent hInOrder
    grind -linarith
  | _ =>
    refine hSame rfl ?_
    clear hCoherent hInOrder
    grind -linarith [Slot.cleared]

theorem waiting_of_due {i : g.Index} (hNotice : Notice b (.event (.retryDue i)) hand b') :
    (b'.slot i).waiting = false := by
  cases hNotice with
  | early hWaiting => exact hWaiting
  | due => simp

theorem waiting_of_other {m : Message g} (hNotice : Notice b m hand b') {i : g.Index}
    (hOther : m ≠ .event (.retryDue i)) : (b'.slot i).waiting = (b.slot i).waiting := by
  cases hNotice <;> grind -linarith

end Board

namespace Course

/-- As many retries of a step are to come as it waits for. -/
def Alone (i : g.Index) (wakes : List g.Index) (s : Scheduler g) : Prop :=
  (wakes ++ s.board.timed).count i = (s.board.slot i).waiting.toNat

section

variable {i : g.Index} {wakes : List g.Index} {s s' : Scheduler g}

theorem Alone.move (hg : g.Sound) (hOuter : g.owner? i = none) (hKind : g.kindOf i ≠ .errorHandler)
    {hand hand' : Hand g} (hMove : Scheduler.Move hand s hand' s') (hCoherent : s.board.Coherent hand)
    (h : Alone i wakes s) : Alone i wakes s' := by
  have hRule := Board.alone_rule hg (hMove.rule hg) hCoherent hOuter hKind
  unfold Alone at h ⊢
  rw [List.count_append] at h ⊢
  omega

theorem count_settle {p : Course g} {m : Message g} (hOther : m ≠ .event (.retryDue i)) :
    (p.settle m).wakes.count i = p.wakes.count i := by
  cases m with
  | command => rfl
  | event e =>
    cases e with
    | finished => rfl
    | retryDue k =>
      have hNe : i ≠ k := fun hSame => hOther (by rw [hSame])
      exact List.count_erase_of_ne hNe

theorem Alone.grant {p : Course g} (h : Alone i p.wakes p.scheduler) :
    Alone i p.grant.wakes p.grant.scheduler := by
  have hTimed : p.grant.scheduler.board.timed = [] := rfl
  have hWakes : p.grant.wakes = p.wakes ++ p.scheduler.board.timed := rfl
  rw [Alone, hTimed, hWakes, List.append_nil]
  exact h

/-- Whoever is told of a retry has no other one to come. -/
theorem Alone.receives {p : Course g} {m : Message g} {hand : Hand g}
    (hReceives : Scheduler.Receives s m hand s') (hNone : s.requests = [])
    (h : Alone i p.wakes s) : Alone i (p.settle m).wakes s' := by
  have hBefore : p.wakes.count i = (s.board.slot i).waiting.toNat := by
    simpa [Alone, Board.timed, Scheduler.board, hNone] using h
  have hRequests : s'.board.timed = [] := by
    have hSame : s'.requests = s.requests := congrArg Prod.fst hReceives.asking
    simp [Board.timed, Scheduler.board, hSame, hNone]
  unfold Alone
  rw [hRequests, List.append_nil]
  by_cases hDue : m = .event (.retryDue i)
  · subst hDue
    have hBound := Bool.toNat_le (s.board.slot i).waiting
    have hErased : (p.settle (.event (.retryDue i))).wakes.count i = p.wakes.count i - 1 :=
      List.count_erase_self
    rw [Board.waiting_of_due hReceives.notice, hErased, hBefore, Bool.toNat_false]
    omega
  · rw [Board.waiting_of_other hReceives.notice hDue, ← hBefore]
    exact count_settle hDue

end

/-- In every run a step that is in no body and handles no errors has one retry to come while it waits
for it, and none otherwise. -/
theorem Reaches.alone (hg : g.Sound) {i : g.Index} (hOuter : g.owner? i = none)
    (hKind : g.kindOf i ≠ .errorHandler) {ok : Scheduler g → Prop} {p : Course g}
    (hReach : Reaches ok p) : p.wakes.count i = (p.scheduler.controlOf i).waiting.toNat := by
  have hAlone : Alone i p.wakes p.scheduler := by
    refine hReach.expecting hg (P := fun _ => Alone i) ?_
      (fun _ _ _ _ _ _ hMove hCoherent h => h.move hg hOuter hKind hMove hCoherent)
      (fun _ _ _ _ _ _ hNone hReceives h => h.receives hReceives hNone) (fun _ h => h.grant)
      (fun _ _ _ _ h => h) ?_
    · intro s hFresh
      have hSlot := Scheduler.slot_enter hg hFresh i
      obtain ⟨_, _, _, _, _, _, _, _, rfl⟩ := hFresh
      rw [Alone, Board.timed, Scheduler.desk_enter, hSlot]
      rfl
    · intro _ wakes s h
      have hTimed : s.conclude.board.timed = s.board.timed :=
        congrArg (List.filterMap Request.wake?) s.requests_conclude
      rw [Alone, hTimed, s.slot_conclude]
      exact h
  have hTimed : p.scheduler.board.timed = [] :=
    congrArg (List.filterMap Request.wake?) hReach.requests_eq
  rw [Alone, hTimed, List.append_nil] at hAlone
  exact hAlone

end Course

end Workflow

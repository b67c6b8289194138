/-
Workflow.Proofs.Run.Accounts — the calls that a scheduler waits for.

A scheduler counts the calls that it has asked for and that have not come
to an end, whether it still waits for them or not. When the count is down
to nothing, it waits for no call.

* `Board.Accounted` — every call that is waited for is among some calls,
  and these have been counted.
* `Course.Reaches.expecting` — an account of what is expected that every
  move and every message keep is right between any two turns.
* `Course.Reaches.accounted` — the calls of a run that have not come to an
  end are such calls.
-/
import Workflow.Proofs.Run.Coherence

namespace Workflow

variable {g : Graph}

namespace Board

/-- The calls among what has been asked for. -/
def placed (b : Board g) : List (g.Index × Nat) := b.desk.requests.filterMap Request.call?

/-- Every call that a step waits for is among these calls or has just been asked for, and the
scheduler has counted them all. -/
structure Accounted (calls : List (g.Index × Nat)) (b : Board g) : Prop where
  expected : ∀ i token, (b.slot i).call = some token → (i, token) ∈ calls ++ b.placed
  counted : b.desk.running = (calls ++ b.placed).length

variable {calls : List (g.Index × Nat)} {b b' : Board g}

/-- Nothing new to wait for. -/
theorem Accounted.of_calls (h : b.Accounted calls) (hPlaced : b'.placed = b.placed)
    (hRunning : b'.desk.running = b.desk.running)
    (hCalls : ∀ i token, (b'.slot i).call = some token → (b.slot i).call = some token) :
    b'.Accounted calls where
  expected i token hCall := hPlaced ▸ h.expected i token (hCalls i token hCall)
  counted := by rw [hRunning, hPlaced, h.counted]

/-- Every move keeps the account of calls. -/
theorem Accounted.rule (hg : g.Sound) {hand hand' : Hand g} (hRule : Rule hand b hand' b')
    (hCoherent : b.Coherent hand) (h : b.Accounted calls) : b'.Accounted calls := by
  cases hRule with
  | call hKind hInput hSafe =>
    rename_i i token invocation limit
    have hPlaced : (b.placeCall i token invocation limit).placed = b.placed ++ [(i, token)] := by
      simp [placed, Request.call?]
    obtain ⟨hExpected, hCounted⟩ := h
    constructor
    · intro j token' hCall
      rw [hPlaced, ← List.append_assoc]
      grind -linarith
    · simp [hPlaced, hCounted, Nat.add_assoc]
  | retry =>
    refine h.of_calls ?_ rfl ?_
    · simp [placed, Request.call?]
    · grind -linarith
  | recover hOwes =>
    have hSlot := hCoherent.slot_recover hg hOwes
    exact h.of_calls rfl rfl (by grind -linarith)
  | _ => exact h.of_calls rfl rfl (by grind -linarith [Slot.cleared])

/-- Taking note of a message that has been expected keeps the account of calls. -/
theorem Accounted.notice {p : Course g} {m : Message g} {hand : Hand g}
    (hNotice : Notice b m hand b') (hExpected : p.Expects m) (hNone : b.desk.requests = [])
    (h : b.Accounted p.calls) : b'.Accounted (p.settle m).calls := by
  obtain ⟨hWaits, hCounted⟩ := h
  have hPlaced : b.placed = [] := by simp [placed, hNone]
  rw [hPlaced, List.append_nil] at hCounted
  simp only [hPlaced, List.append_nil] at hWaits
  have hErase : ∀ i token outcome, m = .event (.finished i token outcome) →
      (p.calls.erase (i, token)).length = p.calls.length - 1 := by
    rintro i token outcome rfl
    exact List.length_erase_of_mem hExpected
  -- the token of a call that has ended is struck off, and no step waits for it any more
  cases hNotice with
  | command hRunning hRequests =>
    constructor <;> simp_all [placed, Course.settle]
  | stale hCall =>
    rename_i i token outcome
    have hLess := hErase i token outcome rfl
    constructor
    · intro j token' hWaited
      refine List.mem_append_left _ ((List.mem_erase_of_ne ?_).mpr (hWaits j token' hWaited))
      rintro ⟨rfl, rfl⟩
      exact hCall hWaited
    · simp [placed, Course.settle, hLess, hNone, hCounted]
  | ended hCall =>
    rename_i i token outcome
    have hLess := hErase i token outcome rfl
    constructor
    · intro j token' hWaited
      have hNe : i ≠ j := by
        rintro rfl
        simp at hWaited
      simp only [slot_set, hNe, if_false, slot_endCall] at hWaited
      refine List.mem_append_left _ ((List.mem_erase_of_ne ?_).mpr (hWaits j token' hWaited))
      simp [Ne.symm hNe]
    · simp [placed, Course.settle, hLess, hNone, hCounted]
  | early => constructor <;> simp_all [placed, Course.settle]
  | due =>
    constructor
    · intro j token' hWaited
      refine List.mem_append_left _ (hWaits j token' ?_)
      grind -linarith
    · simp [placed, Course.settle, hNone, hCounted]

end Board

namespace Course

/-- What has been asked for is granted, and its calls are waited for. -/
theorem accounted_grant {p : Course g} (h : p.scheduler.board.Accounted p.calls) :
    p.grant.scheduler.board.Accounted p.grant.calls := by
  have hPlaced : p.grant.scheduler.board.placed = [] := rfl
  have hCalls : p.grant.calls = p.calls ++ p.scheduler.board.placed := rfl
  constructor
  · rw [hPlaced, hCalls, List.append_nil]
    exact h.expected
  · rw [hPlaced, hCalls, List.append_nil]
    exact h.counted

/-- Between two turns nothing has been asked for that has not been granted. -/
theorem Reaches.requests_eq {ok : Scheduler g → Prop} {p : Course g} (hReach : Reaches ok p) :
    p.scheduler.requests = [] := by
  induction hReach with
  | start => rfl
  | turn _ hTurn _ ih =>
    cases hTurn with
    | conclude now hOpen => exact (Scheduler.requests_conclude _).trans ih
    | read => rfl

section Expected

variable {P : List (g.Index × Nat) → List g.Index → Scheduler g → Prop}

/-- A scheduler may keep account of the calls and the retries that are expected. When every move
keeps the account, and what is asked for is only added to it at the end of a turn and what comes is
taken off it at the beginning, the account is right between any two turns. -/
theorem Reaches.expecting (hg : g.Sound) (hEnter : ∀ s : Scheduler g, s.IsFresh → P [] [] s.enter)
    (hMove : ∀ calls wakes hand s hand' s', Scheduler.Move hand s hand' s' →
      s.board.Coherent hand → P calls wakes s → P calls wakes s')
    (hReceives : ∀ (p : Course g) m hand s s', p.Expects m → s.requests = [] →
      Scheduler.Receives s m hand s' → P p.calls p.wakes s →
        P (p.settle m).calls (p.settle m).wakes s')
    (hGrant : ∀ p : Course g, P p.calls p.wakes p.scheduler →
      P p.grant.calls p.grant.wakes p.grant.scheduler)
    (hNow : ∀ calls wakes s now, P calls wakes s → P calls wakes { s with now })
    (hConclude : ∀ calls wakes (s : Scheduler g), P calls wakes s → P calls wakes s.conclude)
    {ok : Scheduler g → Prop} {p : Course g} (hReach : Reaches ok p) :
    P p.calls p.wakes p.scheduler := by
  induction hReach with
  | start runId workflowId workflowName input vars created now stepTimeout hOk =>
    have hFresh : ({ Scheduler.initial (RunState.initial g runId workflowId workflowName input vars
        created) stepTimeout with now } : Scheduler g).IsFresh :=
      ⟨runId, workflowId, workflowName, input, vars, created, stepTimeout, now, rfl⟩
    obtain ⟨hand, hMoves, _⟩ := Scheduler.advance_goes hg (Scheduler.enter _)
    exact hGrant _ (hMoves.coherent_invariant hg (P := fun _ => P [] []) (hMove [] [])
      (Scheduler.coherent_enter hg hFresh) (hEnter _ hFresh)).2
  | turn hBefore hTurn hOk ih =>
    cases hTurn with
    | conclude now hOpen => exact hConclude _ _ _ (hNow _ _ _ now ih)
    | read m now hOpen hMore hExpected =>
      rename_i p
      obtain ⟨hand, s, hReceive, _, hMoves, _⟩ := read_goes hg hOpen m now
      have hNoted := hReceives p m hand { p.scheduler with now } s hExpected hBefore.requests_eq
        hReceive (hNow _ _ _ now ih)
      have hCoherent := Board.Coherent.notice hg hReceive.notice (hBefore.coherent_free hg hOpen)
      exact hGrant { p.settle m with scheduler := _ } (hMoves.coherent_invariant hg
        (P := fun _ => P (p.settle m).calls (p.settle m).wakes) (hMove _ _) hCoherent hNoted).2

end Expected

/-- Between two turns nothing has been asked for that has not been granted, and the calls that have
not come to an end are those that the scheduler has counted. -/
theorem Reaches.accounted (hg : g.Sound) {ok : Scheduler g → Prop} {p : Course g}
    (hReach : Reaches ok p) :
    p.scheduler.requests = [] ∧ p.scheduler.board.Accounted p.calls := by
  refine ⟨hReach.requests_eq, hReach.expecting hg (P := fun calls _ s => s.board.Accounted calls)
    ?_ ?_ ?_ (fun _ h => accounted_grant h) (fun _ _ _ _ h => h) ?_⟩
  · intro s hFresh
    constructor
    · intro i token hCall
      rw [Scheduler.slot_enter hg hFresh] at hCall
      cases hCall
    · obtain ⟨_, _, _, _, _, _, _, _, rfl⟩ := hFresh
      rw [Board.placed, Scheduler.desk_enter]
      rfl
  · exact fun _ _ _ _ _ _ hMove hCoherent h => h.rule hg (hMove.rule hg) hCoherent
  · exact fun _ _ _ _ _ hExpected hNone hReceive h => h.notice hReceive.notice hExpected hNone
  · intro calls _ s h
    have hRunning : s.conclude.running = s.running :=
      Scheduler.conclude_keeps (fun s => s.running) (fun _ _ => rfl) (fun _ _ _ => rfl) s
    refine h.of_calls (congrArg (List.filterMap Request.call?) s.requests_conclude) hRunning ?_
    intro i token hCall
    exact (congrArg Slot.call (congrFun s.slot_conclude i)).symm.trans hCall

end Course

end Workflow

/-
Workflow.Proofs.Engine.Lasting — what lasts as a run goes on.

However a run goes on, it is known by the same id. And its scheduler comes
to its end only when the run is over, unless it is lost.

* `Scheduler.Move.runId_eq`, `Process.Steps.runId_eq` — the id of a run.
* `Process.Reached.final_of_ended` — the run of a scheduler at its end.
-/
import Workflow.Proofs.Engine.Ending

namespace Workflow

namespace Scheduler

variable {g : Graph} {hand hand' : Hand g} {s s' : Scheduler g}

/-! ## Moves -/

/-- No move changes the id of the run. -/
theorem Move.runId_eq (hMove : Move hand s hand' s') : s'.state.runId = s.state.runId := by
  rcases hMove.shell_cases with ⟨_, _, _, _, hKept⟩ | ⟨_, _, hFails⟩
  · exact congrArg Shell.runId hKept
  · exact congrArg Shell.runId hFails

theorem Goes.runId_eq (h : Goes hand s s') : s'.state.runId = s.state.runId := by
  obtain ⟨_, hMoves, -⟩ := h
  exact hMoves.invariant (P := fun _ t => t.state.runId = s.state.runId)
    (fun _ _ _ _ hMove hSame => hMove.runId_eq.trans hSame) rfl

theorem runId_launch (hg : g.Sound) (s : Scheduler g) :
    s.launch.state.runId = s.state.runId := by
  exact (advance_goes hg s.enter).runId_eq.trans (congrArg Shell.runId s.shell_enter)

theorem runId_handle (hg : g.Sound) (hOpen : s.state.isFinal = false) (m : Message g) :
    (Process.handle s m).state.runId = s.state.runId := by
  obtain ⟨_, t, hReceives, hGoes⟩ := handle_goes hg hOpen m
  refine hGoes.runId_eq.trans ?_
  cases hReceives with
  | command =>
    rename_i c
    cases c with
    | pause =>
      unfold obey
      dsimp only
      split <;> rfl
    | resume =>
      unfold obey
      dsimp only
      split <;> rfl
    | stop => rfl
  | _ => rfl

theorem runId_conclude (s : Scheduler g) : s.conclude.state.runId = s.state.runId := by
  rcases s.conclude_cases with hSame | ⟨-, hDone⟩ | ⟨-, -, hFails⟩
  · rw [hSame]
  · rw [hDone]
    rfl
  · rw [hFails]
    rfl

end Scheduler

namespace Process

/-! ## Steps -/

/-- Whose run it is, and where its scheduler stands. -/
def mark (p : Process) : String × Phase := (p.runId, p.phase)

variable {p q : Process}

theorem Alike.mark (h : p.Alike q) : q.mark = p.mark := by
  cases h
  rfl

/-- When a scheduler has gone on it is where it was, or it is lost. -/
theorem mark_follow (p : Process) (time : Nat) :
    (p.follow time).mark = p.mark ∨ (p.follow time).mark = (p.runId, .lost) := by
  unfold follow
  split
  · exact .inr rfl
  · exact .inl rfl

theorem runId_follow (p : Process) (time : Nat) : (p.follow time).runId = p.runId := by
  rcases mark_follow p time with hMark | hMark <;> exact congrArg Prod.fst hMark

variable {g : Graph} {limit : Nat}

/-- What a step does to the id of a run and to where its scheduler stands: it keeps the id, and only a
run that is over takes its scheduler to its end. -/
theorem Step.mark_cases (hg : g.Sound) (h : Reached g limit p) (hStep : Step p q) :
    q.runId = p.runId ∧ (q.phase = .ended → p.phase = .ended ∨ p.isFinal = true) := by
  have hSame : q.mark = p.mark →
      q.runId = p.runId ∧ (q.phase = .ended → p.phase = .ended ∨ p.isFinal = true) := by
    intro hMark
    obtain ⟨hId, hPhase⟩ := Prod.mk.inj hMark
    exact ⟨hId, fun hEnded => .inl (hPhase ▸ hEnded)⟩
  -- a scheduler that has gone on is live or lost
  have hFollow : ∀ (r : Process) (time : Nat), r.runId = p.runId → r.phase = .live →
      (r.follow time).runId = p.runId ∧
        ((r.follow time).phase = .ended → p.phase = .ended ∨ p.isFinal = true) := by
    intro r time hId hLive
    refine ⟨(runId_follow r time).trans hId, fun hEnded => ?_⟩
    rcases mark_follow r time with hMark | hMark
    · rw [show (r.follow time).phase = r.phase from congrArg Prod.snd hMark, hLive] at hEnded
      cases hEnded
    · rw [show (r.follow time).phase = .lost from congrArg Prod.snd hMark] at hEnded
      cases hEnded
  obtain rfl := h.graph_eq
  cases hStep.proceeds with
  | beside hAlike => exact hSame hAlike.mark
  | launch now time => exact hFollow (p.launch now) time (Scheduler.runId_launch hg _) rfl
  | conclude now => exact hSame (Prod.ext (Scheduler.runId_conclude _) rfl)
  | read now time hLive hOpen hInbox =>
    rw [readMessage_of_inbox hInbox]
    refine hFollow _ time ?_ hLive
    exact Scheduler.runId_handle hg (s := { p.scheduler with now }) hOpen _
  | close hFinal => exact ⟨rfl, fun _ => .inr hFinal⟩
  | lose => exact ⟨rfl, nofun⟩
  | inform => exact hSame rfl

/-- A run keeps its id. -/
theorem Steps.runId_eq (hg : g.Sound) (h : Reached g limit p) (hSteps : Steps p q) :
    q.runId = p.runId := by
  induction hSteps with
  | refl => rfl
  | tail hBefore hStep ih => exact (hStep.mark_cases hg (h.steps hBefore)).1.trans ih

/-- When a scheduler has come to its end, its run is over. -/
theorem Reached.final_of_ended (hg : g.Sound) (h : Reached g limit p) (hEnded : p.phase = .ended) :
    p.isFinal = true := by
  induction h with
  | start => cases hEnded
  | step hBefore hStep ih =>
    have hFinal := ((hStep.mark_cases hg hBefore).2 hEnded).elim ih id
    exact (hBefore.windsUp hg hFinal (.single hStep)).final

end Process

end Workflow

/-
Workflow.Proofs.Engine.Ending — after the end of a run.

What a run has come to at its end is not touched any more: calls that are
under way come to an end, and nobody looks at what they give. But a worker
that has not made its call by then is not called off. It goes on to ask
for a permit, or waits for one, and makes its call when it has got it.

* `Process.WindsUp`, `Step.windsUp` — what a step after the end keeps.
* `Reached.comesToCall` — every worker can come to its call.
* `Process.entered_after_end_iff` — the calls that are made after the end.
* `Process.entered_after_stop` — a call is made after a run was stopped.
-/
import Workflow.Proofs.Engine.Permits
import Workflow.Proofs.Engine.Replay

namespace Workflow

namespace Process

variable {p q : Process} {token : Nat}

/-- A later stand of a run that is over: it has come to the same, and whoever has not made its call
was there before. -/
structure WindsUp (p q : Process) : Prop where
  final : q.isFinal = true
  begun : q.phase ≠ .fresh
  same : ∀ now, q.snapshot now = p.snapshot now
  uncalled : ∀ w ∈ q.workers, w.stage.call? = none →
    ∃ v ∈ p.workers, v.token = w.token ∧ v.limit = w.limit ∧ v.stage.call? = none

theorem WindsUp.trans {r : Process} (h : p.WindsUp q) (hNext : q.WindsUp r) : p.WindsUp r where
  final := hNext.final
  begun := hNext.begun
  same now := (hNext.same now).trans (h.same now)
  uncalled w hw hOpen := by
    obtain ⟨v, hv, hToken, hLimit, hBefore⟩ := hNext.uncalled w hw hOpen
    obtain ⟨u, hu, hToken', hLimit', hFirst⟩ := h.uncalled v hv hBefore
    exact ⟨u, hu, hToken'.trans hToken, hLimit'.trans hLimit, hFirst⟩

/-! ## What a step after the end keeps -/

section Workers

variable {g : Graph} {workers : List (Worker g)}

/-- Whoever has not made its call after somebody's stage was set had not made it before, unless a
call was under way there. -/
theorem uncalled_restage {stage : Stage} {w : Worker g} (hw : w ∈ restage workers token stage)
    (hOpen : w.stage.call? = none)
    (hBefore : ∀ v ∈ workers, v.token = token → stage.call? = none → v.stage.call? = none) :
    ∃ v ∈ workers, v.token = w.token ∧ v.limit = w.limit ∧ v.stage.call? = none := by
  obtain ⟨v, hv, rfl⟩ := mem_restage.mp hw
  by_cases hSame : v.token = token
  · rw [if_pos hSame] at hOpen ⊢
    exact ⟨v, hv, rfl, rfl, hBefore v hv hSame hOpen⟩
  · rw [if_neg hSame] at hOpen ⊢
    exact ⟨v, hv, rfl, rfl, hOpen⟩

end Workers

section

variable (hFinal : p.isFinal = true) (hBegun : p.phase ≠ .fresh)

include hFinal

/-- A change of anything but the scheduler and the workers. -/
theorem windsUp_of_rest (phase : Phase) (hBegun : phase ≠ .fresh) (inbox : List (Message p.graph))
    (free : Nat) (line : List Nat) (retries : List (p.graph.Index × Nat)) (published : Snapshot)
    (known : Bool) :
    p.WindsUp { p with phase, inbox, free, line, retries, published, known } :=
  ⟨hFinal, hBegun, fun _ => rfl, fun w hw hOpen => ⟨w, hw, rfl, rfl, hOpen⟩⟩

include hBegun

theorem windsUp_setStage {stage : Stage}
    (hBefore : ∀ v ∈ p.workers, v.token = token → stage.call? = none → v.stage.call? = none) :
    p.WindsUp (p.setStage token stage) :=
  ⟨hFinal, hBegun, fun _ => rfl, fun _ hw hOpen => uncalled_restage hw hOpen hBefore⟩

theorem windsUp_send (m : Message p.graph) : p.WindsUp (p.send m) := by
  obtain ⟨inbox, hSend⟩ := p.exists_send_eq m
  exact hSend ▸ windsUp_of_rest hFinal p.phase hBegun inbox _ _ _ _ _

/-- The one that gets the permit stood in line. -/
theorem windsUp_release (hLine : ∀ v ∈ p.workers, v.token ∈ p.line → v.stage.call? = none) :
    p.WindsUp p.release.1 := by
  rcases hSome : p.line with _ | ⟨first, rest⟩
  · rw [release_of_nil hSome]
    exact windsUp_of_rest hFinal p.phase hBegun _ _ _ _ _ _
  · rw [release_of_cons hSome]
    refine ⟨hFinal, hBegun, fun _ => rfl, fun _ hw hOpen =>
      uncalled_restage hw hOpen fun v hv hFirst _ => hLine v hv ?_⟩
    rw [hSome, hFirst]
    exact List.mem_cons_self ..

end

theorem Leaves.windsUp {limit : Nat} (hTokens : (p.workers.map Worker.token).Nodup)
    (hShared : p.IsShared limit) (hFinal : p.isFinal = true) (hBegun : p.phase ≠ .fresh)
    (hLeaves : p.Leaves q) : p.WindsUp q := by
  cases hLeaves with
  | intro hw hPermit inbox =>
    rename_i k
    have hGone : p.WindsUp { p with workers := without p.workers k.token, inbox } :=
      ⟨hFinal, hBegun, fun _ => rfl, fun w hw hOpen =>
        ⟨w, (mem_without.mp hw).1, rfl, rfl, hOpen⟩⟩
    -- whoever gets the permit comes from the line, and nobody there has made its call
    refine hGone.trans (windsUp_release hGone.final hGone.begun fun v hv hIn => ?_)
    rw [(hShared.mem_line hTokens (mem_without.mp hv).1).mp hIn]
    rfl

/-- After the end a step starts no worker and does not touch what the run has come to. -/
theorem Step.windsUp {limit : Nat} (hTokens : (p.workers.map Worker.token).Nodup)
    (hShared : p.IsShared limit) (hFinal : p.isFinal = true) (hBegun : p.phase ≠ .fresh)
    (hStep : p.Step q) : p.WindsUp q := by
  have hOver : p.isFinal ≠ false := by simp [hFinal]
  -- the scheduler goes on only while the run is not over; what is left are workers and messages
  cases hStep with
  | command c => exact windsUp_send hFinal hBegun _
  | launch now time hFresh => exact absurd hFresh hBegun
  | conclude now hLive hOpen => exact absurd hOpen hOver
  | read now time hLive hOpen => exact absurd hOpen hOver
  | close => exact windsUp_of_rest hFinal .ended nofun p.inbox _ _ _ _ _
  | lose => exact windsUp_of_rest hFinal .lost nofun p.inbox _ _ _ _ _
  | inform published known => exact windsUp_of_rest hFinal p.phase hBegun _ _ _ _ _ _
  | retry step now =>
    obtain ⟨inbox, retries, hDeliver⟩ := p.exists_deliverRetry_eq step now
    exact hDeliver ▸ windsUp_of_rest hFinal p.phase hBegun inbox _ _ retries _ _
  | acquire hWorker hStage =>
    obtain ⟨hw, rfl⟩ := mem_of_worker? hWorker
    obtain ⟨free, line, stage, hAcquire, -⟩ := p.exists_acquire_eq _
    rw [hAcquire]
    refine ⟨hFinal, hBegun, fun _ => rfl, fun _ hv hOpen =>
      uncalled_restage hv hOpen fun v hv hSame _ => ?_⟩
    rw [eq_of_token hTokens hv hw hSame, hStage]
    rfl
  | enter hEnters =>
    cases hEnters
    exact windsUp_setStage hFinal hBegun fun _ _ _ hOpen => by cases hOpen
  | giveUp hWorker hStage => exact (leaves_giveUp hWorker hStage).windsUp hTokens hShared hFinal hBegun
  | goOn hWorker hOpen hStage =>
    exact windsUp_setStage hFinal hBegun fun _ _ _ hNone => by rw [hStage] at hNone; cases hNone
  | finish outcome hWorker hOpen =>
    exact (leaves_finish hWorker hOpen outcome).windsUp hTokens hShared hFinal hBegun

theorem Reached.begun {g : Graph} {limit : Nat} (h : Reached g limit p) (hFinal : p.isFinal = true) :
    p.phase ≠ .fresh := by
  intro hFresh
  cases h.tracked with
  | fresh _ hStart =>
    obtain ⟨_, _, _, _, _, _, _, hStart⟩ := hStart
    rw [isFinal, hStart] at hFinal
    cases hFinal
  | begun hBegun => exact hBegun hFresh

/-- However a run that is over goes on, nothing is added to it. -/
theorem Reached.windsUp {g : Graph} (hg : g.Sound) {limit : Nat} (h : Reached g limit p)
    (hFinal : p.isFinal = true) (hSteps : Steps p q) : p.WindsUp q := by
  induction hSteps with
  | refl =>
    exact ⟨hFinal, h.begun hFinal, fun _ => rfl, fun w hw hOpen => ⟨w, hw, rfl, rfl, hOpen⟩⟩
  | tail hBefore hStep ih =>
    have hReach := h.steps hBefore
    exact ih.trans (hStep.windsUp (hReach.tokens hg) (hReach.shared hg) ih.final ih.begun)

/-! ## Calls after the end -/

theorem enters_of_admitted (hTokens : (p.workers.map Worker.token).Nodup) {w : Worker p.graph}
    (hw : w ∈ p.workers) (hStage : w.stage = .admitted) (hLimit : w.CanCall) :
    ∃ q, p.Enters w.token q :=
  ⟨p.setStage w.token (.asleep 0 ⟨false, .panic, none⟩),
    .intro (worker?_of_mem hTokens hw) hStage hLimit⟩

/-- A worker that has not made its call can come to it: it asks for a permit, waits for it and gets
it. -/
theorem Reached.comesToCall {g : Graph} (hg : g.Sound) {limit : Nat} (h : Reached g limit p)
    {w : Worker p.graph} (hw : w ∈ p.workers) (hOpen : w.stage.call? = none) (hLimit : w.CanCall) :
    ∃ q r, Steps p q ∧ Enters w.token q r := by
  -- used twice: a worker that asks for a permit may have to take its place in the line
  have hWaits : ∀ {p : Process}, Reached g limit p → ∀ w ∈ p.workers, w.stage = .inLine →
      w.CanCall → ∃ q r, Steps p q ∧ Enters w.token q r := by
    intro p h w hw hStage hLimit
    obtain ⟨q, hSteps, v, hv, hToken, hSame, hAdmitted⟩ := h.admits hg hw hStage
    have hLimit' : v.CanCall := by
      unfold Worker.CanCall
      rw [hSame]
      exact hLimit
    obtain ⟨r, hEnters⟩ := enters_of_admitted ((h.steps hSteps).tokens hg) hv hAdmitted hLimit'
    exact ⟨q, r, hSteps, hToken ▸ hEnters⟩
  cases hStage : w.stage with
  | asleep | atGate | passing => simp [hStage, Stage.call?] at hOpen
  | admitted =>
    obtain ⟨r, hEnters⟩ := enters_of_admitted (h.tokens hg) hw hStage hLimit
    exact ⟨p, r, .refl, hEnters⟩
  | inLine => exact hWaits h w hw hStage hLimit
  | fresh =>
    have hStep : p.Step (p.acquire w.token) := .acquire (worker?_of_mem (h.tokens hg) hw) hStage
    have hAsked := h.step hStep
    obtain ⟨free, line, stage, hAcquire, hStage'⟩ := p.exists_acquire_eq w.token
    rw [hAcquire] at hStep hAsked
    rcases hStage' with rfl | rfl
    · obtain ⟨r, hEnters⟩ := enters_of_admitted (hAsked.tokens hg) (w := { w with stage := .admitted })
        (mem_restage.mpr ⟨w, hw, (if_pos rfl).symm⟩) rfl hLimit
      exact ⟨_, r, .single hStep, hEnters⟩
    · obtain ⟨q, r, hSteps, hEnters⟩ := hWaits hAsked { w with stage := .inLine }
        (mem_restage.mpr ⟨w, hw, (if_pos rfl).symm⟩) rfl hLimit
      exact ⟨q, r, hSteps.head hStep, hEnters⟩

/-- Once a run is over, however it goes on, what it has come to stays. Exactly the workers that have
not made their calls by then may still make them, unless their limits are beyond what a clock can
tell. -/
theorem entered_after_end_iff {allowOrphans : Bool} {steps : List Workflow.Step} {g : Graph}
    (hCompile : Graph.compile allowOrphans steps = .ok g) {limit : Nat} (h : Reached g limit p)
    (hFinal : p.isFinal = true) :
    (∀ q, Steps p q → q.isFinal = true ∧ ∀ now, q.snapshot now = p.snapshot now) ∧
      ∀ token, (∃ q r, Steps p q ∧ Enters token q r) ↔
        ∃ w, p.worker? token = some w ∧ w.stage.call? = none ∧ w.CanCall := by
  have hg := Graph.sound_of_compile hCompile
  refine ⟨fun q hSteps => ?_, fun token => ⟨?_, ?_⟩⟩
  · have hAfter := h.windsUp hg hFinal hSteps
    exact ⟨hAfter.final, hAfter.same⟩
  · rintro ⟨q, r, hSteps, hEnters⟩
    cases hEnters with
    | intro hWorker hStage hLimit =>
      obtain ⟨hw, rfl⟩ := mem_of_worker? hWorker
      obtain ⟨v, hv, hToken, hSame, hOpen⟩ :=
        (h.windsUp hg hFinal hSteps).uncalled _ hw (by rw [hStage]; rfl)
      refine ⟨v, hToken ▸ worker?_of_mem (h.tokens hg) hv, hOpen, ?_⟩
      unfold Worker.CanCall
      rw [hSame]
      exact hLimit
  · rintro ⟨w, hWorker, hOpen, hLimit⟩
    obtain ⟨hw, rfl⟩ := mem_of_worker? hWorker
    exact h.comesToCall hg hw hOpen hLimit

/-- Two actions side by side. -/
def sideBySide : List Workflow.Step :=
  [.plain "start" .start [], .plain "a" .action ["start"], .plain "b" .action ["start"],
    .plain "end" .finish ["a", "b"]]

/-- If both calls have been made when the run is stopped, no call is made any more. -/
theorem quiet_after_stop : ∃ g p, Graph.compile false sideBySide = .ok g ∧ Reached g 2 p ∧
    p.isFinal = true ∧ (∀ q, Steps p q → q.isFinal = true ∧ ∀ now, q.snapshot now = p.snapshot now) ∧
      ∀ token q r, Steps p q → ¬ Enters token q r := by
  have hExhibits : exhibits sideBySide 2 [.launch, .acquire 1, .enter 1, .acquire 2, .enter 2,
      .command .stop, .read] (fun p => p.isFinal = true ∧
        ∀ w ∈ p.workers, w.stage.call? ≠ none) = true := by
    decide +kernel
  obtain ⟨g, p, hCompile, hReach, hFinal, hCalled⟩ := exists_of_exhibits hExhibits
  obtain ⟨hStays, hEntered⟩ := entered_after_end_iff hCompile hReach hFinal
  refine ⟨g, p, hCompile, hReach, hFinal, hStays, fun token q r hSteps hEnters => ?_⟩
  obtain ⟨w, hWorker, hOpen, -⟩ := (hEntered token).mp ⟨q, r, hSteps, hEnters⟩
  exact hCalled w (mem_of_worker? hWorker).1 hOpen

/-- If one of the calls waits for a permit when the run is stopped, it is made all the same. -/
theorem entered_after_stop : ∃ g p q r, Graph.compile false sideBySide = .ok g ∧ Reached g 1 p ∧
    p.isFinal = true ∧ Steps p q ∧ Enters 2 q r := by
  have hExhibits : exhibits sideBySide 1 [.launch, .acquire 1, .enter 1, .acquire 2,
      .command .stop, .read] (fun p => p.isFinal = true ∧ ((p.acts? [.finish 1 (.ok [])]).any
        fun q => (q.act? Script.rounds (.enter 2)).isSome) = true) = true := by
    decide +kernel
  obtain ⟨g, p, hCompile, hReach, hFinal, hLater⟩ := exists_of_exhibits hExhibits
  obtain ⟨q, hActs, hSome⟩ := (Option.any_eq_true _ _).mp hLater
  obtain ⟨r, hAct⟩ := Option.isSome_iff_exists.mp hSome
  exact ⟨g, p, q, r, hCompile, hReach, hFinal, steps_of_acts? hActs, enters_of_act? hAct⟩

end Process

end Workflow

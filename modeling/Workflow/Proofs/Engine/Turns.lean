/-
Workflow.Proofs.Engine.Turns — the runs of a world go on step by step.

A world takes its runs in turn, and lets each go on as far as it can. All
that happens to a run in this way is steps of a run in progress, each at
the time that the clock shows: whatever its order, a world takes a run only
to what the run can come to by itself. Readers are shown runs as they
stand, and no retry comes before it is due.

* `World.Evolves` — from one world to another, all runs go on by steps, and
  the clock stands still.
* `World.front` — what readers and the archive see of a world.
* `World.Beside` — nothing has happened but beside the schedulers.
* `World.TakesIn` — a relation between worlds that takes in whatever
  schedulers do.
* `World.turn?_evolves`, `command_evolves`, `openGate_evolves` — whatever a
  world does at a time, its runs go on by steps.
* `World.Unfolds` — the same, and the clock goes on too.
* `World.advance_unfolds`, `runUntil_unfolds` — as time goes by.
* `Service.send_evolves`, `wait_unfolds`, `shutdown_evolves` — the same for
  what a service does.
-/
import Workflow.Engine.Service
import Workflow.Proofs.Engine.Process

namespace Workflow

namespace Process

theorem worker?_setStage {p : Process} {token : Nat} {k : Worker p.graph}
    (h : p.worker? token = some k) (stage : Stage) :
    (p.setStage token stage).worker? token = some { k with stage } := by
  have hToken : k.token = token := by simpa using List.find?_some h
  have hKept : ((fun w : Worker p.graph => decide (w.token = token)) ∘ fun w =>
      if w.token = token then { w with stage } else w) = fun w => decide (w.token = token) := by
    funext w
    dsimp only [Function.comp]
    split <;> rfl
  unfold Process.worker? at h
  unfold Process.worker? Process.setStage
  rw [List.find?_map, hKept, h]
  simp [hToken]

variable {p q : Process}

/-- What a service shows of a run. -/
def face (p : Process) : Snapshot × Bool := (p.published, p.known)

theorem Alike.face (h : p.Alike q) : q.face = p.face := by
  cases h
  rfl

theorem face_follow (p : Process) (time : Nat) : (p.follow time).face = p.face := by
  unfold follow
  split <;> rfl

theorem phase_follow_ne_ended {p : Process} (h : p.phase ≠ .ended) (time : Nat) :
    (p.follow time).phase ≠ .ended := by
  unfold follow
  split
  · nofun
  · exact h

theorem face_readMessage (p : Process) (now : Instant) : (p.readMessage now).face = p.face := by
  unfold readMessage
  split <;> rfl

end Process

namespace World

/-- What the runs of a world depend on. -/
def scene (w : World) : Instant × Nat × List Process := (w.epoch, w.now, w.processes)

/-- At one time the runs of a world have gone on by steps, and none has begun. -/
structure Evolves (w w' : World) : Prop where
  epoch : w'.epoch = w.epoch
  now : w'.now = w.now
  count : w'.processes.length = w.processes.length
  goOn : ∀ (run : Nat) (p : Process), w.processes[run]? = some p →
    ∃ q, w'.processes[run]? = some q ∧
      Relation.ReflTransGen (Process.StepAt w.instant w.now) p q

variable {w w' : World} {run token : Nat}

theorem Evolves.trans {w'' : World} (h : w.Evolves w') (hNext : w'.Evolves w'') :
    w.Evolves w'' where
  epoch := hNext.epoch.trans h.epoch
  now := hNext.now.trans h.now
  count := hNext.count.trans h.count
  goOn run p hp := by
    obtain ⟨q, hq, hSteps⟩ := h.goOn run p hp
    obtain ⟨r, hr, hMore⟩ := hNext.goOn run q hq
    rw [instant, h.epoch, h.now] at hMore
    exact ⟨r, hr, hSteps.trans hMore⟩

theorem processes_of_scene (h : w'.scene = w.scene) : w'.processes = w.processes :=
  congrArg (fun x => x.2.2) h

theorem evolves_of_eq (h : w'.scene = w.scene) : w.Evolves w' := by
  obtain ⟨hEpoch, hNow, hProcesses⟩ : w'.epoch = w.epoch ∧ w'.now = w.now ∧
      w'.processes = w.processes := by simpa [scene] using h
  exact ⟨hEpoch, hNow, congrArg List.length hProcesses, fun _ p hp => ⟨p, hProcesses ▸ hp, .refl⟩⟩

theorem Evolves.of_eq {w'' : World} (h : w.Evolves w') (hSame : w''.scene = w'.scene) :
    w.Evolves w'' :=
  h.trans (evolves_of_eq hSame)

/-! ## What changes a run -/

theorem getElem?_update (w : World) (run : Nat) (f : Process → Process) :
    (w.update run f).processes[run]? = w.processes[run]?.map f := by
  simp [update]

theorem evolves_update {f : Process → Process}
    (h : ∀ p, w.processes[run]? = some p →
      Relation.ReflTransGen (Process.StepAt w.instant w.now) p (f p)) :
    w.Evolves (w.update run f) := by
  refine ⟨rfl, rfl, List.length_modify .., fun other p hp => ?_⟩
  by_cases hSame : run = other
  · subst hSame
    exact ⟨f p, by rw [getElem?_update, hp]; rfl, h p hp⟩
  · refine ⟨p, ?_, .refl⟩
    simpa [update, List.getElem?_modify, hSame] using hp

theorem evolves_step {p : Process} (hp : w.processes[run]? = some p) {f : Process → Process}
    (hStep : p.StepAt w.instant w.now (f p)) : w.Evolves (w.update run f) := by
  refine evolves_update fun q hq => ?_
  obtain rfl : p = q := Option.some.inj (hp.symm.trans hq)
  exact .single hStep

/-- What a run is replaced by may be computed from it. -/
theorem update_replace {p : Process} (hp : w.processes[run]? = some p) (f : Process → Process) :
    (w.update run fun _ => f p) = w.update run f := by
  have hProcesses : w.processes.modify run (fun _ => f p) = w.processes.modify run f := by
    refine List.ext_getElem? fun other => ?_
    rw [List.getElem?_modify, List.getElem?_modify]
    by_cases hSame : run = other
    · subst hSame
      rw [hp]
      rfl
    · simp [hSame]
  rw [update, update, hProcesses]

theorem update_update (w : World) (run : Nat) (f f' : Process → Process) :
    (w.update run f).update run f' = w.update run fun p => f' (f p) := by
  simp only [update, List.modify_modify_eq]
  rfl

theorem update_none (h : w.processes[run]? = none) (f : Process → Process) :
    w.update run f = w := by
  rw [update, List.modify_eq_self (List.getElem?_eq_none_iff.mp h)]

/-- Equal runs at one time change alike. -/
theorem scene_update (h : w'.scene = w.scene) (run : Nat) (f : Process → Process) :
    (w'.update run f).scene = (w.update run f).scene := by
  simp only [scene, Prod.mk.injEq] at h
  simp only [scene, update, h.1, h.2.1, h.2.2]

@[simp] theorem scene_wake (w : World) (run : Nat) (job : Process.Job) :
    (w.wake run job).scene = w.scene := by
  unfold wake
  split <;> rfl

@[simp] theorem scene_wakeScheduler (w : World) (run : Nat) :
    (w.wakeScheduler run).scene = w.scene := by
  unfold wakeScheduler
  split
  · exact scene_wake w run .scheduler
  · rfl

/-- To put jobs into the queue, one after another, changes no run. -/
theorem scene_foldl_wake {α : Type} (task : α → Task) (xs : List α) (w : World) :
    (xs.foldl (fun w x => w.wake (task x).run (task x).job) w).scene = w.scene := by
  induction xs generalizing w with
  | nil => rfl
  | cons x xs ih => rw [List.foldl_cons, ih, scene_wake]

theorem scene_release (w : World) (run : Nat) :
    (w.release run).scene = (w.update run fun p => p.release.1).scene := by
  unfold release
  split
  · rename_i hNone
    rw [update_none hNone]
  · rename_i p hp
    dsimp only
    rw [← update_replace hp fun p => p.release.1]
    cases p.release.2 with
    | none => rfl
    | some token => exact scene_wake _ run _

/-! ## Workers -/

theorem scene_endCall (w : World) (run token : Nat) (outcome : Outcome) :
    (w.endCall run token outcome).scene =
      (w.update run fun p => (p.endCall token outcome).release.1).scene := by
  unfold endCall
  rw [scene_release, scene_update (scene_wakeScheduler _ _), update_update]
  rfl

/-- A worker of a run stands at a stage of some kind. -/
def HasWorker (w : World) (run token : Nat) (limit : Option Duration) (kind : Stage → Prop) : Prop :=
  ∃ p, w.processes[run]? = some p ∧ ∃ k, p.worker? token = some k ∧ k.limit = limit ∧ kind k.stage

theorem HasWorker.setStage {limit : Option Duration} {kind : Stage → Prop}
    (h : w.HasWorker run token limit kind) {stage : Stage} {kind' : Stage → Prop} (hKind : kind' stage) :
    (w.update run fun p => p.setStage token stage).HasWorker run token limit kind' := by
  obtain ⟨p, hp, k, hk, hLimit, -⟩ := h
  exact ⟨_, by rw [getElem?_update, hp]; rfl, _, Process.worker?_setStage hk stage, hLimit, hKind⟩

/-- A call is under way at a stage. -/
def IsCalling (call : OpenCall) (stage : Stage) : Prop := stage.call? = some call

section

variable {limit : Option Duration} {call : OpenCall}

theorem endCall_evolves (h : w.HasWorker run token limit (IsCalling call)) (outcome : Outcome) :
    w.Evolves (w.endCall run token outcome) := by
  obtain ⟨p, hp, k, hk, -, hCall⟩ := h
  exact (evolves_step hp (.aside (.finish outcome hk hCall))).of_eq (scene_endCall w run token outcome)

theorem goOn_evolves (h : w.HasWorker run token limit (IsCalling call)) {stage : Stage}
    (hStage : IsCalling call stage) : w.Evolves (w.update run fun p => p.setStage token stage) := by
  obtain ⟨p, hp, k, hk, -, hBefore⟩ := h
  exact evolves_step hp (.aside (.goOn hk hBefore hStage))

theorem checkDeadline_evolves (h : w.HasWorker run token limit (IsCalling call))
    (limit : Option Duration) : w.Evolves (w.checkDeadline run token limit call) := by
  unfold checkDeadline
  split
  · split
    · exact endCall_evolves h _
    · exact evolves_of_eq rfl
  · exact evolves_of_eq rfl

theorem passGate_evolves {g : Graph} {k : Worker g}
    (h : w.HasWorker run k.token limit (IsCalling call)) : w.Evolves (w.passGate run k call) := by
  unfold passGate
  dsimp only
  split
  · exact endCall_evolves h _
  · split
    · let opened := { w with openings := w.openings.erase k.invocation.stepId }
      have hOpened : w.Evolves opened := evolves_of_eq rfl
      exact hOpened.trans (endCall_evolves (w := opened) h _)
    · let arrived := { w with waiters := w.waiters ++ [Waiter.mk k.invocation.stepId run k.token] }
      have hArrived : w.Evolves arrived := evolves_of_eq rfl
      have hWaits : HasWorker arrived run k.token limit (IsCalling call) := h
      have hAtGate : IsCalling call (.atGate call) := rfl
      exact (hArrived.trans (goOn_evolves hWaits hAtGate)).trans
        (checkDeadline_evolves (hWaits.setStage hAtGate) k.limit)

theorem scene_noteCall (w : World) (invocation : Invocation) (limit : Option Duration) :
    (w.noteCall invocation limit).scene = w.scene := by
  unfold noteCall
  split <;> rfl

theorem giveUp_evolves (h : w.HasWorker run token limit (· = .admitted))
    (hBeyond : (limit.any fun d => limitBound ≤ d.seconds) = true) :
    w.Evolves ((w.update run fun p => p.dropWorker token).release run) := by
  obtain ⟨p, hp, k, hk, rfl, hStage⟩ := h
  have hCannot : ¬ k.CanCall := by
    rw [Worker.CanCall, hBeyond]
    nofun
  have hGone : w.Evolves (w.update run fun p => (p.dropWorker token).release.1) :=
    evolves_step hp (.aside (.giveUp hk hStage hCannot))
  refine hGone.of_eq ?_
  rw [scene_release, update_update]

theorem enter_evolves (h : w.HasWorker run token limit (· = .admitted))
    (hBelow : (limit.any fun d => limitBound ≤ d.seconds) = false) (wake : Nat) (call : OpenCall) :
    w.Evolves (w.update run fun p => p.setStage token (.asleep wake call)) := by
  obtain ⟨p, hp, k, hk, rfl, hStage⟩ := h
  exact evolves_step hp (.aside (.enter (.intro hk hStage hBelow)))

/-- A worker with a permit makes its call, if its limit is one that a clock can tell. -/
theorem makeCall_evolves {g : Graph} {k : Worker g}
    (h : w.HasWorker run k.token k.limit (· = .admitted)) : w.Evolves (w.makeCall run k) := by
  unfold makeCall
  split
  · rename_i hBeyond
    exact giveUp_evolves h hBeyond
  · rename_i hBelow
    rw [Bool.not_eq_true] at hBelow
    obtain ⟨reply, performer⟩ := w.performer.answer k.invocation
    dsimp only
    generalize hCall : (⟨reply.gated, reply.ending, k.limit.map fun d => w.now + d.millisUp⟩ :
      OpenCall) = call
    generalize hAfter : ({ w with performer }.update run fun p =>
      p.setStage k.token (.asleep (w.now + reply.sleep) call)).noteCall k.invocation k.limit = after
    have hSame : after.scene = (w.update run fun p =>
        p.setStage k.token (.asleep (w.now + reply.sleep) call)).scene := by
      rw [← hAfter, scene_noteCall]
      rfl
    have hEntered : w.Evolves after := (enter_evolves h hBelow _ call).of_eq hSame
    have hCalls : after.HasWorker run k.token k.limit (IsCalling call) := by
      unfold HasWorker
      rw [processes_of_scene hSame]
      exact h.setStage rfl
    split
    · exact hEntered.trans (checkDeadline_evolves hCalls k.limit)
    · exact hEntered.trans (passGate_evolves hCalls)

/-- Whatever a worker does when it is let go on, it is steps of its run. -/
theorem pollWorker_evolves (w : World) (run token : Nat) : w.Evolves (w.pollWorker run token) := by
  unfold pollWorker
  split
  · exact evolves_of_eq rfl
  · rename_i p hp
    split
    · exact evolves_of_eq rfl
    · rename_i k hk
      obtain rfl : k.token = token := by simpa using List.find?_some hk
      have hCalls : ∀ {call}, k.stage.call? = some call →
          w.HasWorker run k.token k.limit (IsCalling call) := fun hCall => ⟨p, hp, k, hk, rfl, hCall⟩
      split
      · rename_i hFresh
        have hAsked : w.Evolves (w.update run fun p => p.acquire k.token) :=
          evolves_step hp (.aside (.acquire hk hFresh))
        dsimp only
        split
        · rename_i hFree
          have hGot : p.acquire k.token =
              { p with free := p.free - 1 }.setStage k.token .admitted := if_pos hFree
          refine hAsked.trans (makeCall_evolves ⟨_, by rw [getElem?_update, hp]; rfl, ?_⟩)
          dsimp only
          rw [hGot]
          exact ⟨_, Process.worker?_setStage (p := { p with free := p.free - 1 }) hk .admitted, rfl, rfl⟩
        · exact hAsked
      · exact evolves_of_eq rfl
      · rename_i hStage
        exact makeCall_evolves ⟨p, hp, k, hk, rfl, hStage⟩
      · rename_i hStage
        split
        · exact passGate_evolves (hCalls (congrArg Stage.call? hStage))
        · exact checkDeadline_evolves (hCalls (congrArg Stage.call? hStage)) k.limit
      · rename_i hStage
        exact checkDeadline_evolves (hCalls (congrArg Stage.call? hStage)) k.limit
      · rename_i hStage
        exact endCall_evolves (hCalls (congrArg Stage.call? hStage)) _

end

/-! ## What is seen of a world -/

/-- What readers and the archive see of a world. -/
def front (w : World) : Option Archive × List (Snapshot × Bool) :=
  (w.archive, w.processes.map Process.face)

theorem front_update {f : Process → Process}
    (h : ∀ p, w.processes[run]? = some p → (f p).face = p.face) :
    (w.update run f).front = w.front := by
  refine Prod.ext rfl (List.ext_getElem? fun other => ?_)
  by_cases hSame : run = other
  · subst hSame
    simp only [front, List.getElem?_map, getElem?_update]
    cases hp : w.processes[run]? with
    | none => rfl
    | some p => exact congrArg some (h p hp)
  · simp [front, update, hSame]

/-! ## What happens beside the schedulers -/

/-- From one world to another nothing has happened but beside the schedulers: all runs are alike. -/
structure Beside (w w' : World) : Prop where
  archive : w'.archive = w.archive
  count : w'.processes.length = w.processes.length
  alike : ∀ (run : Nat) (p : Process), w.processes[run]? = some p →
    ∃ q, w'.processes[run]? = some q ∧ p.Alike q

theorem Beside.trans {w'' : World} (h : w.Beside w') (hNext : w'.Beside w'') : w.Beside w'' where
  archive := hNext.archive.trans h.archive
  count := hNext.count.trans h.count
  alike run p hp := by
    obtain ⟨q, hq, hAlike⟩ := h.alike run p hp
    obtain ⟨r, hr, hMore⟩ := hNext.alike run q hq
    exact ⟨r, hr, hAlike.trans hMore⟩

theorem beside_of_eq (hProcesses : w'.processes = w.processes) (hArchive : w'.archive = w.archive) :
    w.Beside w' :=
  ⟨hArchive, congrArg List.length hProcesses, fun _ p hp => ⟨p, hProcesses ▸ hp, .refl p⟩⟩

theorem beside_update {f : Process → Process}
    (h : ∀ p, w.processes[run]? = some p → p.Alike (f p)) : w.Beside (w.update run f) := by
  refine ⟨rfl, List.length_modify .., fun other p hp => ?_⟩
  by_cases hSame : run = other
  · subst hSame
    exact ⟨f p, by rw [getElem?_update, hp]; rfl, h p hp⟩
  · exact ⟨p, by simpa [update, hSame] using hp, .refl p⟩

/-- In two worlds with as many runs, what ties every run of the one to a run of the other ties every
run of the other to one of the one. -/
theorem exists_counterpart {R : Process → Process → Prop}
    (hCount : w'.processes.length = w.processes.length)
    (h : ∀ (run : Nat) p, w.processes[run]? = some p → ∃ q, w'.processes[run]? = some q ∧ R p q)
    {q : Process} (hq : w'.processes[run]? = some q) : ∃ p, w.processes[run]? = some p ∧ R p q := by
  obtain ⟨hBound, -⟩ := List.getElem?_eq_some_iff.mp hq
  have hp := List.getElem?_eq_getElem (hCount ▸ hBound)
  obtain ⟨r, hr, hTied⟩ := h run _ hp
  obtain rfl : r = q := Option.some.inj (hr.symm.trans hq)
  exact ⟨_, hp, hTied⟩

/-- Every run is alike to one that there was before. -/
theorem Beside.exists_alike (h : w.Beside w') {q : Process} (hq : w'.processes[run]? = some q) :
    ∃ p, w.processes[run]? = some p ∧ p.Alike q :=
  exists_counterpart h.count h.alike hq

/-- What happens beside the schedulers is not seen. -/
theorem Beside.front (h : w.Beside w') : w'.front = w.front := by
  refine Prod.ext h.archive (List.ext_getElem? fun run => ?_)
  simp only [World.front, List.getElem?_map]
  cases hp : w.processes[run]? with
  | none =>
    rw [List.getElem?_eq_none_iff, ← h.count, ← List.getElem?_eq_none_iff] at hp
    rw [hp]
  | some p =>
    obtain ⟨q, hq, hAlike⟩ := h.alike run p hp
    rw [hq]
    exact congrArg some hAlike.face

theorem wake_beside (w : World) (run : Nat) (job : Process.Job) : w.Beside (w.wake run job) := by
  unfold wake
  split <;> exact beside_of_eq rfl rfl

theorem wakeScheduler_beside (w : World) (run : Nat) : w.Beside (w.wakeScheduler run) := by
  unfold wakeScheduler
  split
  · exact wake_beside w run .scheduler
  · exact beside_of_eq rfl rfl

theorem foldl_wake_beside {α : Type} (task : α → Task) (xs : List α) (w : World) :
    w.Beside (xs.foldl (fun w x => w.wake (task x).run (task x).job) w) := by
  induction xs generalizing w with
  | nil => exact beside_of_eq rfl rfl
  | cons x xs ih => exact (wake_beside w _ _).trans (ih _)

theorem release_beside (w : World) (run : Nat) : w.Beside (w.release run) := by
  unfold release
  split
  · exact beside_of_eq rfl rfl
  · rename_i p hp
    have hGiven : w.Beside (w.update run fun _ => p.release.1) :=
      beside_update fun q hq => by
        obtain rfl := Option.some.inj (hp.symm.trans hq)
        exact p.alike_release
    dsimp only
    cases p.release.2 with
    | none => exact hGiven
    | some token => exact hGiven.trans (wake_beside _ _ _)

theorem endCall_beside (w : World) (run token : Nat) (outcome : Outcome) :
    w.Beside (w.endCall run token outcome) := by
  have hFewer : w.Beside
      { w with waiters := w.waiters.filter fun x => x.run ≠ run ∨ x.token ≠ token } :=
    beside_of_eq rfl rfl
  unfold endCall
  refine ((hFewer.trans ?ended).trans (wakeScheduler_beside _ _)).trans (release_beside _ _)
  case ended => exact beside_update fun p _ => p.alike_endCall token outcome

theorem checkDeadline_beside (w : World) (run token : Nat) (limit : Option Duration)
    (call : OpenCall) : w.Beside (w.checkDeadline run token limit call) := by
  unfold checkDeadline
  split
  · split
    · exact endCall_beside _ _ _ _
    · exact beside_of_eq rfl rfl
  · exact beside_of_eq rfl rfl

theorem passGate_beside {g : Graph} (w : World) (run : Nat) (k : Worker g) (call : OpenCall) :
    w.Beside (w.passGate run k call) := by
  unfold passGate
  dsimp only
  split
  · exact endCall_beside _ _ _ _
  · split
    · refine Beside.trans ?_ (endCall_beside _ _ _ _)
      exact beside_of_eq rfl rfl
    · refine Beside.trans ?_ (checkDeadline_beside _ _ _ _ _)
      refine Beside.trans ?_ (beside_update fun p _ => p.alike_setStage _ _)
      exact beside_of_eq rfl rfl

theorem noteCall_beside (w : World) (invocation : Invocation) (limit : Option Duration) :
    w.Beside (w.noteCall invocation limit) := by
  unfold noteCall
  split <;> exact beside_of_eq rfl rfl

theorem makeCall_beside {g : Graph} (w : World) (run : Nat) (k : Worker g) :
    w.Beside (w.makeCall run k) := by
  unfold makeCall
  split
  · exact (beside_update fun p _ => p.alike_dropWorker _).trans (release_beside _ _)
  · dsimp only
    generalize w.performer.answer k.invocation = answer
    have hStage (stage : Stage) : w.Beside (({ w with performer := answer.2 } : World).update run
        fun p => p.setStage k.token stage) := by
      refine Beside.trans ?_ (beside_update fun p _ => p.alike_setStage _ _)
      exact beside_of_eq rfl rfl
    have hNoted (stage : Stage) := (hStage stage).trans (noteCall_beside _ k.invocation k.limit)
    split
    · exact (hNoted _).trans (checkDeadline_beside _ _ _ _ _)
    · exact (hNoted _).trans (passGate_beside _ _ _ _)

/-- Whatever a worker does is beside the schedulers. -/
theorem pollWorker_beside (w : World) (run token : Nat) : w.Beside (w.pollWorker run token) := by
  have hAsked : w.Beside (w.update run fun p => p.acquire token) :=
    beside_update fun p _ => p.alike_acquire token
  unfold pollWorker
  split
  · exact beside_of_eq rfl rfl
  · split
    · exact beside_of_eq rfl rfl
    · split
      · dsimp only
        split
        · exact hAsked.trans (makeCall_beside _ _ _)
        · exact hAsked
      · exact beside_of_eq rfl rfl
      · exact makeCall_beside _ _ _
      · split
        · exact passGate_beside _ _ _ _
        · exact checkDeadline_beside _ _ _ _ _
      · exact checkDeadline_beside _ _ _ _ _
      · exact endCall_beside _ _ _ _

/-! ## Schedulers -/

/-- The scheduler of a run has begun. -/
def HasBegun (w : World) (run : Nat) : Prop := ∀ p, w.processes[run]? = some p → p.phase ≠ .fresh

/-- Readers are shown the run as it stands, or the run is lost. -/
theorem publish_evolves (h : w.HasBegun run) : w.Evolves (w.publish run) := by
  unfold publish
  split
  · exact evolves_of_eq rfl
  · rename_i p hp
    have hShown : w.Evolves (w.update run fun q => { q with published := p.snapshot w.instant }) :=
      evolves_step hp .publish
    dsimp only
    split
    · exact hShown
    · split
      · exact Evolves.of_eq (evolves_step hp (.aside (.lose (h p hp)))) rfl
      · exact hShown.of_eq rfl

/-- Whoever has looked whether the run is over need not look again. -/
theorem conclude_idem {p : Process} {now : Instant} (h : (p.conclude now).isFinal = false) :
    ((p.conclude now).conclude now).isFinal = false := by
  have hMore : ({ p.scheduler with now } : Scheduler p.graph).conclude.state.isFinal = false := h
  rw [Scheduler.isFinal_conclude] at hMore
  simp only [Bool.or_eq_false_iff] at hMore
  obtain ⟨⟨hSome, hFree⟩, -⟩ := hMore
  have hKept : ({ p.scheduler with now } : Scheduler p.graph).conclude = { p.scheduler with now } := by
    rcases Scheduler.conclude_cases { p.scheduler with now } with hSame | ⟨hNone, -⟩ | ⟨-, hStuck, -⟩
    · exact hSame
    · rw [hNone] at hSome
      cases hSome
    · rw [hFree] at hStuck
      cases hStuck
  change ({ ({ p.scheduler with now } : Scheduler p.graph).conclude with now } :
    Scheduler p.graph).conclude.state.isFinal = false
  rw [hKept]
  exact h

theorem retire_evolves (w : World) (run : Nat) : w.Evolves (w.retire run) := by
  unfold retire
  split
  · split
    · split
      · exact evolves_update fun p _ => .single (.aside (.retire false))
      · exact evolves_of_eq rfl
    · exact evolves_of_eq rfl
  · exact evolves_of_eq rfl

/-- No scheduler has come to its end. -/
def KeepsOpen (w w' : World) : Prop :=
  ∀ (run : Nat) (q : Process), w'.processes[run]? = some q → q.phase = .ended →
    ∃ p, w.processes[run]? = some p ∧ p.phase = .ended

/-- The scheduler of a run is at work. -/
def IsLive (w : World) (run : Nat) : Prop := ∀ p, w.processes[run]? = some p → p.phase = .live

/-- A relation that takes in whatever schedulers do. It holds from one world to another if runs go on
unseen and no scheduler comes to its end, if a run is shown as it stands while its scheduler is at
work, and if the scheduler of a run that is over comes to its end, with all that belongs to it; and it
holds if such things happen one after another. -/
structure TakesIn (R : World → World → Prop) : Prop where
  trans {w w' w'' : World} (h : R w w') (hNext : R w' w'') : R w w''
  unseen {w w' : World} (h : w.Evolves w') (hFront : w'.front = w.front) (hOpen : w.KeepsOpen w') :
    R w w'
  publish {w : World} {run : Nat} (h : w.IsLive run) : R w (w.publish run)
  close {w : World} {run : Nat} {p : Process} (hp : w.processes[run]? = some p)
    (hLive : p.phase = .live) (hFinal : p.isFinal = true) : R w (w.close run)

/-- When a scheduler comes to its end, it goes on unseen, its run is shown as it stands, and then the run
is looked for in the archive and forgotten. A relation that takes in these takes in the end. -/
theorem TakesIn.of_steps {R : World → World → Prop}
    (trans : ∀ {w w' w'' : World}, R w w' → R w' w'' → R w w'')
    (unseen : ∀ {w w' : World}, w.Evolves w' → w'.front = w.front → R w w')
    (publish : ∀ {w : World} {run : Nat}, w.HasBegun run → R w (w.publish run))
    (retire : ∀ {w : World} {run : Nat},
      (∀ p, w.processes[run]? = some p → p.phase = .ended) → R w (w.retire run)) : TakesIn R where
  trans := trans
  unseen h hFront _ := unseen h hFront
  publish h := publish fun p hp hFresh => nomatch (h p hp).symm.trans hFresh
  close {w run p} hp hLive hFinal := by
    have hEnded : R w (w.update run fun p => { p with phase := .ended }) :=
      unseen (evolves_step hp (.aside (.close hLive hFinal))) (front_update fun _ _ => rfl)
    have hShown : R w ((w.update run fun p => { p with phase := .ended }).publish run) := by
      refine trans hEnded (publish fun q hq => ?_)
      rw [getElem?_update, hp] at hq
      cases hq
      nofun
    unfold World.close
    dsimp only
    split
    · rename_i hStill
      refine trans hShown (retire fun q hq => ?_)
      rw [hq] at hStill
      simpa using hStill
    · exact hShown

theorem evolves_takesIn : TakesIn Evolves :=
  .of_steps Evolves.trans (fun h _ => h) publish_evolves fun _ => retire_evolves _ _

theorem Beside.keepsOpen (h : w.Beside w') : w.KeepsOpen w' := by
  intro run q hq hEnded
  obtain ⟨p, hp, hAlike⟩ := h.exists_alike hq
  cases hAlike
  exact ⟨p, hp, hEnded⟩

namespace TakesIn

variable {R : World → World → Prop} (hR : TakesIn R)

include hR

/-- What happens beside the schedulers is taken in. -/
theorem beside (h : w.Evolves w') (hBeside : w.Beside w') : R w w' :=
  hR.unseen h hBeside.front hBeside.keepsOpen

theorem of_eq (hScene : w'.scene = w.scene) (hArchive : w'.archive = w.archive) : R w w' :=
  hR.beside (evolves_of_eq hScene) (beside_of_eq (processes_of_scene hScene) hArchive)

theorem foldl {α : Type} {f : World → α → World} (h : ∀ w x, R w (f w x)) (xs : List α) (w : World) :
    R w (xs.foldl f w) := by
  induction xs generalizing w with
  | nil => exact hR.of_eq rfl rfl
  | cons x xs ih => exact hR.trans (h w x) (ih (f w x))

theorem step {p : Process} (hp : w.processes[run]? = some p) {f : Process → Process}
    (hStep : p.StepAt w.instant w.now (f p)) (hFace : (f p).face = p.face)
    (hOpen : (f p).phase = .ended → p.phase = .ended) : R w (w.update run f) := by
  refine hR.unseen (evolves_step hp hStep) (front_update fun q hq => ?_) fun other q hq hEnded => ?_
  · obtain rfl := Option.some.inj (hp.symm.trans hq)
    exact hFace
  · by_cases hSame : run = other
    · subst hSame
      rw [getElem?_update, hp] at hq
      obtain rfl := Option.some.inj hq
      exact ⟨p, hp, hOpen hEnded⟩
    · exact ⟨q, by simpa [update, hSame] using hq, hEnded⟩

/-- After a scheduler has gone on, what it asks for is done. -/
theorem followUp (h : w.IsLive run) :
    R (w.update run fun p => p.follow w.now) (w.followUp run) := by
  unfold World.followUp
  split
  · rename_i hNone
    rw [update_none hNone]
    exact hR.of_eq rfl rfl
  · rename_i p hp
    dsimp only
    generalize hGranted : (p.grant w.now).2.foldl (fun w job => w.wake run job)
      (w.update run fun _ => (p.grant w.now).1) = granted
    have hScene : granted.scene = (w.update run fun _ => (p.grant w.now).1).scene := by
      rw [← hGranted]
      exact scene_foldl_wake (Task.mk run) _ _
    have hFront : granted.front = (w.update run fun _ => (p.grant w.now).1).front := by
      rw [← hGranted]
      exact (foldl_wake_beside (Task.mk run) _ _).front
    have hArchive : granted.archive = w.archive := congrArg Prod.fst hFront
    have hThere : granted.processes[run]? = some (p.grant w.now).1 := by
      rw [processes_of_scene hScene, getElem?_update, hp]
      rfl
    rw [← update_replace hp fun p => p.follow w.now, Process.follow]
    split
    · refine hR.of_eq ?_ hArchive
      rw [scene_update hScene, update_update]
    · refine hR.trans (hR.of_eq hScene hArchive) (hR.publish fun q hq => ?_)
      obtain rfl := Option.some.inj (hThere.symm.trans hq)
      exact h p hp

/-- The scheduler of a run goes on, and what it asks for is done. -/
theorem goesOn {p : Process} (hp : w.processes[run]? = some p) {f : Process → Process}
    (hLive : (f p).phase = .live) (hStep : p.StepAt w.instant w.now ((f p).follow w.now))
    (hFace : (f p).face = p.face) : R w ((w.update run f).followUp run) := by
  have hLive' : (w.update run f).IsLive run := by
    intro q hq
    rw [getElem?_update, hp] at hq
    cases hq
    exact hLive
  have hOnce : R w (w.update run fun p => (f p).follow w.now) := by
    refine hR.step hp hStep ((Process.face_follow _ _).trans hFace) fun hEnded => ?_
    exact absurd hEnded (Process.phase_follow_ne_ended (by simp [hLive]) w.now)
  have hSame : (w.update run fun p => (f p).follow w.now) =
      (w.update run f).update run fun p => p.follow w.now :=
    (update_update w run f fun p => p.follow w.now).symm
  rw [hSame] at hOnce
  exact hR.trans hOnce (hR.followUp hLive')

theorem readInbox (w : World) (run room : Nat) : R w (w.readInbox run room) := by
  induction room generalizing w with
  | zero => exact hR.of_eq rfl rfl
  | succ room ih =>
    unfold World.readInbox
    split
    · exact hR.of_eq rfl rfl
    · rename_i p hp
      split
      · exact hR.of_eq rfl rfl
      · rename_i hLive
        rw [not_not] at hLive
        split
        · rename_i hFinal
          exact hR.close hp hLive hFinal
        · rename_i hOpen
          rw [Bool.not_eq_true] at hOpen
          have hConcluded : R w (w.update run fun _ => p.conclude w.instant) :=
            hR.step hp (.conclude hLive hOpen) rfl id
          have hp' : (w.update run fun _ => p.conclude w.instant).processes[run]? =
              some (p.conclude w.instant) := by
            rw [getElem?_update, hp]
            rfl
          dsimp only
          split
          · rename_i hFinal
            exact hR.trans hConcluded (hR.close hp' hLive hFinal)
          · rename_i hMore
            rw [Bool.not_eq_true] at hMore
            split
            · exact hConcluded
            · rename_i hSome
              refine hR.trans hConcluded (hR.trans ?_ (ih _))
              obtain ⟨m, rest, hInbox⟩ := List.exists_cons_of_ne_nil
                fun hNone => hSome (List.isEmpty_iff.mpr hNone)
              -- a step that reads looks once more whether the run is over, as `conclude_idem` allows
              refine hR.goesOn hp' ?_ (.read hLive hMore (conclude_idem hMore) hInbox)
                (Process.face_readMessage _ _)
              rw [Process.readMessage_of_inbox hInbox]
              exact hLive

/-- Whatever a scheduler does when it is let go on. -/
theorem pollScheduler (w : World) (run : Nat) : R w (w.pollScheduler run) := by
  unfold World.pollScheduler
  split
  · exact hR.of_eq rfl rfl
  · rename_i p hp
    dsimp only
    refine hR.trans ?_ (hR.readInbox _ run _)
    split
    · rename_i hFresh
      exact hR.goesOn hp rfl (.launch hFresh) rfl
    · exact hR.of_eq rfl rfl

/-- Whoever is the first in the queue, a turn lets his run go on. -/
theorem turn? (h : w.turn? = some w') : R w w' := by
  unfold World.turn? at h
  split at h
  · cases h
  · rename_i t rest hQueue
    dsimp only at h
    have hShorter : R w { w with queue := rest } := hR.of_eq rfl rfl
    split at h
    · obtain rfl := Option.some.inj h
      exact hR.trans hShorter (hR.pollScheduler _ t.run)
    · obtain rfl := Option.some.inj h
      exact hR.trans hShorter (hR.beside (pollWorker_evolves _ t.run _) (pollWorker_beside _ _ _))
    · obtain rfl := Option.some.inj h
      rename_i step hJob
      have hDue : ({ w with queue := rest } : World).Evolves
          (({ w with queue := rest } : World).update t.run fun p => p.deliverRetry step w.now) :=
        evolves_update fun p _ => .single (.retry step)
      refine hR.trans hShorter (hR.beside (hDue.of_eq (scene_wakeScheduler _ t.run)) ?_)
      exact (beside_update fun p _ => p.alike_deliverRetry _ _).trans (wakeScheduler_beside _ _)

theorem turns (n : Nat) (w : World) : R w (turns n w) := by
  induction n generalizing w with
  | zero => exact hR.of_eq rfl rfl
  | succ n ih =>
    unfold World.turns
    split
    · exact hR.of_eq rfl rfl
    · rename_i next hTurn
      exact hR.trans (hR.turn? hTurn) (ih next)

/-- To stop all runs takes nothing but to stop each of them. -/
theorem shutdown (hStop : ∀ w run, R w (World.command w run .stop).1) (s : Service) :
    R s.world s.shutdown.1.world := by
  have hEach : ∀ (w : World) (known : Process × Nat), R w
      (if known.1.published.status.isFinal then w else (w.command known.2 .stop).1) := by
    intro w known
    split
    · exact hR.of_eq rfl rfl
    · exact hStop w known.2
  exact hR.trans (hR.foldl hEach s.knownRuns s.world) (hR.turns World.patience _)

end TakesIn

/-- Whoever is the first in the queue, a turn lets his run go on by steps. -/
theorem turn?_evolves (h : w.turn? = some w') : w.Evolves w' := evolves_takesIn.turn? h

theorem turns_evolves (n : Nat) (w : World) : w.Evolves (turns n w) := evolves_takesIn.turns n w

/-! ## As time goes by -/

/-- As time goes by the runs of a world have gone on by steps, and none has begun. -/
structure Unfolds (w w' : World) : Prop where
  epoch : w'.epoch = w.epoch
  later : w.now ≤ w'.now
  count : w'.processes.length = w.processes.length
  goOn : ∀ (run : Nat) (p : Process), w.processes[run]? = some p →
    ∃ q, w'.processes[run]? = some q ∧ Process.Beats w.epoch (w.now, p) (w'.now, q)

theorem Unfolds.trans {w'' : World} (h : w.Unfolds w') (hNext : w'.Unfolds w'') :
    w.Unfolds w'' where
  epoch := hNext.epoch.trans h.epoch
  later := h.later.trans hNext.later
  count := hNext.count.trans h.count
  goOn run p hp := by
    obtain ⟨q, hq, hBeats⟩ := h.goOn run p hp
    obtain ⟨r, hr, hMore⟩ := hNext.goOn run q hq
    rw [h.epoch] at hMore
    exact ⟨r, hr, hBeats.trans hMore⟩

theorem Evolves.unfolds (h : w.Evolves w') : w.Unfolds w' where
  epoch := h.epoch
  later := h.now.ge
  count := h.count
  goOn run p hp := by
    obtain ⟨q, hq, hSteps⟩ := h.goOn run p hp
    rw [h.now]
    exact ⟨q, hq, hSteps.lift (fun p => (w.now, p)) fun _ _ hStep => .step hStep⟩

/-- The clock goes on. -/
theorem unfolds_later (w : World) {time : Nat} (h : w.now ≤ time) :
    w.Unfolds { w with now := time } :=
  ⟨rfl, h, rfl, fun _ p hp => ⟨p, hp, .single (.wait h)⟩⟩

theorem tick_unfolds (w : World) (time : Nat) : w.Unfolds (w.tick time) :=
  (unfolds_later w (Nat.le_max_left _ _)).trans (evolves_of_eq (scene_foldl_wake id _ _)).unfolds

theorem tick_now (w : World) (time : Nat) : (w.tick time).now = max w.now time := by
  have hScene := scene_foldl_wake id (({ w with now := max w.now time } : World).processes.zipIdx.flatMap
    fun x => (x.1.dueJobs (max w.now time)).map (Task.mk x.2)) { w with now := max w.now time }
  exact congrArg (fun x => x.2.1) hScene

theorem stepsUntil_unfolds (goal : World → Bool) (limit n : Nat) (w : World) :
    w.Unfolds (stepsUntil goal limit n w) ∧ (stepsUntil goal limit n w).now ≤ max w.now limit := by
  induction n generalizing w with
  | zero => exact ⟨(evolves_of_eq rfl).unfolds, Nat.le_max_left _ _⟩
  | succ n ih =>
    unfold stepsUntil
    dsimp only
    have hSettled : w.Evolves w.settle := turns_evolves patience w
    have hStays : w.Unfolds w.settle ∧ w.settle.now ≤ max w.now limit :=
      ⟨hSettled.unfolds, hSettled.now.le.trans (Nat.le_max_left _ _)⟩
    split
    · exact hStays
    · split
      · exact hStays
      · rename_i time _
        split
        · rename_i hInTime
          obtain ⟨hRest, hNow⟩ := ih (w.settle.tick time)
          rw [tick_now, hSettled.now] at hNow
          exact ⟨(hSettled.unfolds.trans (tick_unfolds _ _)).trans hRest, by omega⟩
        · exact hStays

theorem runUntil_unfolds (w : World) (goal : World → Bool) (limit : Nat) :
    w.Unfolds (w.runUntil goal limit) :=
  (stepsUntil_unfolds goal limit patience w).1

theorem advance_unfolds (w : World) (millis : Nat) : w.Unfolds (w.advance millis) := by
  obtain ⟨hUnfolds, hNow⟩ := stepsUntil_unfolds (fun _ => false) (w.now + millis) patience w
  exact hUnfolds.trans (unfolds_later _ (hNow.trans (Nat.max_le.mpr ⟨by omega, le_rfl⟩)))

/-! ## From outside -/

theorem command_evolves (w : World) (run : Nat) (c : Command) : w.Evolves (w.command run c).1 := by
  unfold command
  split
  · exact evolves_of_eq rfl
  · have hSent : w.Evolves (w.update run fun p => p.send (.command c)) :=
      evolves_update fun p _ => .single (.aside (.command c))
    exact hSent.of_eq (scene_wakeScheduler _ run)

theorem openGate_evolves (w : World) (step : String) : w.Evolves (w.openGate step) := by
  unfold openGate
  split
  · exact evolves_of_eq rfl
  · rename_i x hFirst
    have hPassed : w.Evolves (w.update x.run fun p => p.letPass x.token) := by
      refine evolves_update fun p _ => ?_
      unfold Process.letPass
      split
      · rename_i call hCall
        obtain ⟨k, hk, hOpen⟩ := Option.bind_eq_some_iff.mp hCall
        exact .single (.aside (.goOn hk hOpen rfl))
      · exact .refl
    exact hPassed.of_eq (scene_wake _ _ _)

theorem command_beside (w : World) (run : Nat) (c : Command) : w.Beside (w.command run c).1 := by
  unfold command
  split
  · exact beside_of_eq rfl rfl
  · exact (beside_update fun p _ => p.alike_send _).trans (wakeScheduler_beside _ run)

theorem openGate_beside (w : World) (step : String) : w.Beside (w.openGate step) := by
  unfold openGate
  split
  · exact beside_of_eq rfl rfl
  · rename_i x _
    have hPass (p : Process) : p.Alike (p.letPass x.token) := by
      unfold Process.letPass
      split
      · exact p.alike_setStage _ _
      · exact .refl p
    refine Beside.trans ?_ (wake_beside _ _ _)
    refine Beside.trans ?_ (beside_update fun p _ => hPass p)
    exact beside_of_eq rfl rfl

/-! ## All runs of a world -/

/-- Every run has come from a run that there was before. -/
theorem Unfolds.exists_beats (h : w.Unfolds w') {q : Process} (hq : w'.processes[run]? = some q) :
    ∃ p, w.processes[run]? = some p ∧ Process.Beats w.epoch (w.now, p) (w'.now, q) :=
  exists_counterpart h.count h.goOn hq

end World

/-! ## Services -/

namespace Service

variable {s s' : Service} {runId : String}

theorem send_evolves {c : Command} (h : s.send runId c = .ok s') : s.world.Evolves s'.world := by
  unfold send at h
  split at h
  · cases h
  · rename_i p run hFind
    split at h
    · cases h
    · dsimp only at h
      split at h
      · cases h
        exact World.command_evolves s.world run c
      · cases h

theorem wait_unfolds (s : Service) (runId : String) (patience : Nat) :
    s.world.Unfolds (s.wait runId patience).1.world := by
  unfold wait
  split
  · exact (World.evolves_of_eq rfl).unfolds
  · rename_i p run hFind
    have hGone := World.runUntil_unfolds s.world (isDone run) (s.world.now + patience)
    dsimp only
    split
    · exact hGone
    · exact hGone

theorem shutdown_evolves (s : Service) : s.world.Evolves s.shutdown.1.world :=
  World.evolves_takesIn.shutdown (fun w run => World.command_evolves w run .stop) s

end Service

end Workflow

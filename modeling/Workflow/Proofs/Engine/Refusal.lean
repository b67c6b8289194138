/-
Workflow.Proofs.Engine.Refusal — what a refused command says.

A command to a run is refused when the run is finished. The service looks at
the status that readers are shown, or at the archive if it has forgotten the
run, and says which status it has found there. But a run can also look
unfinished and have nobody left who takes commands: its scheduler has been
lost, or has come to its end after the look. The command is refused then
too, with the status of that look.

* `World.Shown` — whoever has come to his end has shown it; `Serves.shown`.
* `Traffic.Sends` — a look at a run, and later a command to it.
* `Sends.status_eq` — a status of the end is the one that the run has ended
  with.
* `Traffic.unfinished_iff_gone` — the main result: which commands are
  refused with another status.
* `World.lost_of_panic` — an archive that panics loses every run that begins.
-/
import Workflow.Proofs.Engine.Retention

namespace Workflow

/-! ## Ends that are shown -/

namespace World

/-- When a scheduler has come to its end, readers are shown the end of its run. -/
def Shown (w : World) : Prop := ∀ (run : Nat) (p : Process), w.processes[run]? = some p →
  p.phase = .ended → p.published.status.isFinal = true

variable {w w' : World} {run : Nat}

theorem Shown.of_eq (h : w.Shown) (hSame : w'.processes = w.processes) : w'.Shown := by
  intro run p hp
  rw [hSame] at hp
  exact h run p hp

theorem Shown.beside (h : w.Shown) (hBeside : w.Beside w') : w'.Shown := by
  intro run q hq hEnded
  obtain ⟨p, hp, hAlike⟩ := hBeside.exists_alike hq
  cases hAlike
  exact h run p hp hEnded

/-- What becomes of one run matters to that run alone. -/
theorem Shown.update (h : w.Shown) {f : Process → Process}
    (hRun : ∀ p, w.processes[run]? = some p → (f p).phase = .ended →
      (f p).published.status.isFinal = true) : (w.update run f).Shown := by
  intro other q hq hEnded
  by_cases hSame : run = other
  · subst hSame
    rw [getElem?_update] at hq
    obtain ⟨p, hp, rfl⟩ := Option.map_eq_some_iff.mp hq
    exact hRun p hp hEnded
  · exact h other q (by simpa [World.update, hSame] using hq) hEnded

/-- A scheduler that is lost has not come to its end. -/
theorem Shown.lose (h : w.Shown) (run : Nat) :
    (w.update run fun p => { p with phase := .lost }).Shown :=
  h.update fun p _ hEnded => by
    rw [show ({ p with phase := .lost } : Process).phase = .lost from rfl] at hEnded
    cases hEnded

theorem Shown.publish (h : w.Shown) (hLive : w.IsLive run) : (w.publish run).Shown := by
  unfold World.publish
  split
  · exact h
  · rename_i p hp
    have hOpen (snapshot : Snapshot) :
        (w.update run fun q => { q with published := snapshot }).Shown :=
      h.update fun q hq hEnded => by
        rw [show q.phase = .live from hLive q hq] at hEnded
        cases hEnded
    dsimp only
    split
    · exact hOpen _
    · split
      · exact (h.lose run).of_eq rfl
      · exact (hOpen _).of_eq rfl

theorem Shown.retire (h : w.Shown) (run : Nat) : (w.retire run).Shown := by
  unfold World.retire
  split
  · split
    · split
      · exact h.update fun p hp hEnded => h run p hp hEnded
      · exact h
    · exact h
  · exact h

/-- A scheduler that comes to its end shows the end of its run, or is lost. -/
theorem Shown.close (h : w.Shown) {p : Process} (hp : w.processes[run]? = some p)
    (hFinal : p.isFinal = true) : (w.close run).Shown := by
  have hThere : (w.update run fun p => { p with phase := .ended }).processes[run]? =
      some { p with phase := .ended } := by
    rw [getElem?_update, hp]
    rfl
  have hShown : ((w.update run fun p => { p with phase := .ended }).publish run).Shown := by
    have hEnd : ((w.update run fun p => { p with phase := .ended }).update run fun q =>
        { q with published := Process.snapshot { p with phase := .ended } w.instant }).Shown := by
      rw [update_update]
      exact h.update fun _ _ _ => hFinal
    have hLost : ((w.update run fun p => { p with phase := .ended }).update run fun q =>
        { q with phase := .lost }).Shown := by
      rw [update_update]
      exact h.lose run
    unfold World.publish
    rw [hThere]
    dsimp only
    split
    · exact hEnd
    · split
      · exact hLost.of_eq rfl
      · exact hEnd.of_eq rfl
  unfold World.close
  dsimp only
  split
  · exact hShown.retire run
  · exact hShown

/-- Whatever schedulers do, ends stay shown. -/
theorem shown_takesIn : TakesIn fun w w' => w.Shown → w'.Shown where
  trans h hNext := hNext ∘ h
  unseen {w w'} hEvolves hFront hOpen h run q hq hEnded := by
    obtain ⟨p, hp, hBefore⟩ := hOpen run q hq hEnded
    have hFaces := congrArg (fun x => x.2[run]?) hFront
    simp only [front, List.getElem?_map, hp, hq, Option.map_some, Option.some.injEq] at hFaces
    have hSame : q.published = p.published := congrArg Prod.fst hFaces
    rw [hSame]
    exact h run p hp hBefore
  publish hLive h := h.publish hLive
  close hp _ hFinal h := h.close hp hFinal

theorem Shown.stepsUntil (h : w.Shown) (goal : World → Bool) (limit n : Nat) :
    (stepsUntil goal limit n w).Shown := by
  induction n generalizing w with
  | zero => exact h
  | succ n ih =>
    have hSettled : w.settle.Shown := shown_takesIn.turns patience w h
    unfold World.stepsUntil
    dsimp only
    split
    · exact hSettled
    · split
      · exact hSettled
      · split
        · rename_i time _ _
          have hLater : ({ w.settle with now := max w.settle.now time } : World).Shown :=
            hSettled.of_eq rfl
          exact ih (hLater.beside (foldl_wake_beside id _ _))
        · exact hSettled

end World

namespace Service

variable {s s' : Service}

/-- Whatever a service does, ends stay shown. -/
theorem Serves.shown (h : s.Serves s') (hShown : s.world.Shown) : s'.world.Shown := by
  -- a run that is submitted has not ended; all else goes by the steps of the runs there are
  cases h with
  | submit _ hSubmit =>
    obtain ⟨g, -, hProcesses, -⟩ := Traffic.submit_ok hSubmit
    intro run p hp hEnded
    rw [hProcesses, List.getElem?_append] at hp
    split at hp
    · exact hShown run p hp hEnded
    · obtain rfl := List.mem_singleton.mp (List.mem_of_getElem? hp)
      cases hEnded
  | send hSend =>
    unfold Service.send at hSend
    split at hSend
    · cases hSend
    · split at hSend
      · cases hSend
      · dsimp only at hSend
        split at hSend
        · cases hSend
          exact hShown.beside (World.command_beside _ _ _)
        · cases hSend
  | wait runId patience =>
    unfold Service.wait
    split
    · exact hShown
    · rename_i run _
      have hGone := hShown.stepsUntil (isDone run) (s.world.now + patience) World.patience
      dsimp only
      split
      · exact hGone
      · exact hGone
  | shutdown =>
    refine World.shown_takesIn.shutdown (fun w run h => ?_) s hShown
    exact h.beside (World.command_beside w run .stop)
  | turn hTurn => exact World.shown_takesIn.turn? hTurn hShown
  | advance millis =>
    have hGone := hShown.stepsUntil (fun _ => false) (s.world.now + millis) World.patience
    exact hGone.of_eq rfl
  | openGate step => exact hShown.beside (World.openGate_beside _ _)
  | disturb => exact hShown.of_eq rfl

theorem shown_of_serves (h : Relation.ReflTransGen Serves s s') (hShown : s.world.Shown) :
    s'.world.Shown := by
  induction h with
  | refl => exact hShown
  | tail _ hLast ih => exact hLast.shown ih

end Service

/-! ## A look and a command -/

/-- Nobody takes commands to the run any more: its scheduler has been lost, or it has come to its end
and shown that of the run. -/
def Process.IsGone (p : Process) : Prop :=
  p.phase = .lost ∨ p.phase = .ended ∧ p.published.status.isFinal = true

namespace Service

/-- Why a run that only the archive may know takes no commands, by what has been found. -/
def refusalOf (runId : String) : Except ServiceError Snapshot → ServiceError
  | .error e => e
  | .ok snapshot =>
    if snapshot.status.isFinal then .runFinished runId snapshot.status else .runNotFound runId

theorem refusal_eq {s : Service} {runId : String} (h : s.find? runId = none) :
    s.refusal runId = refusalOf runId (s.state runId) := by
  unfold refusal state
  rw [h]
  dsimp only
  cases s.archived runId <;> rfl

/-- What is looked up is not refused as finished. -/
theorem not_finished_of_state {s : Service} {runId id : String} {status : RunStatus} :
    s.state runId ≠ .error (.runFinished id status) := by
  unfold state archived
  split
  · nofun
  · split
    · nofun
    · split <;> nofun

end Service

namespace Traffic

/-- Somebody looks at a run and, if it seems unfinished, later sends it a command; what comes of it. A
run that is not known is looked up in the archive. A scheduler at its end that has shown it may still
take the command, though it will never read it. -/
inductive Sends (runId : String) (c : Command) (t t' : Traffic) : Except ServiceError Traffic → Prop
  | ended {p : Process} {run : Nat} (hFind : t.service.find? runId = some (p, run))
      (hOver : p.published.status.isFinal = true) (hLater : Steps t t') :
      Sends runId c t t' (.error (.runFinished runId p.published.status))
  | taken {p q : Process} {run : Nat} (hFind : t.service.find? runId = some (p, run))
      (hOpen : p.published.status.isFinal = false) (hLater : Steps t t')
      (hRun : t'.world.processes[run]? = some q) (hThere : q.phase ≠ .lost) :
      Sends runId c t t' (.ok (t'.withWorld (t'.world.command run c).1))
  | gone {p q : Process} {run : Nat} (hFind : t.service.find? runId = some (p, run))
      (hOpen : p.published.status.isFinal = false) (hLater : Steps t t')
      (hRun : t'.world.processes[run]? = some q) (hGone : q.IsGone) :
      Sends runId c t t' (.error (.runFinished runId p.published.status))
  | forgotten {t₁ : Traffic} (hFind : t.service.find? runId = none) (hBefore : Steps t t₁)
      (hAfter : Steps t₁ t') : Sends runId c t t'
        (.error (Service.refusalOf runId ((t₁.service.across t'.service).state runId)))

variable {t t' : Traffic} {run : Nat} {p : Process} {runId id : String} {c : Command}
  {status : RunStatus}

/-- A service that does one thing at a time looks and sends at once. -/
theorem Sends.of_send (hShown : t.world.Shown) {e : ServiceError}
    (h : t.service.send runId c = .error e) : Sends runId c t t (.error e) := by
  unfold Service.send at h
  split at h
  · rename_i hFind
    obtain rfl := Except.error.inj h
    rw [Service.refusal_eq hFind]
    exact .forgotten hFind .refl .refl
  · rename_i p run hFind
    have hp : t.world.processes[run]? = some p :=
      (mem_knownRuns.mp (List.mem_of_find?_eq_some hFind)).1
    split at h
    · rename_i hOver
      obtain rfl := Except.error.inj h
      exact .ended hFind hOver .refl
    · rename_i hOpen
      rw [Bool.not_eq_true] at hOpen
      dsimp only at h
      split at h
      · cases h
      · rename_i hIdle
        obtain rfl := Except.error.inj h
        refine .gone hFind hOpen .refl hp ?_
        have hPhase : p.phase.isActive = false := by
          simpa [World.command, show t.service.world.processes[run]? = some p from hp] using hIdle
        cases hCase : p.phase with
        | lost => exact .inl hCase
        | ended => exact .inr ⟨hCase, hShown run p hp hCase⟩
        | fresh | live =>
          rw [hCase] at hPhase
          cases hPhase

/-- A refusal names the run, and a status of the end unless the run seemed unfinished and is gone. -/
theorem Sends.finished (h : Sends runId c t t' (.error (.runFinished id status))) : id = runId ∧
    (status.isFinal = false ↔ ∃ p q run, t.service.find? runId = some (p, run) ∧
      p.published.status.isFinal = false ∧ t'.world.processes[run]? = some q ∧ q.IsGone) := by
  generalize hAnswer : Except.error (ServiceError.runFinished id status) = answer at h
  cases h with
  | ended hFind hOver =>
    cases hAnswer
    refine ⟨rfl, iff_of_false (by simp [hOver]) ?_⟩
    rintro ⟨q, q', run', hSame, hOpen, -⟩
    cases hFind.symm.trans hSame
    cases hOver.symm.trans hOpen
  | taken => cases hAnswer
  | gone hFind hOpen _ hRun hGone =>
    cases hAnswer
    exact ⟨rfl, iff_of_true hOpen ⟨_, _, _, hFind, hOpen, hRun, hGone⟩⟩
  | forgotten hFind hBefore hAfter =>
    rename_i t₁
    have hRefused := Except.error.inj hAnswer
    cases hState : (t₁.service.across t'.service).state runId with
    | error e =>
      rw [hState] at hRefused
      obtain rfl : ServiceError.runFinished id status = e := hRefused
      exact absurd hState Service.not_finished_of_state
    | ok snapshot =>
      rw [hState, Service.refusalOf] at hRefused
      split at hRefused
      · rename_i hFinal
        cases hRefused
        refine ⟨rfl, iff_of_false (by simp [hFinal]) ?_⟩
        rintro ⟨q, q', run', hSame, -⟩
        cases hFind.symm.trans hSame
      · cases hRefused

/-- When a command to a run that has begun is refused with a status of the end, the run has ended with
that status. -/
theorem Sends.status_eq (h : t.Sound) (hp : t.world.processes[run]? = some p)
    (hSends : Sends p.runId c t t' (.error (.runFinished id status)))
    (hFinal : status.isFinal = true) :
    ∃ q, t'.world.processes[run]? = some q ∧ q.runId = p.runId ∧
      q.scheduler.state.status = status := by
  obtain ⟨g, limit, hg, hReach⟩ := (h.runs run p hp).reached
  have hFound := h.find?_eq hp
  -- a snapshot of the end shows the status of the run ever after
  have hTold : ∀ {t₁ : Traffic} {q : Process} {s : Snapshot}, t₁.GoesOn run p q → s.Tells q →
      s.status.isFinal = true → q.runId = p.runId ∧ q.scheduler.state.status = s.status :=
    fun hGoes hTells hFinal => ⟨hGoes.steps.runId_eq hg hReach,
      congrArg (·.status) (hTells.final hFinal Course.scriptTime)⟩
  generalize hAnswer : Except.error (ServiceError.runFinished id status) = answer at hSends
  cases hSends with
  | ended hFind hOver hLater =>
    cases hAnswer
    obtain ⟨q, hq, hGoes⟩ := hLater.goesOn h hp
    refine ⟨q, hq, ?_⟩
    split at hFound
    · cases hFound.symm.trans hFind
      exact hTold hGoes ((h.runs run p hp).published.steps hg hReach hGoes.steps) hOver
    · cases hFound.symm.trans hFind
  | taken => cases hAnswer
  | gone hFind hOpen =>
    cases hAnswer
    cases hOpen.symm.trans hFinal
  | forgotten hFind hBefore hAfter =>
    rename_i t₁
    obtain ⟨p₁, hp₁, hGoes⟩ := hBefore.goesOn h hp
    obtain ⟨s, q, hq, hNext, hState, hTells, -⟩ := exists_state (hBefore.sound h) hp₁ hAfter
    rw [hGoes.steps.runId_eq hg hReach] at hState
    rw [hState] at hAnswer
    have hRefused := Except.error.inj hAnswer
    rw [Service.refusalOf] at hRefused
    split at hRefused
    · rename_i hEnd
      cases hRefused
      exact ⟨q, hq, hTold (hGoes.trans hNext) hTells hEnd⟩
    · cases hRefused

/-- A command is refused with a status that is not one of the end exactly if the run seemed unfinished
and nobody takes commands to it any more when the command is sent. In a service that does one thing
at a time these are the commands to unfinished runs whose scheduler has been lost. -/
theorem unfinished_iff_gone (runId id : String) (c : Command) (status : RunStatus) :
    (∀ t t', Sends runId c t t' (.error (.runFinished id status)) →
      id = runId ∧ (status.isFinal = false ↔ ∃ p q run, t.service.find? runId = some (p, run) ∧
        p.published.status.isFinal = false ∧ t'.world.processes[run]? = some q ∧ q.IsGone)) ∧
    ∀ s₀ s, Traffic.Starts ⟨s₀, fun _ => none, fun _ => false⟩ →
      Relation.ReflTransGen Service.Serves s₀ s →
      s.send runId c = .error (.runFinished id status) →
      id = runId ∧ (status.isFinal = false ↔ ∃ p run, s.find? runId = some (p, run) ∧
        p.published.status.isFinal = false ∧ p.phase = .lost) := by
  refine ⟨fun t t' hSends => hSends.finished, fun s₀ s hStart hServed hSend => ?_⟩
  have hNone : s₀.world.Shown := by
    intro run p hp
    rw [show s₀.world.processes = [] from hStart.processes] at hp
    cases hp
  have hShown : (⟨s, fun _ => none, fun _ => false⟩ : Traffic).world.Shown :=
    Service.shown_of_serves hServed hNone
  obtain ⟨hId, hIff⟩ := (Sends.of_send hShown hSend).finished
  refine ⟨hId, hIff.trans ⟨?_, ?_⟩⟩
  · rintro ⟨p, q, run, hFind, hOpen, hq, hGone⟩
    obtain ⟨hp, -⟩ := mem_knownRuns.mp (List.mem_of_find?_eq_some hFind)
    obtain rfl := Option.some.inj (hp.symm.trans hq)
    refine ⟨p, run, hFind, hOpen, hGone.resolve_right ?_⟩
    rintro ⟨-, hFinal⟩
    cases hFinal.symm.trans hOpen
  · rintro ⟨p, run, hFind, hOpen, hLost⟩
    obtain ⟨hp, -⟩ := mem_knownRuns.mp (List.mem_of_find?_eq_some hFind)
    exact ⟨p, p, run, hFind, hOpen, hp, .inl hLost⟩

end Traffic

/-! ## A run that is lost -/

namespace World

variable {w : World} {run : Nat} {p : Process} {a : Archive}

/-- A scheduler that has gone on is lost if the archive panics, and readers see the run as before. -/
theorem lost_of_followUp (hp : w.processes[run]? = some p) (hArchive : w.archive = some a)
    (hPanics : a.breakage = some .savesPanic) :
    (w.followUp run).processes[run]? = some { (p.grant w.now).1 with phase := .lost } := by
  unfold followUp
  rw [hp]
  dsimp only
  generalize hGranted : (p.grant w.now).2.foldl (fun w job => w.wake run job)
    (w.update run fun _ => (p.grant w.now).1) = granted
  have hScene := scene_foldl_wake (Task.mk run) (p.grant w.now).2
    (w.update run fun _ => (p.grant w.now).1)
  have hBeside := foldl_wake_beside (Task.mk run) (p.grant w.now).2
    (w.update run fun _ => (p.grant w.now).1)
  rw [hGranted] at hScene hBeside
  have hThere : granted.processes[run]? = some (p.grant w.now).1 := by
    rw [processes_of_scene hScene, getElem?_update, hp]
    rfl
  split
  · rw [getElem?_update, hThere]
    rfl
  · unfold publish
    rw [hThere, show granted.archive = some a from hBeside.archive.trans hArchive]
    simp only [Archive.save?, hPanics]
    rw [getElem?_update, show ({ granted with saves := _ } : World).processes[run]? = _ from hThere]
    rfl

/-- A run that begins is lost if the archive panics, and readers see it as it was begun. -/
theorem lost_of_panic (hp : w.processes[run]? = some p) (hFresh : p.phase = .fresh)
    (hg : p.graph.Sound) (hArchive : w.archive = some a) (hPanics : a.breakage = some .savesPanic) :
    ∃ q, (w.pollScheduler run).processes[run]? = some q ∧ q.phase = .lost ∧ q.face = p.face ∧
      q.runId = p.runId := by
  have hLaunched : (w.update run fun p => p.launch w.instant).processes[run]? =
      some (p.launch w.instant) := by
    rw [getElem?_update, hp]
    rfl
  have hLost := lost_of_followUp hLaunched hArchive hPanics
  refine ⟨{ ((p.launch w.instant).grant w.now).1 with phase := .lost }, ?_, rfl, rfl,
    Scheduler.runId_launch hg { p.scheduler with now := w.instant }⟩
  unfold pollScheduler
  rw [hp]
  dsimp only
  rw [if_pos hFresh, readInbox, hLost]
  exact hLost

end World

namespace Traffic

/-- A service finds the runs that it knows by their ids. -/
theorem find?_of_serves {s₀ s : Service} {run : Nat} {p : Process}
    (hStart : Starts ⟨s₀, fun _ => none, fun _ => false⟩)
    (hServed : Relation.ReflTransGen Service.Serves s₀ s) (hp : s.world.processes[run]? = some p)
    (hKnown : p.known = true) : s.find? p.runId = some (p, run) := by
  obtain ⟨vouched, hSteps⟩ := Service.exists_traffic hServed rfl hStart.taken
  have hFind := (hSteps.sound hStart.sound).find?_eq hp
  rwa [hKnown, if_pos rfl] at hFind

/-- A service whose archive panics, and in which nothing has begun. -/
def panicking : Service :=
  ⟨World.initial Course.scriptTime (.scripts []) (some ⟨.empty, some .savesPanic⟩), .standard⟩

/-- A workflow in which nothing is to be done. -/
def idle : Definition :=
  ⟨none, "workflow", none, Definition.defaultVersion, [],
    [.plain "start" .start [], .plain "end" .finish ["start"]], none⟩

theorem starts_panicking : Starts ⟨panicking, fun _ => none, fun _ => false⟩ where
  processes := rfl
  taken _ := rfl
  vouched _ := rfl
  loads := by
    rintro a ⟨⟩
    nofun
  distinct := by
    rintro a ⟨⟩
    exact List.nodup_nil

/-- A run is begun in a service whose archive panics, and at its first turn it is lost; it is shown as
running before and after that. -/
theorem exists_lost : ∃ s₁ s₂ p q, Service.Serves panicking s₁ ∧ Service.Serves s₁ s₂ ∧
    s₁.find? "run" = some (p, 0) ∧ p.published.status = .running ∧
    s₂.find? "run" = some (q, 0) ∧ q.published.status = .running ∧ q.phase = .lost := by
  have hCompile : (Graph.compile false idle.steps).toOption.isSome = true := by decide +kernel
  obtain ⟨g, hCompile⟩ : ∃ g, Graph.compile false idle.steps = .ok g := by
    cases h : Graph.compile false idle.steps with
    | ok g => exact ⟨g, rfl⟩
    | error e =>
      rw [h] at hCompile
      cases hCompile
  have hNew : panicking.IsNew "run" := ⟨by rintro p ⟨⟩, by rintro a ⟨⟩; rfl⟩
  let state := RunState.initial g "run" idle.workflowId idle.name .null idle.vars
    panicking.world.instant
  let limit := (panicking.settings.forWorkflow idle).maxConcurrentSteps
  let first := Process.initial g (Scheduler.initial state none) limit
  let begun : Service :=
    { panicking with world := panicking.world.submit g (Scheduler.initial state none) limit }
  have hSubmit : panicking.submit "run" idle .null = .ok begun := by
    unfold Service.submit
    rw [show panicking.settings.allowOrphans = false from rfl, hCompile]
    rfl
  have hBegun : Service.Serves panicking begun := .submit hNew hSubmit
  -- the scheduler of the run is the first in the queue
  let waiting : World := { begun.world with queue := [] }
  have hTurn : Service.Serves begun { begun with world := waiting.pollScheduler 0 } := .turn rfl
  have hFirst := Relation.ReflTransGen.single hBegun
  have hFound : begun.find? "run" = some (first, 0) :=
    find?_of_serves (p := first) starts_panicking hFirst rfl rfl
  have hWaits : waiting.processes[0]? = some first := rfl
  obtain ⟨q, hq, hLost, hFace, hId⟩ :=
    World.lost_of_panic hWaits rfl (Graph.sound_of_compile hCompile) rfl rfl
  obtain ⟨hPublished, hKnown⟩ := Prod.mk.inj hFace
  have hFind := find?_of_serves starts_panicking (hFirst.tail hTurn) hq hKnown
  rw [hId] at hFind
  exact ⟨begun, _, first, q, hBegun, hTurn, hFound, rfl, hFind, congrArg (·.status) hPublished, hLost⟩

/-- A command to a run that is shown as running after it was lost is refused as finished. -/
theorem send_of_lost {s : Service} {run : Nat} {p : Process} {runId : String} (c : Command)
    (hFind : s.find? runId = some (p, run)) (hRunning : p.published.status = .running)
    (hLost : p.phase = .lost) : s.send runId c = .error (.runFinished runId .running) := by
  have hp : s.world.processes[run]? = some p :=
    (mem_knownRuns.mp (List.mem_of_find?_eq_some hFind)).1
  simp [Service.send, hFind, hRunning, RunStatus.isFinal, World.command, hp, hLost, Phase.isActive]

/-- Whether somebody looks at a run before or after it is lost, a command that he then sends to it is
refused with the status of a run under way, and it is gone. -/
theorem gone_of_lost :
    (∃ t t', Sends "run" .stop t t' (.error (.runFinished "run" .running)) ∧
      ∃ p q run, t.service.find? "run" = some (p, run) ∧ p.published.status.isFinal = false ∧
        t'.world.processes[run]? = some q ∧ q.IsGone) ∧
    ∃ s₀ s, Starts ⟨s₀, fun _ => none, fun _ => false⟩ ∧
      Relation.ReflTransGen Service.Serves s₀ s ∧
      s.send "run" .stop = .error (.runFinished "run" .running) ∧
      ∃ p run, s.find? "run" = some (p, run) ∧ p.published.status.isFinal = false ∧
        p.phase = .lost := by
  obtain ⟨s₁, s₂, p, q, hBegun, hTurn, hFirst, hBefore, hFind, hRunning, hLost⟩ := exists_lost
  constructor
  · obtain ⟨vouched, hSteps⟩ := hTurn.exists_steps (t := ⟨s₁, fun _ => none, fun _ => false⟩) rfl
      fun _ => rfl
    have hq := (mem_knownRuns.mp (List.mem_of_find?_eq_some hFind)).1
    have hGone : Sends "run" .stop _ _ (.error (.runFinished "run" p.published.status)) :=
      .gone hFirst (by rw [hBefore]; rfl) hSteps hq (.inl hLost)
    rw [hBefore] at hGone
    exact ⟨_, _, hGone, ((unfinished_iff_gone _ _ _ _).1 _ _ hGone).2.mp rfl⟩
  · have hServed := (Relation.ReflTransGen.single hBegun).tail hTurn
    have hSend := send_of_lost .stop hFind hRunning hLost
    exact ⟨panicking, s₂, starts_panicking, hServed, hSend,
      ((unfinished_iff_gone _ _ _ _).2 _ _ starts_panicking hServed hSend).2.mp rfl⟩

/-- A command to a run can be refused as finished with the status of a run under way. -/
theorem finished_of_running : ∃ s₀ s status, Starts ⟨s₀, fun _ => none, fun _ => false⟩ ∧
    Relation.ReflTransGen Service.Serves s₀ s ∧
    s.send "run" .stop = .error (.runFinished "run" status) ∧ status.isFinal = false := by
  obtain ⟨s₁, s₂, p, q, hBegun, hTurn, -, -, hFind, hRunning, hLost⟩ := exists_lost
  exact ⟨panicking, s₂, .running, starts_panicking, (Relation.ReflTransGen.single hBegun).tail hTurn,
    send_of_lost .stop hFind hRunning hLost, rfl⟩

end Traffic

end Workflow

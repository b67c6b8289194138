/-
Workflow.Proofs.Engine.Traffic — a service whose runs go on side by side.

Runs go on at the same time, and so do those who begin, command, watch and
await them. What happens to one of them may come between any two things
that happen to another. What takes more than one step can be interrupted:
a scheduler hands a snapshot to the archive and shows it to readers later;
whoever looks after a run whose scheduler has come to its end looks for
that end in the archive, and forgets the run later. The archive may fail
to save and to list, at one time and not at another; but it can always be
loaded from, and then it gives what was saved last.

* `Traffic`, `Traffic.Step` — a service with what its tasks have in hand,
  and one step of it.
* `Snapshot.Tells` — a snapshot that has been taken of a run.
* `Traffic.Sound`, `Step.sound` — what is always true.
* `Step.goesOn` — what happens to a run in a step.
-/
import Mathlib.Logic.Function.Basic
import Workflow.Proofs.Engine.Lasting
import Workflow.Proofs.Engine.Turns

namespace Workflow

/-- Neither a run nor the archive of a service has come across an id. -/
def Service.IsNew (s : Service) (runId : String) : Prop :=
  (∀ p ∈ s.world.processes, p.runId ≠ runId) ∧
    ∀ a, s.world.archive = some a → a.store.load runId = none

/-- A service with what its tasks have in hand. -/
structure Traffic where
  service : Service
  /-- The snapshot of a run that its scheduler has handed to the archive and not yet shown. -/
  taken : Nat → Option Snapshot
  /-- Whether the end of a run has been found in the archive. -/
  vouched : Nat → Bool

namespace Traffic

/-- The runs and the archive. -/
def world (t : Traffic) : World := t.service.world

/-- The runs and the archive have changed. -/
def withWorld (t : Traffic) (w : World) : Traffic :=
  { t with service := { t.service with world := w } }

/-- The archive, if there is one, after a snapshot has been handed to it; nothing if it panics. -/
def handed? (archive : Option Archive) (s : Snapshot) : Option (Option Archive) :=
  match archive with
  | none => some none
  | some a => (a.save? s).map some

/-- One step of a service whose runs go on side by side. -/
inductive Step (t : Traffic) : Traffic → Prop
  /-- A run begins under an id that nobody has come across. -/
  | submit {runId : String} {d : Definition} {input : Json} {s : Service} (hNew : t.service.IsNew runId)
      (hSubmit : t.service.submit runId d input = .ok s) : Step t { t with service := s }
  /-- Runs go on by themselves or take commands; nothing is saved, shown or forgotten. -/
  | goOn {w : World} (hArchive : w.archive = t.world.archive)
      (hCount : w.processes.length = t.world.processes.length)
      (hGoOn : ∀ (run : Nat) (p : Process), t.world.processes[run]? = some p →
        ∃ q, w.processes[run]? = some q ∧ Process.Steps p q ∧
          q.published = p.published ∧ q.known = p.known) : Step t (t.withWorld w)
  /-- A scheduler takes a snapshot and hands it to the archive, if there is one. -/
  | save {run : Nat} {p : Process} {archive : Option Archive} (now : Instant)
      (hRun : t.world.processes[run]? = some p) (hFree : t.taken run = none)
      (hSave : handed? t.world.archive (p.snapshot now) = some archive) :
      Step t { t.withWorld { t.world with archive } with
        taken := Function.update t.taken run (some (p.snapshot now)) }
  /-- It shows the snapshot to readers. -/
  | publish {run : Nat} {s : Snapshot} (hTaken : t.taken run = some s) :
      Step t { t.withWorld (t.world.update run fun p => { p with published := s }) with
        taken := Function.update t.taken run none }
  /-- When a scheduler has come to its end, the archive is seen to know its run as it ended. -/
  | vouch {run : Nat} {p : Process} {a : Archive} {stored : Snapshot}
      (hRun : t.world.processes[run]? = some p) (hEnded : p.phase = .ended)
      (hFree : t.taken run = none) (hArchive : t.world.archive = some a)
      (hLoad : a.load p.runId = .ok (some stored))
      (hSame : stored.status = p.scheduler.state.status) :
      Step t { t with vouched := Function.update t.vouched run true }
  /-- After that the run is forgotten. -/
  | retire {run : Nat} (hVouched : t.vouched run = true) :
      Step t (t.withWorld (t.world.update run fun p => { p with known := false }))
  /-- The archive breaks down or is mended, but it can be loaded from. -/
  | disturb {a : Archive} (breakage : Option Breakage) (hLoads : breakage ≠ some .loadsFail)
      (hArchive : t.world.archive = some a) :
      Step t (t.withWorld { t.world with archive := some { a with breakage } })

/-- Some steps. -/
abbrev Steps : Traffic → Traffic → Prop := Relation.ReflTransGen Step

/-- One run goes on, and nothing else happens. -/
theorem Step.goOn_run {t : Traffic} {run : Nat} {p q : Process}
    (hp : t.world.processes[run]? = some p) (hSteps : Process.Steps p q)
    (hPublished : q.published = p.published) (hKnown : q.known = p.known) :
    Step t (t.withWorld (t.world.update run fun _ => q)) := by
  refine .goOn rfl (List.length_modify ..) fun other r hr => ?_
  by_cases hSame : run = other
  · subst hSame
    obtain rfl := Option.some.inj (hp.symm.trans hr)
    exact ⟨q, by rw [World.getElem?_update, hp]; rfl, hSteps, hPublished, hKnown⟩
  · refine ⟨r, ?_, .refl, rfl, rfl⟩
    simpa [World.update, hSame] using hr

end Traffic

/-! ## Snapshots of a run -/

/-- A snapshot tells of a run: it has been taken of it, and if it shows the end, then the run has ended
like that. -/
structure Snapshot.Tells (s : Snapshot) (p : Process) : Prop where
  runId : s.runId = p.runId
  final : s.status.isFinal = true → ∀ now, p.snapshot now = { s with updatedAt := now }

namespace Snapshot

variable {g : Graph} {limit : Nat} {p q : Process} {s s' : Snapshot}

theorem tells_snapshot (p : Process) (now : Instant) : (p.snapshot now).Tells p :=
  ⟨rfl, fun _ _ => rfl⟩

theorem Tells.isFinal (h : s.Tells p) (hFinal : s.status.isFinal = true) : p.isFinal = true := by
  have hSame := congrArg (fun s => s.status.isFinal) (h.final hFinal s.updatedAt)
  exact hSame.trans hFinal

/-- However the run goes on, the snapshot tells of it. -/
theorem Tells.steps (hg : g.Sound) (hReach : Process.Reached g limit p) (h : s.Tells p)
    (hSteps : Process.Steps p q) : s.Tells q where
  runId := h.runId.trans (hSteps.runId_eq hg hReach).symm
  final hFinal now := by
    have hAfter := hReach.windsUp hg (h.isFinal hFinal) hSteps
    exact (hAfter.same now).trans (h.final hFinal now)

/-- Two snapshots of the end of a run are the same but for the times at which they were taken. -/
theorem Tells.same (h : s.Tells p) (h' : s'.Tells p) (hFinal : s.status.isFinal = true)
    (hFinal' : s'.status.isFinal = true) : s' = { s with updatedAt := s'.updatedAt } :=
  (h'.final hFinal' s'.updatedAt).symm.trans (h.final hFinal s'.updatedAt)

end Snapshot

/-! ## The archive -/

theorem MemoryStore.load_save (m : MemoryStore) (s : Snapshot) (runId : String) :
    (m.save s).load runId = if s.runId = runId then some s else m.load runId :=
  Dict.find?_insert m.snapshots s.runId s runId

/-- An archive that does not panic has the snapshot afterwards, or it is as it was. -/
theorem Archive.save?_cases {a a' : Archive} {s : Snapshot} (h : a.save? s = some a') :
    a' = a ∨ a' = { a with store := a.store.save s } := by
  unfold save? at h
  split at h
  · cases h
  · exact .inl (Option.some.inj h).symm
  · exact .inr (Option.some.inj h).symm

theorem Archive.load_eq {a : Archive} (h : a.breakage ≠ some .loadsFail) (runId : String) :
    a.load runId = .ok (a.store.load runId) :=
  if_neg h

namespace Traffic

/-! ## What is always true -/

/-- What is always true of a run: its snapshots tell of it, whether they are shown, on their way or in
the archive; what is on its way is not behind what is shown; and a run that is forgotten has been
vouched for, so that the archive has its end. -/
structure RunSound (t : Traffic) (run : Nat) (p : Process) : Prop where
  reached : ∃ g limit, Graph.Sound g ∧ Process.Reached g limit p
  published : p.published.Tells p
  taken : ∀ s, t.taken run = some s →
    s.Tells p ∧ (p.published.status.isFinal = true → s.status.isFinal = true)
  stored : ∀ a s, t.world.archive = some a → a.store.load p.runId = some s → s.Tells p
  vouched : t.vouched run = true → ∃ a s, t.world.archive = some a ∧
    a.store.load p.runId = some s ∧ s.status.isFinal = true
  retired : p.known = false → t.vouched run = true

/-- What is always true. -/
structure Sound (t : Traffic) : Prop where
  loads : ∀ a, t.world.archive = some a → a.breakage ≠ some .loadsFail
  distinct : ∀ a, t.world.archive = some a → (Dict.keys a.store.snapshots).Nodup
  ids : (t.world.processes.map Process.runId).Nodup
  idle : ∀ run, t.world.processes.length ≤ run → t.taken run = none ∧ t.vouched run = false
  runs : ∀ run p, t.world.processes[run]? = some p → t.RunSound run p

variable {t t' : Traffic} {run : Nat} {p q : Process}

/-- No two runs have the same id. -/
theorem Sound.run_eq (h : t.Sound) {run' : Nat} (hp : t.world.processes[run]? = some p)
    (hq : t.world.processes[run']? = some q) (hSame : p.runId = q.runId) : run = run' := by
  have hId : (t.world.processes.map Process.runId)[run]? = some p.runId := by simp [hp]
  have hId' : (t.world.processes.map Process.runId)[run']? = some p.runId := by simp [hq, hSame]
  obtain ⟨hBound, -⟩ := List.getElem?_eq_some_iff.mp hId
  exact (List.getElem?_inj hBound h.ids).mp (hId.trans hId'.symm)

/-- What happens to a run in a step: it goes on, and what is always true stays so; a run that is
forgotten does not come back, and an end that is shown stays shown. -/
structure GoesOn (t' : Traffic) (run : Nat) (p q : Process) : Prop where
  steps : Process.Steps p q
  sound : t'.RunSound run q
  known : q.known = true → p.known = true
  shown : p.published.status.isFinal = true → q.published.status.isFinal = true

/-- A run goes on by itself, and nobody else does anything for it. -/
theorem RunSound.goesOn (h : t.RunSound run p) (hSteps : Process.Steps p q)
    (hPublished : q.published = p.published) (hKnown : q.known = p.known)
    (hTaken : t'.taken run = t.taken run) (hVouched : t'.vouched run = t.vouched run)
    (hArchive : t'.world.archive = t.world.archive) : t'.GoesOn run p q := by
  obtain ⟨g, limit, hg, hReach⟩ := h.reached
  have hId := hSteps.runId_eq hg hReach
  refine ⟨hSteps, ?_, fun h => hKnown ▸ h, fun h => hPublished ▸ h⟩
  constructor
  · exact ⟨g, limit, hg, hReach.steps hSteps⟩
  · rw [hPublished]
    exact h.published.steps hg hReach hSteps
  · intro s hs
    rw [hTaken] at hs
    rw [hPublished]
    exact ⟨(h.taken s hs).1.steps hg hReach hSteps, (h.taken s hs).2⟩
  · intro a s ha hs
    rw [hArchive] at ha
    rw [hId] at hs
    exact (h.stored a s ha hs).steps hg hReach hSteps
  · rw [hVouched, hArchive, hId]
    exact h.vouched
  · rw [hVouched, hKnown]
    exact h.retired

theorem RunSound.stays (h : t.RunSound run p) (hTaken : t'.taken run = t.taken run)
    (hVouched : t'.vouched run = t.vouched run) (hArchive : t'.world.archive = t.world.archive) :
    t'.GoesOn run p p :=
  h.goesOn .refl rfl rfl hTaken hVouched hArchive

/-- What an archive knows of a run after somebody's snapshot has been handed to it. -/
theorem load_of_save {archive archive' : Option Archive} {s : Snapshot}
    (hSave : handed? archive s = some archive') {a' : Archive}
    (ha' : archive' = some a') : ∃ a, archive = some a ∧ a'.breakage = a.breakage ∧
      (a'.store = a.store ∨ a'.store = a.store.save s) := by
  subst ha'
  cases archive with
  | none => cases hSave
  | some a =>
    obtain ⟨b, hb, hSome⟩ := Option.map_eq_some_iff.mp hSave
    obtain rfl := Option.some.inj hSome
    rcases Archive.save?_cases hb with rfl | rfl
    · exact ⟨b, rfl, rfl, .inl rfl⟩
    · exact ⟨a, rfl, rfl, .inr rfl⟩

theorem isSome_of_save {archive archive' : Option Archive} {s : Snapshot}
    (hSave : handed? archive s = some archive') (hSome : archive.isSome) :
    ∃ a', archive' = some a' := by
  obtain ⟨a, rfl⟩ := Option.isSome_iff_exists.mp hSome
  obtain ⟨b, -, hb⟩ := Option.map_eq_some_iff.mp hSave
  exact ⟨b, hb.symm⟩

/-- A scheduler has handed a snapshot to the archive. -/
theorem goesOn_save (h : t.Sound) {run' : Nat} {p' : Process} {archive : Option Archive}
    {now : Instant} (hRun' : t.world.processes[run']? = some p')
    (hSave : handed? t.world.archive (p'.snapshot now) = some archive)
    (hp : t.world.processes[run]? = some p) :
    GoesOn { t.withWorld { t.world with archive } with
      taken := Function.update t.taken run' (some (p'.snapshot now)) } run p p := by
  have hSound := h.runs run p hp
  -- what the archive holds of this run is what it held, or the new snapshot if that is of this run
  have hLoad : ∀ a', archive = some a' → ∃ a, t.world.archive = some a ∧
      (a'.store.load p.runId = a.store.load p.runId ∨
        p' = p ∧ a'.store.load p.runId = some (p'.snapshot now)) := by
    intro a' ha'
    obtain ⟨a, ha, -, hStore | hStore⟩ := load_of_save hSave ha'
    · exact ⟨a, ha, .inl (by rw [hStore])⟩
    · refine ⟨a, ha, ?_⟩
      rw [hStore, MemoryStore.load_save]
      by_cases hSame : (p'.snapshot now).runId = p.runId
      · rw [if_pos hSame]
        obtain rfl := h.run_eq hRun' hp hSame
        exact .inr ⟨Option.some.inj (hRun'.symm.trans hp), rfl⟩
      · exact .inl (if_neg hSame)
  refine ⟨.refl, ⟨hSound.reached, hSound.published, fun s hs => ?_, fun a' s ha' hs => ?_,
    fun hVouched => ?_, hSound.retired⟩, id, id⟩
  · by_cases hSame : run = run'
    · subst hSame
      obtain rfl : p' = p := Option.some.inj (hRun'.symm.trans hp)
      obtain rfl : p'.snapshot now = s := by simpa using hs
      exact ⟨Snapshot.tells_snapshot p' now, hSound.published.isFinal⟩
    · exact hSound.taken s (by simpa [hSame] using hs)
  · obtain ⟨a, ha, hOld | ⟨rfl, hNew⟩⟩ := hLoad a' ha'
    · exact hSound.stored a s ha (hOld ▸ hs)
    · obtain rfl := Option.some.inj (hNew.symm.trans hs)
      exact Snapshot.tells_snapshot p' now
  · obtain ⟨a, s, ha, hs, hFinal⟩ := hSound.vouched hVouched
    obtain ⟨a', ha'⟩ := isSome_of_save hSave (by rw [ha]; rfl)
    obtain ⟨b, hb, hOld | ⟨rfl, hNew⟩⟩ := hLoad a' ha'
    · obtain rfl := Option.some.inj (ha.symm.trans hb)
      exact ⟨a', s, ha', hOld.trans hs, hFinal⟩
    · exact ⟨a', _, ha', hNew, (hSound.stored a s ha hs).isFinal hFinal⟩

theorem getElem?_update_of_ne {w : World} {run' : Nat} (h : run' ≠ run) (f : Process → Process) :
    (w.update run' f).processes[run]? = w.processes[run]? := by
  simp [World.update, h]

/-- Readers are shown the snapshot that is on its way. -/
theorem goesOn_publish (h : t.Sound) {s : Snapshot} (hTaken : t.taken run = some s)
    (hp : t.world.processes[run]? = some p) :
    GoesOn { t.withWorld (t.world.update run fun p => { p with published := s }) with
      taken := Function.update t.taken run none } run p { p with published := s } := by
  have hSound := h.runs run p hp
  obtain ⟨g, limit, hg, hReach⟩ := hSound.reached
  obtain ⟨hTells, hLater⟩ := hSound.taken s hTaken
  have hStep : Process.Step p { p with published := s } := .inform s p.known
  refine ⟨.single hStep, ⟨⟨g, limit, hg, hReach.step hStep⟩, ?_, fun s' hs' => ?_,
    fun a s ha hs => (hSound.stored a s ha hs).steps hg hReach (.single hStep), hSound.vouched,
    hSound.retired⟩, id, hLater⟩
  · exact hTells.steps hg hReach (.single hStep)
  · simp at hs'

/-- The end of a run has been found in the archive. -/
theorem goesOn_vouch (h : t.Sound) {a : Archive} {stored : Snapshot}
    (hp : t.world.processes[run]? = some p) (hEnded : p.phase = .ended)
    (hArchive : t.world.archive = some a) (hLoad : a.load p.runId = .ok (some stored))
    (hSame : stored.status = p.scheduler.state.status) :
    GoesOn { t with vouched := Function.update t.vouched run true } run p p := by
  have hSound := h.runs run p hp
  obtain ⟨g, limit, hg, hReach⟩ := hSound.reached
  refine ⟨.refl, ⟨hSound.reached, hSound.published, hSound.taken, hSound.stored, fun _ => ?_,
    fun _ => ?_⟩, id, id⟩
  · rw [Archive.load_eq (h.loads a hArchive)] at hLoad
    have hFinal := hReach.final_of_ended hg hEnded
    exact ⟨a, stored, hArchive, Except.ok.inj hLoad, hSame ▸ hFinal⟩
  · exact Function.update_self run true t.vouched

/-- A run that has been vouched for is forgotten. -/
theorem goesOn_retire (h : t.Sound) (hVouched : t.vouched run = true)
    (hp : t.world.processes[run]? = some p) :
    GoesOn (t.withWorld (t.world.update run fun p => { p with known := false })) run p
      { p with known := false } := by
  have hSound := h.runs run p hp
  obtain ⟨g, limit, hg, hReach⟩ := hSound.reached
  have hStep : Process.Step p { p with known := false } := .inform p.published false
  exact ⟨.single hStep, ⟨⟨g, limit, hg, hReach.step hStep⟩,
    hSound.published.steps hg hReach (.single hStep),
    fun s hs => ⟨(hSound.taken s hs).1.steps hg hReach (.single hStep), (hSound.taken s hs).2⟩,
    fun a s ha hs => (hSound.stored a s ha hs).steps hg hReach (.single hStep),
    hSound.vouched, fun _ => hVouched⟩, nofun, id⟩

/-- A run that a service has begun is that of a compiled workflow, and the last one. -/
theorem submit_ok {s s' : Service} {runId : String} {d : Definition} {input : Json}
    (h : s.submit runId d input = .ok s') :
    ∃ g, Graph.compile s.settings.allowOrphans d.steps = .ok g ∧
      s'.world.processes = s.world.processes ++ [Process.initial g (Scheduler.initial
        (RunState.initial g runId d.workflowId d.name input d.vars s.world.instant)
          (s.settings.forWorkflow d).stepTimeout) (s.settings.forWorkflow d).maxConcurrentSteps] ∧
      s'.world.archive = s.world.archive := by
  unfold Service.submit at h
  split at h
  · cases h
  · rename_i g hCompile
    dsimp only at h
    split at h
    · cases h
    · cases h
      refine ⟨g, hCompile, ?_, ?_⟩
      · exact World.processes_of_scene (World.scene_wake _ _ _)
      · unfold World.submit World.wake
        dsimp only
        split <;> rfl

theorem goesOn_disturb (h : t.Sound) {a : Archive} (breakage : Option Breakage)
    (hArchive : t.world.archive = some a) (hp : t.world.processes[run]? = some p) :
    GoesOn (t.withWorld { t.world with archive := some { a with breakage } }) run p p := by
  have hSound := h.runs run p hp
  refine ⟨.refl, ⟨hSound.reached, hSound.published, hSound.taken, fun b s hb hs => ?_,
    fun hVouched => ?_, hSound.retired⟩, id, id⟩
  · cases hb
    exact hSound.stored a s hArchive hs
  · obtain ⟨b, s, hb, hs, hFinal⟩ := hSound.vouched hVouched
    obtain rfl := Option.some.inj (hArchive.symm.trans hb)
    exact ⟨_, s, rfl, hs, hFinal⟩

/-- Whatever happens in a step, runs go on. -/
theorem Step.goesOn (h : t.Sound) (hStep : Step t t') (hp : t.world.processes[run]? = some p) :
    ∃ q, t'.world.processes[run]? = some q ∧ t'.GoesOn run p q := by
  have hSound := h.runs run p hp
  -- a run to which something happens, and the others
  have hUpdate : ∀ (t' : Traffic) (run' : Nat) (f : Process → Process),
      t'.world = t.world.update run' f → (run' = run → t'.GoesOn run p (f p)) →
      (run' ≠ run → t'.taken run = t.taken run ∧ t'.vouched run = t.vouched run) →
      ∃ q, t'.world.processes[run]? = some q ∧ t'.GoesOn run p q := by
    intro t' run' f hWorld hIt hOthers
    rw [hWorld]
    by_cases hSame : run' = run
    · refine ⟨f p, ?_, hIt hSame⟩
      rw [hSame, World.getElem?_update, hp]
      rfl
    · obtain ⟨hTaken, hVouched⟩ := hOthers hSame
      refine ⟨p, ?_, hSound.stays hTaken hVouched (by rw [hWorld]; rfl)⟩
      rw [getElem?_update_of_ne hSame, hp]
  cases hStep with
  | submit hNew hSubmit =>
    obtain ⟨_, -, hProcesses, hArchive⟩ := submit_ok hSubmit
    obtain ⟨hBound, -⟩ := List.getElem?_eq_some_iff.mp hp
    refine ⟨p, ?_, hSound.stays rfl rfl hArchive⟩
    refine (congrArg (·[run]?) hProcesses).trans ?_
    exact (List.getElem?_append_left hBound).trans hp
  | goOn hArchive hCount hGoOn =>
    obtain ⟨q, hq, hSteps, hPublished, hKnown⟩ := hGoOn run p hp
    exact ⟨q, hq, hSound.goesOn hSteps hPublished hKnown rfl rfl hArchive⟩
  | save now hRun hFree hSave => exact ⟨p, hp, goesOn_save h hRun hSave hp⟩
  | publish hTaken =>
    rename_i run' s
    refine hUpdate _ run' _ rfl (fun hSame => ?_) fun hOther => ⟨?_, rfl⟩
    · subst hSame
      exact goesOn_publish h hTaken hp
    · exact Function.update_of_ne hOther.symm _ _
  | vouch hRun hEnded hFree hArchive hLoad hSame =>
    rename_i run' p' a stored
    refine ⟨p, hp, ?_⟩
    by_cases hIt : run' = run
    · subst hIt
      obtain rfl : p' = p := Option.some.inj (hRun.symm.trans hp)
      exact goesOn_vouch h hp hEnded hArchive hLoad hSame
    · exact hSound.stays rfl (Function.update_of_ne (Ne.symm hIt) _ _) rfl
  | retire hVouched =>
    rename_i run'
    refine hUpdate _ run' _ rfl (fun hSame => ?_) fun _ => ⟨rfl, rfl⟩
    subst hSame
    exact goesOn_retire h hVouched hp
  | disturb breakage hLoads hArchive => exact ⟨p, hp, goesOn_disturb h breakage hArchive hp⟩

/-- A run that begins. -/
theorem runSound_initial {g : Graph} (hg : g.Sound) {limit : Nat} {runId workflowId workflowName : String}
    {input : Json} {vars : Dict Json} {created : Instant} {stepTimeout : Option Duration}
    (hTaken : t.taken run = none) (hVouched : t.vouched run = false)
    (hArchive : ∀ a, t.world.archive = some a → a.store.load runId = none) :
    t.RunSound run (Process.initial g (Scheduler.initial
      (RunState.initial g runId workflowId workflowName input vars created) stepTimeout) limit) where
  reached := ⟨g, limit, hg, .start runId workflowId workflowName input vars created stepTimeout⟩
  published := ⟨rfl, fun _ _ => rfl⟩
  taken s hs := by
    rw [hTaken] at hs
    cases hs
  stored a s ha hs := by cases (hArchive a ha).symm.trans hs
  vouched h := by
    rw [hVouched] at h
    cases h
  retired h := by cases h

theorem Sound.submit (h : t.Sound) {runId : String} {d : Definition} {input : Json} {s : Service}
    (hNew : t.service.IsNew runId) (hSubmit : t.service.submit runId d input = .ok s) :
    Sound { t with service := s } := by
  obtain ⟨g, hCompile, hProcesses, hArchive⟩ := submit_ok hSubmit
  have hOlder : ∀ run p, t.world.processes[run]? = some p → GoesOn { t with service := s } run p p :=
    fun run p hp => (h.runs run p hp).stays rfl rfl hArchive
  constructor
  · exact fun a ha => h.loads a (hArchive.symm.trans ha)
  · exact fun a ha => h.distinct a (hArchive.symm.trans ha)
  · change (s.world.processes.map Process.runId).Nodup
    rw [hProcesses, List.map_append, List.nodup_append]
    refine ⟨h.ids, List.nodup_singleton _, fun id hId other hOther hSame => ?_⟩
    obtain ⟨p, hp, rfl⟩ := List.mem_map.mp hId
    exact hNew.1 p hp (hSame.trans (List.mem_singleton.mp hOther))
  · intro run hRun
    refine h.idle run (le_trans ?_ hRun)
    change t.service.world.processes.length ≤ s.world.processes.length
    rw [hProcesses, List.length_append]
    exact Nat.le_add_right _ _
  · intro run p hp
    change s.world.processes[run]? = some p at hp
    rw [hProcesses, List.getElem?_append] at hp
    split at hp
    · exact (hOlder run p hp).sound
    · rename_i hLast
      obtain rfl := List.mem_singleton.mp (List.mem_of_getElem? hp)
      obtain ⟨hTaken, hVouched⟩ := h.idle run (not_lt.mp hLast)
      exact runSound_initial (Graph.sound_of_compile hCompile) hTaken hVouched
        fun a ha => hNew.2 a (hArchive.symm.trans ha)

/-- A change in which all runs go on. -/
theorem Sound.change (h : t.Sound) (hCount : t'.world.processes.length = t.world.processes.length)
    (hGoOn : ∀ run p, t.world.processes[run]? = some p →
      ∃ q, t'.world.processes[run]? = some q ∧ t'.GoesOn run p q)
    (hIdle : ∀ run, t.world.processes.length ≤ run →
      t'.taken run = t.taken run ∧ t'.vouched run = t.vouched run)
    (hArchive : ∀ a', t'.world.archive = some a' →
      a'.breakage ≠ some .loadsFail ∧ (Dict.keys a'.store.snapshots).Nodup) : t'.Sound where
  loads a' ha' := (hArchive a' ha').1
  distinct a' ha' := (hArchive a' ha').2
  ids := by
    have hSame : t'.world.processes.map Process.runId = t.world.processes.map Process.runId := by
      refine List.ext_getElem? fun run => ?_
      rw [List.getElem?_map, List.getElem?_map]
      cases hp : t.world.processes[run]? with
      | none =>
        rw [List.getElem?_eq_none_iff, ← hCount, ← List.getElem?_eq_none_iff] at hp
        rw [hp]
      | some p =>
        obtain ⟨q, hq, hGoes⟩ := hGoOn run p hp
        obtain ⟨g, limit, hg, hReach⟩ := (h.runs run p hp).reached
        rw [hq]
        exact congrArg some (hGoes.steps.runId_eq hg hReach)
    rw [hSame]
    exact h.ids
  idle run hRun := by
    rw [hCount] at hRun
    obtain ⟨hTaken, hVouched⟩ := hIdle run hRun
    obtain ⟨hTaken', hVouched'⟩ := h.idle run hRun
    exact ⟨hTaken.trans hTaken', hVouched.trans hVouched'⟩
  runs run q hq := by
    obtain ⟨hBound, -⟩ := List.getElem?_eq_some_iff.mp hq
    obtain ⟨r, hr, hGoes⟩ := hGoOn run _ (List.getElem?_eq_getElem (hCount ▸ hBound))
    obtain rfl := Option.some.inj (hr.symm.trans hq)
    exact hGoes.sound

/-- What is always true stays true. -/
theorem Step.sound (h : t.Sound) (hStep : Step t t') : t'.Sound := by
  have hGoOn : ∀ run p, t.world.processes[run]? = some p →
      ∃ q, t'.world.processes[run]? = some q ∧ t'.GoesOn run p q := fun _ _ hp => hStep.goesOn h hp
  have hArchive : ∀ a, t.world.archive = some a →
      a.breakage ≠ some .loadsFail ∧ (Dict.keys a.store.snapshots).Nodup :=
    fun a ha => ⟨h.loads a ha, h.distinct a ha⟩
  -- what is in hand for a run changes only if there is such a run
  have hOther : ∀ {α : Type} (f : Nat → α) (run' : Nat) (x : α), run' < t.world.processes.length →
      ∀ run, t.world.processes.length ≤ run → Function.update f run' x run = f run :=
    fun f run' x hRun' run hRun => Function.update_of_ne (by omega) _ _
  cases hStep with
  | submit hNew hSubmit => exact h.submit hNew hSubmit
  | goOn hSame hCount =>
    exact h.change hCount hGoOn (fun _ _ => ⟨rfl, rfl⟩) fun a ha => hArchive a (hSame.symm.trans ha)
  | save now hRun hFree hSave =>
    obtain ⟨hBound, -⟩ := List.getElem?_eq_some_iff.mp hRun
    refine h.change rfl hGoOn (fun run hOut => ⟨hOther _ _ _ hBound run hOut, rfl⟩) fun a' ha' => ?_
    obtain ⟨a, ha, hBreakage, hStore⟩ := load_of_save hSave ha'
    obtain ⟨hLoads, hKeys⟩ := hArchive a ha
    refine ⟨hBreakage ▸ hLoads, ?_⟩
    rcases hStore with hStore | hStore
    · rw [hStore]
      exact hKeys
    · rw [hStore]
      exact Dict.nodup_keys_insert hKeys _ _
  | publish hTaken =>
    rename_i run' s
    have hBound : run' < t.world.processes.length := by
      by_contra hOut
      cases (h.idle run' (not_lt.mp hOut)).1.symm.trans hTaken
    exact h.change (List.length_modify ..) hGoOn
      (fun run hOut => ⟨hOther _ _ _ hBound run hOut, rfl⟩) hArchive
  | vouch hRun =>
    obtain ⟨hBound, -⟩ := List.getElem?_eq_some_iff.mp hRun
    exact h.change rfl hGoOn (fun run hOut => ⟨rfl, hOther _ _ _ hBound run hOut⟩) hArchive
  | retire => exact h.change (List.length_modify ..) hGoOn (fun _ _ => ⟨rfl, rfl⟩) hArchive
  | disturb breakage hLoads ha =>
    refine h.change rfl hGoOn (fun _ _ => ⟨rfl, rfl⟩) fun b hb => ?_
    cases hb
    exact ⟨hLoads, (hArchive _ ha).2⟩

end Traffic

end Workflow

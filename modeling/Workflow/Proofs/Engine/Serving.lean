/-
Workflow.Proofs.Engine.Serving — whatever a service does is traffic.

A service does one thing at a time: it answers a call, or it lets the first
in its queue go on. Each of these is some steps of a service whose runs go
on side by side, and nothing is in hand when it is done. So a service that
has been called any number of times, in any order, and with any number of
turns between two calls, stands as some traffic leaves it.

* `World.Carries` — from one world to another, everything that happens is
  traffic.
* `World.carries_takesIn`, `runUntil_carries` — what goes on by itself.
* `Service.Serves` — one thing that a service does.
* `Service.exists_traffic` — the main result.
-/
import Workflow.Proofs.Engine.Traffic

namespace Workflow

namespace World

/-- From one world to another everything that happens is traffic, with nothing in hand before and
after it. -/
def Carries (w w' : World) : Prop :=
  ∀ t : Traffic, t.world = w → (∀ run, t.taken run = none) →
    ∃ vouched, Traffic.Steps t { t.withWorld w' with vouched }

variable {w w' : World} {run token : Nat}

theorem Carries.trans {w'' : World} (h : w.Carries w') (hNext : w'.Carries w'') : w.Carries w'' := by
  intro t hWorld hNone
  obtain ⟨vouched, hSteps⟩ := h t hWorld hNone
  obtain ⟨vouched', hMore⟩ := hNext { t.withWorld w' with vouched } rfl hNone
  exact ⟨vouched', hSteps.trans hMore⟩

/-- Runs go on, and nothing of it is seen. -/
theorem Unfolds.carries (h : w.Unfolds w') (hFront : w'.front = w.front) : w.Carries w' := by
  rintro t rfl -
  refine ⟨t.vouched, .single (.goOn (congrArg Prod.fst hFront) h.count fun run p hp => ?_)⟩
  obtain ⟨q, hq, hBeats⟩ := h.goOn run p hp
  have hFaces := congrArg (fun x => x.2[run]?) hFront
  simp only [front, List.getElem?_map, hp, hq, Option.map_some, Option.some.injEq] at hFaces
  obtain ⟨hPublished, hKnown⟩ := Prod.mk.inj hFaces
  exact ⟨q, hq, hBeats.steps, hPublished, hKnown⟩

theorem carries_of_eq (hScene : w'.scene = w.scene) (hArchive : w'.archive = w.archive) :
    w.Carries w' :=
  (evolves_of_eq hScene).unfolds.carries
    (Prod.ext hArchive (congrArg (List.map Process.face) (processes_of_scene hScene)))

/-! ## Schedulers -/

/-- A snapshot is handed to the archive, which does not panic, and then it is shown. -/
theorem shown_carries {p : Process} {now : Instant} {archive : Option Archive}
    (hp : w.processes[run]? = some p)
    (hSave : Traffic.handed? w.archive (p.snapshot now) = some archive) (saves : List Snapshot) :
    w.Carries ({ w with archive, saves }.update run fun q => { q with published := p.snapshot now }) := by
  rintro t rfl hNone
  have hNoted : Traffic.Step t (t.withWorld { t.world with saves }) :=
    .goOn rfl rfl fun _ q hq => ⟨q, hq, .refl, rfl, rfl⟩
  have hSaved := Traffic.Step.save (t := t.withWorld { t.world with saves }) now hp (hNone run) hSave
  have hShown := Traffic.Step.publish (t := { t.withWorld { t.world with archive, saves } with
    taken := Function.update t.taken run (some (p.snapshot now)) }) (Function.update_self _ _ _)
  have hTaken : Function.update (Function.update t.taken run (some (p.snapshot now))) run none =
      t.taken := by
    rw [Function.update_idem, ← hNone run, Function.update_eq_self]
  have hSteps := ((Relation.ReflTransGen.single hNoted).tail hSaved).tail hShown
  rw [hTaken] at hSteps
  exact ⟨t.vouched, hSteps⟩

/-- Readers are shown the run as it stands, or the run is lost. -/
theorem publish_carries (h : w.HasBegun run) : w.Carries (w.publish run) := by
  unfold publish
  split
  · exact carries_of_eq rfl rfl
  · rename_i p hp
    dsimp only
    split
    · rename_i hNone
      have hSave : Traffic.handed? w.archive (p.snapshot w.instant) = some w.archive := by
        rw [hNone]
        rfl
      exact shown_carries hp hSave w.saves
    · rename_i a ha
      split
      · have hLost : w.Carries (w.update run fun p => { p with phase := .lost }) :=
          (evolves_step hp (.aside (.lose (h p hp)))).unfolds.carries (front_update fun _ _ => rfl)
        exact hLost.trans (carries_of_eq rfl rfl)
      · rename_i a' ha'
        have hSave : Traffic.handed? w.archive (p.snapshot w.instant) = some (some a') := by
          rw [ha, Traffic.handed?, ha']
          rfl
        exact shown_carries hp hSave _

/-- When a scheduler has come to its end, its run is looked for in the archive and forgotten. -/
theorem retire_carries (h : ∀ p, w.processes[run]? = some p → p.phase = .ended) :
    w.Carries (w.retire run) := by
  rintro t rfl hNone
  unfold retire
  split
  · rename_i p a hp ha
    split
    · rename_i stored hLoad
      split
      · rename_i hSame
        have hVouched := Traffic.Step.vouch hp (h p hp) (hNone run) ha hLoad hSame
        have hRetired := Traffic.Step.retire (t := { t with
          vouched := Function.update t.vouched run true }) (Function.update_self _ _ _)
        exact ⟨_, (Relation.ReflTransGen.single hVouched).tail hRetired⟩
      · exact ⟨t.vouched, .refl⟩
    · exact ⟨t.vouched, .refl⟩
  · exact ⟨t.vouched, .refl⟩

/-- Whatever schedulers do is traffic. -/
theorem carries_takesIn : TakesIn Carries :=
  .of_steps Carries.trans (fun h hFront => h.unfolds.carries hFront) publish_carries retire_carries

/-! ## The clock -/

theorem stepsUntil_carries (goal : World → Bool) (limit n : Nat) (w : World) :
    w.Carries (stepsUntil goal limit n w) := by
  induction n generalizing w with
  | zero => exact carries_of_eq rfl rfl
  | succ n ih =>
    have hSettled : w.Carries w.settle := carries_takesIn.turns patience w
    unfold stepsUntil
    dsimp only
    split
    · exact hSettled
    · split
      · exact hSettled
      · rename_i time _
        split
        · have hTick := (tick_unfolds w.settle time).carries (foldl_wake_beside id _ _).front
          exact (hSettled.trans hTick).trans (ih _)
        · exact hSettled

theorem runUntil_carries (w : World) (goal : World → Bool) (limit : Nat) :
    w.Carries (w.runUntil goal limit) :=
  stepsUntil_carries goal limit patience w

theorem advance_carries (w : World) (millis : Nat) : w.Carries (w.advance millis) := by
  obtain ⟨-, hNow⟩ := stepsUntil_unfolds (fun _ => false) (w.now + millis) patience w
  have hInTime : max w.now (w.now + millis) ≤ w.now + millis := Nat.max_le.mpr ⟨by omega, le_rfl⟩
  exact (runUntil_carries w _ _).trans ((unfolds_later _ (hNow.trans hInTime)).carries rfl)

/-! ## From outside -/

theorem command_carries (w : World) (run : Nat) (c : Command) : w.Carries (w.command run c).1 :=
  (command_evolves w run c).unfolds.carries (command_beside w run c).front

theorem openGate_carries (w : World) (step : String) : w.Carries (w.openGate step) :=
  (openGate_evolves w step).unfolds.carries (openGate_beside w step).front

end World

/-! ## Services -/

namespace Service

variable {s s' : Service} {runId : String}

theorem send_carries {c : Command} (h : s.send runId c = .ok s') :
    s'.settings = s.settings ∧ s.world.Carries s'.world := by
  unfold send at h
  split at h
  · cases h
  · rename_i p run hFind
    split at h
    · cases h
    · dsimp only at h
      split at h
      · cases h
        exact ⟨rfl, World.command_carries s.world run c⟩
      · cases h

theorem wait_carries (s : Service) (runId : String) (patience : Nat) :
    (s.wait runId patience).1.settings = s.settings ∧
      s.world.Carries (s.wait runId patience).1.world := by
  unfold wait
  split
  · exact ⟨rfl, World.carries_of_eq rfl rfl⟩
  · rename_i p run hFind
    have hGone := World.runUntil_carries s.world (isDone run) (s.world.now + patience)
    dsimp only
    split
    · exact ⟨rfl, hGone⟩
    · exact ⟨rfl, hGone⟩

theorem shutdown_carries (s : Service) : s.world.Carries s.shutdown.1.world :=
  World.carries_takesIn.shutdown (fun w run => World.command_carries w run .stop) s

/-- One thing that a service does, or that is done to it. -/
inductive Serves (s : Service) : Service → Prop
  /-- A run is begun under an id that nobody has come across. -/
  | submit {runId : String} {d : Definition} {input : Json} {s' : Service} (hNew : s.IsNew runId)
      (h : s.submit runId d input = .ok s') : Serves s s'
  | send {runId : String} {c : Command} {s' : Service} (h : s.send runId c = .ok s') : Serves s s'
  | wait (runId : String) (patience : Nat) : Serves s (s.wait runId patience).1
  | shutdown : Serves s s.shutdown.1
  /-- The first in the queue goes on. -/
  | turn {w : World} (h : s.world.turn? = some w) : Serves s { s with world := w }
  | advance (millis : Nat) : Serves s { s with world := s.world.advance millis }
  | openGate (step : String) : Serves s { s with world := s.world.openGate step }
  /-- The archive breaks down or is mended, but it can be loaded from. -/
  | disturb {a : Archive} (breakage : Option Breakage) (hLoads : breakage ≠ some .loadsFail)
      (hArchive : s.world.archive = some a) :
      Serves s { s with world := { s.world with archive := some { a with breakage } } }

/-- Whatever a service does is traffic, with nothing in hand before and after it. -/
theorem Serves.exists_steps (h : s.Serves s') {t : Traffic} (hService : t.service = s)
    (hNone : ∀ run, t.taken run = none) :
    ∃ vouched, Traffic.Steps t { t with service := s', vouched } := by
  subst hService
  have hGoesOn : ∀ {s' : Service}, s'.settings = t.service.settings → t.service.world.Carries s'.world →
      ∃ vouched, Traffic.Steps t { t with service := s', vouched } := by
    rintro ⟨w, _⟩ rfl hCarries
    exact hCarries t rfl hNone
  cases h with
  | submit hNew h => exact ⟨t.vouched, .single (.submit hNew h)⟩
  | send h => exact hGoesOn (send_carries h).1 (send_carries h).2
  | wait runId patience => exact hGoesOn (wait_carries _ _ _).1 (wait_carries _ _ _).2
  | shutdown => exact hGoesOn rfl (shutdown_carries _)
  | turn h => exact hGoesOn rfl (World.carries_takesIn.turn? h)
  | advance millis => exact hGoesOn rfl (World.advance_carries _ _)
  | openGate step => exact hGoesOn rfl (World.openGate_carries _ _)
  | disturb breakage hLoads hArchive =>
    exact ⟨t.vouched, .single (.disturb breakage hLoads hArchive)⟩

/-- Whatever has been done with a service, it stands as some traffic leaves it. -/
theorem exists_traffic (h : Relation.ReflTransGen Serves s s') {t : Traffic} (hService : t.service = s)
    (hNone : ∀ run, t.taken run = none) :
    ∃ vouched, Traffic.Steps t { t with service := s', vouched } := by
  induction h with
  | refl => exact ⟨t.vouched, by rw [← hService]⟩
  | tail _ hLast ih =>
    obtain ⟨vouched, hSteps⟩ := ih
    obtain ⟨vouched', hMore⟩ := hLast.exists_steps (t := { t with service := _, vouched }) rfl hNone
    exact ⟨vouched', hSteps.trans hMore⟩

end Service

end Workflow

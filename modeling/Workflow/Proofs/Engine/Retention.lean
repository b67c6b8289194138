/-
Workflow.Proofs.Engine.Retention — no run is lost.

A run that has begun is known to the service or to its archive, whatever
else happens and whenever somebody looks. A reader looks at the runs first
and at the archive later, and a run may be forgotten in between; but it is
forgotten only when the archive has its end, and that stays there. So
whoever asks after a run is told how it stands, a list of all runs has it
once, and whoever has waited for its end will never hear of another.

* `Service.across` — what a reader sees who looks twice.
* `Traffic.Waits` — what somebody is told who waits for a run.
* `Traffic.retains_runs` — the main result.
* `Service.tells_of_run` — what it says of a service that does one thing at
  a time.
-/
import Workflow.Proofs.Engine.Published
import Workflow.Proofs.Engine.Serving
import Workflow.Proofs.Text.Order

namespace Workflow

/-- A service as a reader sees it who looks at the runs first and at the archive later. -/
def Service.across (earlier later : Service) : Service :=
  { earlier with world := { earlier.world with archive := later.world.archive } }

namespace Traffic

/-- Somebody begins to wait for a run and is told something at last. Of a run that is known he sees
what readers are shown, and not before it shows the end or its scheduler has come to its own; any
other run he looks up. -/
inductive Waits (runId : String) (t t' : Traffic) : Except ServiceError Snapshot → Prop
  | known {t₁ : Traffic} {run : Nat} {p q : Process} (hFind : t.service.find? runId = some (p, run))
      (hBefore : Steps t t₁) (hDone : Service.isDone run t₁.world = true) (hAfter : Steps t₁ t')
      (hRun : t'.world.processes[run]? = some q) : Waits runId t t' (Service.waited q)
  | forgotten {t₁ : Traffic} (hFind : t.service.find? runId = none) (hBefore : Steps t t₁)
      (hAfter : Steps t₁ t') : Waits runId t t' ((t₁.service.across t'.service).state runId)

/-- No run has begun, and the archive can be loaded from. -/
structure Starts (t : Traffic) : Prop where
  processes : t.world.processes = []
  taken : ∀ run, t.taken run = none
  vouched : ∀ run, t.vouched run = false
  loads : ∀ a, t.world.archive = some a → a.breakage ≠ some .loadsFail
  distinct : ∀ a, t.world.archive = some a → (Dict.keys a.store.snapshots).Nodup

variable {t t' t₁ t₂ : Traffic} {run : Nat} {p q : Process} {runId : String}

/-! ## Some steps -/

theorem Starts.sound (h : t.Starts) : t.Sound where
  loads := h.loads
  distinct := h.distinct
  ids := by
    rw [h.processes]
    exact List.nodup_nil
  idle run _ := ⟨h.taken run, h.vouched run⟩
  runs run p hp := by
    rw [h.processes] at hp
    cases hp

theorem Steps.sound (h : t.Sound) (hSteps : Steps t t') : t'.Sound := by
  induction hSteps with
  | refl => exact h
  | tail _ hStep ih => exact hStep.sound ih

theorem GoesOn.trans {r : Process} (h : t₁.GoesOn run p q) (hNext : t₂.GoesOn run q r) :
    t₂.GoesOn run p r where
  steps := h.steps.trans hNext.steps
  sound := hNext.sound
  known hKnown := h.known (hNext.known hKnown)
  shown hFinal := hNext.shown (h.shown hFinal)

/-- Whatever happens, runs go on. -/
theorem Steps.goesOn (h : t.Sound) (hSteps : Steps t t') (hp : t.world.processes[run]? = some p) :
    ∃ q, t'.world.processes[run]? = some q ∧ t'.GoesOn run p q := by
  induction hSteps with
  | refl => exact ⟨p, hp, (h.runs run p hp).stays rfl rfl rfl⟩
  | tail hBefore hStep ih =>
    obtain ⟨q, hq, hGoes⟩ := ih
    obtain ⟨r, hr, hNext⟩ := hStep.goesOn (Steps.sound h hBefore) hq
    exact ⟨r, hr, hGoes.trans hNext⟩

/-! ## Looking a run up -/

theorem mem_knownRuns {s : Service} : (p, run) ∈ s.knownRuns ↔
    s.world.processes[run]? = some p ∧ p.known = true := by
  rw [Service.knownRuns, List.mem_filter, List.mem_zipIdx_iff_getElem?]

/-- A run is found by its id as long as it is known. -/
theorem Sound.find?_eq (h : t.Sound) (hp : t.world.processes[run]? = some p) :
    t.service.find? p.runId = if p.known then some (p, run) else none := by
  unfold Service.find?
  generalize hFind : List.find? _ _ = found
  cases found with
  | none =>
    rw [if_neg]
    intro hKnown
    have hOther := List.find?_eq_none.mp hFind (p, run) (mem_knownRuns.mpr ⟨hp, hKnown⟩)
    exact hOther (decide_eq_true rfl)
  | some pair =>
    obtain ⟨q, run'⟩ := pair
    obtain ⟨hq, hKnown⟩ := mem_knownRuns.mp (List.mem_of_find?_eq_some hFind)
    have hSame : q.runId = p.runId := by simpa using List.find?_some hFind
    obtain rfl := h.run_eq hq hp hSame
    obtain rfl := Option.some.inj (hq.symm.trans hp)
    rw [if_pos hKnown]

/-- Readers are shown the end of a run, or it has been forgotten. -/
def IsSettled (p : Process) : Prop := p.known = true → p.published.status.isFinal = true

theorem GoesOn.isSettled (h : t'.GoesOn run p q) (hSettled : IsSettled p) : IsSettled q :=
  fun hKnown => h.shown (hSettled (h.known hKnown))

theorem state_of_archive {s : Service} {stored : Snapshot} {a : Archive}
    (hFind : s.find? runId = none) (hArchive : s.world.archive = some a)
    (hLoad : a.load runId = .ok (some stored)) : s.state runId = .ok stored := by
  simp only [Service.state, hFind, Service.archived, hArchive, hLoad]

/-- A run that was forgotten once is forgotten, so that the archive has its end. -/
theorem GoesOn.stored (h : t.Sound) (hp : t.world.processes[run]? = some p)
    (hGoes : t'.GoesOn run p q) (hForgotten : p.known = false) :
    ∃ a s, t'.world.archive = some a ∧ a.store.load p.runId = some s ∧ s.Tells q ∧
      s.status.isFinal = true := by
  obtain ⟨g, limit, hg, hReach⟩ := (h.runs run p hp).reached
  have hStill : q.known = false := Bool.eq_false_iff.mpr fun hAgain => by
    rw [hGoes.known hAgain] at hForgotten
    cases hForgotten
  obtain ⟨a, s, ha, hs, hFinal⟩ := hGoes.sound.vouched (hGoes.sound.retired hStill)
  exact ⟨a, s, ha, hGoes.steps.runId_eq hg hReach ▸ hs, hGoes.sound.stored a s ha hs, hFinal⟩

/-- Whoever asks after a run is told how it stood once, and how it ended if that has been shown. -/
theorem exists_state (h : t.Sound) (hp : t.world.processes[run]? = some p) (hSteps : Steps t t') :
    ∃ s q, t'.world.processes[run]? = some q ∧ t'.GoesOn run p q ∧
      (t.service.across t'.service).state p.runId = .ok s ∧ s.Tells q ∧
      (IsSettled p → s.status.isFinal = true) := by
  have hSound := h.runs run p hp
  obtain ⟨g, limit, hg, hReach⟩ := hSound.reached
  obtain ⟨q, hq, hGoes⟩ := hSteps.goesOn h hp
  have hFind : (t.service.across t'.service).find? p.runId =
      if p.known then some (p, run) else none := h.find?_eq hp
  cases hKnown : p.known with
  | true =>
    rw [hKnown, if_pos rfl] at hFind
    refine ⟨p.published, q, hq, hGoes, ?_, hSound.published.steps hg hReach hGoes.steps,
      fun hSettled => hSettled hKnown⟩
    simp only [Service.state, hFind]
  | false =>
    rw [hKnown, if_neg Bool.false_ne_true] at hFind
    obtain ⟨a, s, ha, hs, hTells, hFinal⟩ := hGoes.stored h hp hKnown
    have hLoad : a.load p.runId = .ok (some s) := by
      rw [Archive.load_eq ((hSteps.sound h).loads a ha), hs]
    exact ⟨s, q, hq, hGoes, state_of_archive hFind ha hLoad, hTells, fun _ => hFinal⟩

/-! ## Waiting -/

theorem waited_eq {q : Process} (hFinal : q.published.status.isFinal = true) :
    Service.waited q = .ok q.published :=
  if_pos hFinal

/-- Whoever waits for a run is told what has been taken of it, if he is told how it ended. If it was
settled when he began, he is told how it ended. -/
theorem Waits.told (h : t.Sound) (hp : t.world.processes[run]? = some p) {answer}
    (hWaits : t.Waits p.runId t' answer) : ∃ q, t'.world.processes[run]? = some q ∧
      t'.GoesOn run p q ∧
      (∀ s, answer = .ok s → s.Tells q ∧ s.status.isFinal = true ∧ IsSettled q) ∧
      (IsSettled p → ∃ s, answer = .ok s) := by
  have hFound := h.find?_eq hp
  -- whether the run is known when the wait begins decides where its end is read
  cases hWaits with
  | known hFind hBefore _ hAfter hRun =>
    rename_i t₁ run' p' q
    cases hKnown : p.known with
    | false =>
      rw [hKnown, if_neg Bool.false_ne_true] at hFound
      cases hFound.symm.trans hFind
    | true =>
      rw [hKnown, if_pos rfl] at hFound
      obtain ⟨rfl, rfl⟩ := Prod.mk.inj (Option.some.inj (hFound.symm.trans hFind))
      obtain ⟨r, hr, hGoes⟩ := Steps.goesOn h (hBefore.trans hAfter) hp
      obtain rfl := Option.some.inj (hr.symm.trans hRun)
      refine ⟨r, hr, hGoes, fun s hs => ?_, fun hSettled => ?_⟩
      · unfold Service.waited at hs
        split at hs
        · rename_i hFinal
          obtain rfl := Except.ok.inj hs
          exact ⟨hGoes.sound.published, hFinal, fun _ => hFinal⟩
        · cases hs
      · exact ⟨_, waited_eq (hGoes.shown (hSettled hKnown))⟩
  | forgotten hFind hBefore hAfter =>
    rename_i t₁
    cases hKnown : p.known with
    | true =>
      rw [hKnown, if_pos rfl] at hFound
      cases hFound.symm.trans hFind
    | false =>
      obtain ⟨p₁, hp₁, hGoes⟩ := hBefore.goesOn h hp
      obtain ⟨s, q, hq, hNext, hState, hTells, hFinal⟩ :=
        exists_state (hBefore.sound h) hp₁ hAfter
      obtain ⟨g, limit, hg, hReach⟩ := (h.runs run p hp).reached
      rw [hGoes.steps.runId_eq hg hReach] at hState
      have hSettled : IsSettled p := fun hAgain => by
        rw [hAgain] at hKnown
        cases hKnown
      refine ⟨q, hq, hGoes.trans hNext, fun s' hs' => ?_, fun _ => ⟨s, hState⟩⟩
      obtain rfl := Except.ok.inj (hState.symm.trans hs')
      exact ⟨hTells, hFinal (hGoes.isSettled hSettled), (hGoes.trans hNext).isSettled hSettled⟩

/-- Whoever waits for a run that is settled need not wait. -/
theorem exists_waits (h : t.Sound) (hp : t.world.processes[run]? = some p)
    (hSettled : IsSettled p) : ∃ answer, t.Waits p.runId t answer := by
  have hFind := h.find?_eq hp
  cases hKnown : p.known with
  | true =>
    rw [hKnown, if_pos rfl] at hFind
    refine ⟨_, .known hFind .refl ?_ .refl hp⟩
    simp [Service.isDone, hp, hSettled hKnown]
  | false =>
    rw [hKnown, if_neg Bool.false_ne_true] at hFind
    exact ⟨_, .forgotten hFind .refl .refl⟩

/-! ## The list of all runs -/

/-- The ids of the runs that are known. -/
def knownIds (s : Service) : List String := s.knownRuns.map fun known => known.1.runId

theorem knownIds_sublist (s : Service) :
    (knownIds s).Sublist (s.world.processes.map Process.runId) := by
  have hSublist := (List.filter_sublist (p := fun known : Process × Nat => known.1.known)
    (l := s.world.processes.zipIdx)).map fun known => known.1.runId
  have hAll : (s.world.processes.zipIdx.map fun known => known.1.runId) =
      s.world.processes.map Process.runId := by
    conv_rhs => rw [← List.zipIdx_map_fst 0 s.world.processes, List.map_map]
    rfl
  exact hAll ▸ hSublist

theorem mem_knownIds (h : t.Sound) (hp : t.world.processes[run]? = some p) :
    p.runId ∈ knownIds t.service ↔ p.known = true := by
  constructor
  · intro hMem
    obtain ⟨⟨q, run'⟩, hKnown, hSame⟩ := List.mem_map.mp hMem
    obtain ⟨hq, hKnown⟩ := mem_knownRuns.mp hKnown
    obtain rfl := h.run_eq hq hp hSame
    obtain rfl := Option.some.inj (hq.symm.trans hp)
    exact hKnown
  · exact fun hKnown => List.mem_map.mpr ⟨(p, run), mem_knownRuns.mpr ⟨hp, hKnown⟩, rfl⟩

theorem mem_keys_of_load {m : MemoryStore} {s : Snapshot} (h : m.load runId = some s) :
    runId ∈ Dict.keys m.snapshots := by
  rw [← Dict.contains_iff_mem_keys, Dict.contains_eq_isSome_find?]
  exact Option.isSome_iff_exists.mpr ⟨s, h⟩

/-- A list has what is known, and what else is in the archive if there is one. -/
theorem list_cases {s : Service} {ids : List String} (h : s.list = .ok ids) :
    s.world.archive = none ∧ ids = Text.sorted (knownIds s) ∨
      ∃ (a : Archive) (stored : List String), s.world.archive = some a ∧
        stored.Perm (Dict.keys a.store.snapshots) ∧
        ids = Text.sorted (knownIds s ++ stored.filter fun id => !(knownIds s).contains id) := by
  unfold Service.list at h
  dsimp only at h
  split at h
  · rename_i hNone
    exact .inl ⟨hNone, (Except.ok.inj h).symm⟩
  · rename_i a ha
    split at h
    · cases h
    · rename_i stored hStored
      refine .inr ⟨a, stored, ha, ?_, (Except.ok.inj h).symm⟩
      unfold Archive.list at hStored
      split at hStored
      · cases hStored
      · obtain rfl := Except.ok.inj hStored
        exact Text.sorted_perm _

/-- A list of what is known and of what else is in the archive is sorted and has every run once. -/
theorem count_list (h : t.Sound) (hp : t.world.processes[run]? = some p) (hSteps : Steps t t')
    {ids : List String} (hList : (t.service.across t'.service).list = .ok ids) :
    ids.Pairwise (· ≤ ·) ∧ ids.count p.runId = 1 := by
  have hNodup : (knownIds t.service).Nodup := (knownIds_sublist t.service).nodup h.ids
  obtain ⟨q, hq, hGoes⟩ := hSteps.goesOn h hp
  have hCases := list_cases hList
  rw [show knownIds (t.service.across t'.service) = knownIds t.service from rfl] at hCases
  rcases hCases with ⟨hNone, rfl⟩ | ⟨a, stored, ha, hIds, rfl⟩
  · have hKnown : p.known = true := Bool.eq_true_of_not_eq_false fun hForgotten => by
      obtain ⟨a, s, ha, -⟩ := hGoes.stored h hp hForgotten
      cases hNone.symm.trans ha
    refine ⟨Text.pairwise_sorted _, ?_⟩
    rw [(Text.sorted_perm _).count_eq]
    exact List.count_eq_one_of_mem hNodup ((mem_knownIds h hp).mpr hKnown)
  · refine ⟨Text.pairwise_sorted _, ?_⟩
    rw [(Text.sorted_perm _).count_eq, List.count_append]
    cases hKnown : p.known with
    | true =>
      have hMem := (mem_knownIds h hp).mpr hKnown
      have hOut : p.runId ∉ stored.filter fun id => !(knownIds t.service).contains id := by
        simp [hMem]
      rw [List.count_eq_one_of_mem hNodup hMem, List.count_eq_zero_of_not_mem hOut]
    | false =>
      have hOut : p.runId ∉ knownIds t.service := by
        rw [mem_knownIds h hp, hKnown]
        exact Bool.false_ne_true
      obtain ⟨b, s, hb, hs, -⟩ := hGoes.stored h hp hKnown
      obtain rfl := Option.some.inj (ha.symm.trans hb)
      rw [List.count_eq_zero_of_not_mem hOut, List.count_filter (by simp [hOut]),
        hIds.count_eq, Nat.zero_add]
      exact List.count_eq_one_of_mem ((hSteps.sound h).distinct a ha) (mem_keys_of_load hs)

/-! ## A run that is begun, and one that is forgotten -/

/-- A workflow that compiles can be submitted under a new id, if there can be as many permits as it asks
for. -/
theorem exists_submit {g : Graph} {d : Definition} (input : Json) (hNew : t.service.IsNew runId)
    (hCompile : Graph.compile t.service.settings.allowOrphans d.steps = .ok g)
    (hAdmits : World.admits (t.service.settings.forWorkflow d).maxConcurrentSteps = true) :
    ∃ t', Step t t' ∧ t'.world.processes = t.world.processes ++ [Process.initial g (Scheduler.initial
        (RunState.initial g runId d.workflowId d.name input d.vars t.world.instant)
          (t.service.settings.forWorkflow d).stepTimeout)
        (t.service.settings.forWorkflow d).maxConcurrentSteps] ∧
      t'.world.archive = t.world.archive ∧ t'.taken = t.taken := by
  have hSubmit : ∃ s, t.service.submit runId d input = .ok s := by
    unfold Service.submit
    simp [hCompile, hAdmits]
  obtain ⟨s, hSubmit⟩ := hSubmit
  obtain ⟨g', hCompile', hProcesses, hArchive⟩ := submit_ok hSubmit
  obtain rfl : g = g' := Except.ok.inj (hCompile.symm.trans hCompile')
  exact ⟨_, .submit hNew hSubmit, hProcesses, hArchive, rfl⟩

/-- When a run is over, its scheduler can come to its end, its end can be shown, and then the run can be
forgotten, if the archive is in order. -/
theorem exists_retired {a : Archive} (hp : t.world.processes[run]? = some p) (hLive : p.phase = .live)
    (hFinal : p.isFinal = true) (hFree : t.taken run = none) (hArchive : t.world.archive = some a)
    (hOrder : a.breakage = none) :
    ∃ t₁ t₂ q, Steps t t₁ ∧ Steps t₁ t₂ ∧ t₁.world.processes[run]? = some q ∧
      t₂.world.processes[run]? = some { q with known := false } ∧
      q.published.status.isFinal = true ∧ q.runId = p.runId ∧ q.known = p.known := by
  -- the scheduler comes to its end, and its state is saved, told and vouched for
  let shown := p.snapshot p.scheduler.now
  let ended : Traffic := t.withWorld (t.world.update run fun _ => { p with phase := .ended })
  let saved : Traffic := { ended.withWorld { ended.world with
    archive := some { a with store := a.store.save shown } } with
      taken := Function.update ended.taken run (some shown) }
  let told : Traffic := { saved.withWorld (saved.world.update run fun p => { p with published := shown })
    with taken := Function.update saved.taken run none }
  let vouched : Traffic := { told with vouched := Function.update told.vouched run true }
  have hEnded : Step t ended := .goOn_run hp (.single (.close hLive hFinal)) rfl rfl
  have hRun : ended.world.processes[run]? = some { p with phase := .ended } := by
    rw [show ended.world = t.world.update run fun _ => { p with phase := .ended } from rfl,
      World.getElem?_update, hp]
    rfl
  have hSave : handed? ended.world.archive shown = some (some { a with store := a.store.save shown }) := by
    rw [show ended.world.archive = some a from hArchive]
    simp [handed?, Archive.save?, hOrder]
  have hSaved : Step ended saved :=
    .save (p := { p with phase := .ended }) p.scheduler.now hRun hFree hSave
  have hTold : Step saved told := .publish (Function.update_self run (some shown) ended.taken)
  have hRun' : told.world.processes[run]? = some { p with phase := .ended, published := shown } := by
    rw [show told.world = saved.world.update run fun p => { p with published := shown } from rfl,
      World.getElem?_update, show saved.world.processes = ended.world.processes from rfl, hRun]
    rfl
  have hLoad : Archive.load { a with store := a.store.save shown } p.runId = .ok (some shown) := by
    rw [Archive.load_eq (by simp [hOrder]), MemoryStore.load_save,
      if_pos (show shown.runId = p.runId from rfl)]
  have hVouched : Step told vouched :=
    .vouch hRun' rfl (Function.update_self run none saved.taken) rfl hLoad rfl
  have hRetired := Step.retire (t := vouched) (Function.update_self run true told.vouched)
  refine ⟨told, _, _, ((Relation.ReflTransGen.single hEnded).tail hSaved).tail hTold,
    (Relation.ReflTransGen.single hVouched).tail hRetired, hRun', ?_, hFinal, rfl, rfl⟩
  refine (World.getElem?_update vouched.world run _).trans ?_
  rw [show vouched.world.processes = told.world.processes from rfl, hRun']
  rfl

/-! ## No run is lost -/

/-- No run is lost. Whoever asks after a run that has begun is told how it stands; a list of all runs,
if there is one, is sorted and has the run once. And once somebody who waits for the run has been
told how it ended, everybody who asks or waits after that is told the same at once, but for the time
at which the snapshot was taken. -/
theorem retains_runs {t₀ t t' : Traffic} {runId : String} (hStart : t₀.Starts)
    (hBefore : Steps t₀ t) (hBegun : ∃ p ∈ t.world.processes, p.runId = runId)
    (hAfter : Steps t t') :
    (∃ s, (t.service.across t'.service).state runId = .ok s) ∧
    (∀ ids, (t.service.across t'.service).list = .ok ids →
      ids.Pairwise (· ≤ ·) ∧ ids.count runId = 1) ∧
    ∀ s, t.Waits runId t' (.ok s) → s.status.isFinal = true ∧ ∀ t₁, Steps t' t₁ →
      (∃ answer, t₁.Waits runId t₁ answer) ∧ ∀ t₂, Steps t₁ t₂ →
        (∃ s', (t₁.service.across t₂.service).state runId = .ok s' ∧
          s' = { s with updatedAt := s'.updatedAt }) ∧
        ∀ answer, t₁.Waits runId t₂ answer →
          ∃ s', answer = .ok s' ∧ s' = { s with updatedAt := s'.updatedAt } := by
  have h := hBefore.sound hStart.sound
  obtain ⟨p, hMem, rfl⟩ := hBegun
  obtain ⟨run, hp⟩ := List.mem_iff_getElem?.mp hMem
  refine ⟨?_, fun ids hList => count_list h hp hAfter hList, fun s hWaits => ?_⟩
  · obtain ⟨s, -, -, -, hState, -⟩ := exists_state h hp hAfter
    exact ⟨s, hState⟩
  obtain ⟨q, hq, hGoes, hTold, -⟩ := hWaits.told h hp
  obtain ⟨hTells, hFinal, hSettled⟩ := hTold s rfl
  refine ⟨hFinal, fun t₁ hLater => ?_⟩
  -- the snapshot that was returned tells of the run ever after
  have h' := hAfter.sound h
  obtain ⟨q₁, hq₁, hGoes₁⟩ := hLater.goesOn h' hq
  have hSettled₁ := hGoes₁.isSettled hSettled
  have h₁ := hLater.sound h'
  have hId : q₁.runId = p.runId := by
    obtain ⟨g, limit, hg, hReach⟩ := (h.runs run p hp).reached
    exact Process.Steps.runId_eq hg hReach (hGoes.steps.trans hGoes₁.steps)
  rw [← hId]
  have hEver : ∀ {t₂ : Traffic} {q₂ : Process} {s' : Snapshot}, t₂.GoesOn run q₁ q₂ →
      s'.Tells q₂ → s'.status.isFinal = true → s' = { s with updatedAt := s'.updatedAt } := by
    intro t₂ q₂ s' hGoes₂ hTells' hFinal'
    obtain ⟨g, limit, hg, hReach⟩ := (h'.runs run q hq).reached
    have hStill := hTells.steps hg hReach (hGoes₁.steps.trans hGoes₂.steps)
    exact hStill.same hTells' hFinal hFinal'
  refine ⟨exists_waits h₁ hq₁ hSettled₁, fun t₂ hSteps => ⟨?_, fun answer hWaits => ?_⟩⟩
  · obtain ⟨s', q₂, -, hGoes₂, hState, hTells', hFinal'⟩ := exists_state h₁ hq₁ hSteps
    exact ⟨s', hState, hEver hGoes₂ hTells' (hFinal' hSettled₁)⟩
  · obtain ⟨q₂, -, hGoes₂, hTold', hOk⟩ := hWaits.told h₁ hq₁
    obtain ⟨s', rfl⟩ := hOk hSettled₁
    obtain ⟨hTells', hFinal', -⟩ := hTold' s' rfl
    exact ⟨s', rfl, hEver hGoes₂ hTells' hFinal'⟩

/-- A run that is stopped at once, waited for and forgotten by the service is served from the archive,
as it was shown. -/
theorem retained_of_stopped : ∃ t₀ t t' s, Starts t₀ ∧ Steps t₀ t ∧ t.Waits "run" t (.ok s) ∧
    Steps t t' ∧ t'.service.find? "run" = none ∧
    ∃ s', t'.service.state "run" = .ok s' ∧ s' = { s with updatedAt := s'.updatedAt } := by
  have hExhibits : Process.exhibits
      [.plain "start" .start [], .plain "a" .action ["start"], .plain "end" .finish ["a"]] 8
      [.launch, .command .stop, .read]
      (fun p => p.phase = .live ∧ p.isFinal = true ∧ p.known = true ∧ p.runId = "run") = true := by
    decide +kernel
  obtain ⟨g, p, hCompile, hPerform, hLive, hFinal, hKnown, hId⟩ :=
    Process.performed_of_exhibits hExhibits
  let t₀ : Traffic := ⟨⟨World.initial Course.scriptTime (.scripts []) (some ⟨.empty, none⟩), .standard⟩,
    fun _ => none, fun _ => false⟩
  have hStart : t₀.Starts := ⟨rfl, fun _ => rfl, fun _ => rfl, by rintro a ⟨⟩; simp, by
    rintro a ⟨⟩
    exact List.nodup_nil⟩
  have hNew : t₀.service.IsNew "run" := ⟨by rintro p ⟨⟩, by rintro a ⟨⟩; rfl⟩
  obtain ⟨t₁, hSubmit, hProcesses, hArchive, hTaken⟩ := exists_submit (t := t₀)
    (d := ⟨none, "workflow", none, Definition.defaultVersion, [], _, none⟩) .null hNew hCompile
    (by decide)
  have hInstant : t₀.world.instant = Course.scriptTime := by decide
  rw [hInstant] at hProcesses
  have hBegun := Relation.ReflTransGen.single hSubmit
  -- the run is launched and stopped
  have hFirst := congrArg (·[0]?) hProcesses
  have hShown := (Process.Shows.start "run" "workflow" "workflow" .null [] Course.scriptTime none).acts
    hPerform
  have hPublished := Option.some.inj hShown.getLast?
  have hGoOn : Step t₁ _ :=
    .goOn_run hFirst (Process.steps_of_acts? hPerform) hPublished.symm hKnown
  have hRun : (t₁.withWorld (t₁.world.update 0 fun _ => p)).world.processes[0]? = some p := by
    refine (World.getElem?_update t₁.world 0 _).trans ?_
    rw [hFirst]
    rfl
  -- its end is shown, and then it is forgotten
  obtain ⟨t, t', q, hShow, hForget, hq, hq', hFinal', hId', hKnown'⟩ := exists_retired hRun hLive hFinal
    (congrFun hTaken 0) hArchive rfl
  have hBefore : Steps t₀ t := (hBegun.tail hGoOn).trans hShow
  have h := hBefore.sound hStart.sound
  have hFind := h.find?_eq hq
  rw [hId', hId, hKnown', hKnown, if_pos rfl] at hFind
  have hFind' := (hForget.sound h).find?_eq hq'
  have hWaits : t.Waits "run" t (.ok q.published) := by
    rw [← waited_eq hFinal']
    exact .known hFind .refl (by simp [Service.isDone, hq, hFinal']) .refl hq
  have hMem : ∃ r ∈ t.world.processes, r.runId = "run" :=
    ⟨q, List.mem_of_getElem? hq, hId'.trans hId⟩
  have hEver := ((retains_runs hStart hBefore hMem .refl).2.2 _ hWaits).2 t' hForget
  exact ⟨t₀, t, t', q.published, hStart, hBefore, hWaits, hForget, (hId'.trans hId) ▸ hFind',
    (hEver.2 t' .refl).1⟩

end Traffic

/-! ## One thing at a time -/

/-- Whatever a service has done since it has begun a run, whoever asks it after the run is told how the
run stands, and a list of all runs, if there is one, is sorted and has the run once. -/
theorem Service.tells_of_run {s₀ s : Service} {runId : String}
    (hStart : Traffic.Starts ⟨s₀, fun _ => none, fun _ => false⟩)
    (hServed : Relation.ReflTransGen Serves s₀ s) (hBegun : ∃ p ∈ s.world.processes, p.runId = runId) :
    (∃ snapshot, s.state runId = .ok snapshot) ∧
      ∀ ids, s.list = .ok ids → ids.Pairwise (· ≤ ·) ∧ ids.count runId = 1 := by
  obtain ⟨vouched, hSteps⟩ := exists_traffic hServed rfl hStart.taken
  have h := hSteps.sound hStart.sound
  obtain ⟨p, hMem, rfl⟩ := hBegun
  obtain ⟨run, hp⟩ := List.mem_iff_getElem?.mp hMem
  obtain ⟨snapshot, -, -, -, hState, -⟩ := Traffic.exists_state h hp .refl
  exact ⟨⟨snapshot, hState⟩, fun ids hList => Traffic.count_list h hp .refl hList⟩

end Workflow

/-
Workflow.Proofs.Engine.Worlds — the runs of a world, over time and as they
are shown.

Whatever a world does and whatever is asked of it, each of its runs is a
run in progress of a compiled workflow. What readers have seen of it is the
run as it stood, again and again; and its scheduler goes through a run over
time, by the clock of the world and with the retries to come as its timers.

* `Clocked.Times` — a course is that of a run over time, whose timers are
  the retries to come and those that have been told of.
* `Clocked.lasts_times` — and it stays so, whatever happens at a time.
* `World.IsSound` — what is true of all runs of a world.
* `World.Unfolds.isSound`, `World.IsSound.submit`, `Service.submit_isSound` —
  it is always true.
* `World.IsSound.exists_clocked` — a run of a world as a run over time.
-/
import Workflow.Proofs.Engine.Clock
import Workflow.Proofs.Engine.Published
import Workflow.Proofs.Engine.Turns

namespace Workflow

/-- Only the message that a retry is due tells of one. -/
theorem Message.eq_retryDue {g : Graph} {m : Message g} {i : g.Index} (h : m.wake? = some i) :
    m = .event (.retryDue i) := by
  cases m with
  | command => cases h
  | event e =>
    cases e with
    | finished => cases h
    | retryDue =>
      obtain rfl := Option.some.inj h
      rfl

namespace Clocked

/-- By a time a course is that of a run over time. Its timers are the retries to come and those that
have been told of, and these have run out. -/
def Times (epoch : Instant) (time : Nat) (g : Graph) (p : Course g)
    (retries : List (g.Index × Nat)) (told : List g.Index) : Prop :=
  ∃ c : Clocked g, c.course = p ∧ Reached epoch c ∧ c.now ≤ time ∧ ∃ sent : List (g.Index × Nat),
    sent.map Prod.fst = told ∧ (∀ timer ∈ sent, timer.2 ≤ time) ∧ (retries ++ sent).Subperm c.timers

theorem Times.later {epoch : Instant} {time time' : Nat} (hLater : time ≤ time') {g : Graph}
    {p : Course g} {retries : List (g.Index × Nat)} {told : List g.Index}
    (h : Times epoch time g p retries told) : Times epoch time' g p retries told := by
  obtain ⟨c, hCourse, hReach, hNow, sent, hTold, hDue, hTimers⟩ := h
  exact ⟨c, hCourse, hReach, hNow.trans hLater, sent, hTold,
    fun timer hMem => (hDue timer hMem).trans hLater, hTimers⟩

/-- The message that the scheduler reads can come at that time: if it tells of a retry, a timer of
that step has run out. -/
theorem exists_takes {g : Graph} {m : Message g} {time : Nat} {told : List g.Index}
    {retries sent timers : List (g.Index × Nat)} (hTold : sent.map Prod.fst = m.wake?.toList ++ told)
    (hDue : ∀ timer ∈ sent, timer.2 ≤ time) (hTimers : (retries ++ sent).Subperm timers) :
    ∃ left rest, Takes time timers m left ∧ rest.map Prod.fst = told ∧
      (∀ timer ∈ rest, timer.2 ≤ time) ∧ (retries ++ rest).Subperm left := by
  cases hWake : m.wake? with
  | none =>
    rw [hWake] at hTold
    exact ⟨timers, sent, .other hWake, hTold, hDue, hTimers⟩
  | some i =>
    rw [hWake] at hTold
    obtain ⟨⟨k, due⟩, rest, rfl, rfl, hRest⟩ := List.map_eq_cons_iff.mp hTold
    obtain rfl := Message.eq_retryDue hWake
    have hMem : (k, due) ∈ timers :=
      hTimers.subset (List.mem_append_right _ (List.mem_cons_self ..))
    exact ⟨_, rest, .due hMem (hDue _ (List.mem_cons_self ..)), hRest,
      fun timer hMem => hDue timer (List.mem_cons_of_mem _ hMem),
      Process.subperm_erase_middle hTimers⟩

/-- A run in progress goes on along a run over time. -/
theorem lasts_times (epoch : Instant) (time : Nat) :
    Process.Lasts (Times epoch time) (epoch.addMillis time) time where
  start _ runId workflowId workflowName input vars created stepTimeout :=
    ⟨_, rfl, .start runId workflowId workflowName input vars created time stepTimeout, le_rfl, [], rfl,
      nofun, by rw [List.append_nil]; exact .refl _⟩
  conclude h hOpen := by
    obtain ⟨c, rfl, hReach, hNow, sent, hTold, hDue, hTimers⟩ := h
    exact ⟨_, rfl, hReach.turn (.conclude hNow hOpen), le_rfl, sent, hTold, hDue, hTimers⟩
  read h hOpen hMore hExpected := by
    obtain ⟨c, rfl, hReach, hNow, sent, hTold, hDue, hTimers⟩ := h
    obtain ⟨left, rest, hTakes, hRest, hDue, hLeft⟩ := exists_takes hTold hDue hTimers
    exact ⟨_, rfl, hReach.turn (.read (.intro hNow hOpen hMore hExpected hTakes)), le_rfl, rest, hRest,
      hDue, Process.subperm_append_new hLeft⟩
  due h hMem hDue := by
    obtain ⟨c, hCourse, hReach, hNow, sent, hTold, hSent, hTimers⟩ := h
    rename_i i due
    refine ⟨c, hCourse, hReach, hNow, sent ++ [(i, due)], by simp [hTold], ?_, ?_⟩
    · intro timer hTimer
      rcases List.mem_append.mp hTimer with hOld | hNew
      · exact hSent timer hOld
      · exact (List.mem_singleton.mp hNew) ▸ hDue
    · refine List.Subperm.trans ?_ hTimers
      rw [← List.append_assoc]
      refine ((List.perm_append_singleton _ _).trans ?_).subperm
      exact (List.perm_cons_erase hMem).symm.append_right sent
  dropped h retry := by
    obtain ⟨c, hCourse, hReach, hNow, sent, hTold, hSent, hTimers⟩ := h
    exact ⟨c, hCourse, hReach, hNow, sent, hTold, hSent,
      (List.erase_sublist.append_right sent).subperm.trans hTimers⟩

/-- As time goes by, a run in progress goes on along a run over time. -/
theorem times_beats {epoch : Instant} {x y : Nat × Process}
    (h : x.2.TrackedBy (Times epoch x.1)) (hBeats : Process.Beats epoch x y) :
    y.2.TrackedBy (Times epoch y.1) := by
  induction hBeats with
  | refl => exact h
  | tail _ hLast ih =>
    cases hLast with
    | step hStep => exact ih.stepAt (lasts_times epoch _) hStep
    | wait hLater => exact ih.mono fun _ _ _ _ hTimes => hTimes.later hLater

end Clocked

namespace World

variable {w w' : World}

/-- Every run of a world is a run in progress of a compiled workflow. It has shown some snapshots, and
its scheduler goes through a run over time. -/
def IsSound (w : World) : Prop :=
  ∀ (run : Nat) (p : Process), w.processes[run]? = some p → ∃ allowOrphans steps g limit log,
    Graph.compile allowOrphans steps = .ok g ∧ Process.Shows g limit p log ∧
      p.TrackedBy (Clocked.Times w.epoch w.now)

theorem isSound_initial (epoch : Instant) (performer : Performer) (archive : Option Archive) :
    (World.initial epoch performer archive).IsSound := by
  intro run p hp
  cases hp

theorem Unfolds.isSound (h : w.Unfolds w') (hSound : w.IsSound) : w'.IsSound := by
  intro run q hq
  obtain ⟨p, hp, hBeats⟩ := h.exists_beats hq
  obtain ⟨allowOrphans, steps, g, limit, log, hCompile, hShows, hTracked⟩ := hSound run p hp
  obtain ⟨more, hShows⟩ := hShows.beats hBeats
  rw [h.epoch]
  exact ⟨allowOrphans, steps, g, limit, log ++ more, hCompile, hShows,
    Clocked.times_beats hTracked hBeats⟩

theorem IsSound.submit (hSound : w.IsSound) {allowOrphans : Bool} {steps : List Step} {g : Graph}
    (hCompile : Graph.compile allowOrphans steps = .ok g)
    (runId workflowId workflowName : String) (input : Json) (vars : Dict Json) (created : Instant)
    (stepTimeout : Option Duration) (limit : Nat) :
    (w.submit g (Scheduler.initial (RunState.initial g runId workflowId workflowName input vars created)
      stepTimeout) limit).IsSound := by
  intro run p hp
  have hScene : (w.submit g (Scheduler.initial (RunState.initial g runId workflowId workflowName input
      vars created) stepTimeout) limit).scene = (w.epoch, w.now, w.processes ++ [Process.initial g
        (Scheduler.initial (RunState.initial g runId workflowId workflowName input vars created)
          stepTimeout) limit]) := scene_wake _ _ _
  simp only [scene, Prod.mk.injEq] at hScene
  obtain ⟨hEpoch, hNow, hProcesses⟩ := hScene
  rw [hProcesses, List.getElem?_append] at hp
  rw [hEpoch, hNow]
  split at hp
  · exact hSound run p hp
  · obtain rfl := List.mem_singleton.mp (List.mem_of_getElem? hp)
    exact ⟨allowOrphans, steps, g, limit, _, hCompile,
      .start runId workflowId workflowName input vars created stepTimeout,
      .fresh rfl ⟨runId, workflowId, workflowName, input, vars, created, stepTimeout, rfl⟩ rfl rfl
        fun _ hm => absurd hm List.not_mem_nil⟩

/-- A run of a world that has begun has come to what a run over time can come to, by the clock of the
world, and every retry to come is one of its timers. -/
theorem IsSound.exists_clocked (hSound : w.IsSound) {run : Nat} {p : Process}
    (hp : w.processes[run]? = some p) (hBegun : p.phase ≠ .fresh) :
    ∃ c : Clocked p.graph, Clocked.Reached w.epoch c ∧ c.now ≤ w.now ∧
      c.course.scheduler = p.scheduler ∧ p.retries.Subperm c.timers := by
  obtain ⟨-, -, -, -, -, -, -, hTracked⟩ := hSound run p hp
  cases hTracked with
  | fresh hFresh => exact absurd hFresh hBegun
  | begun _ _ _ hTimes hCovers =>
    obtain ⟨c, rfl, hReach, hNow, sent, -, -, hTimers⟩ := hTimes
    exact ⟨c, hReach, hNow, hCovers.scheduler.symm,
      (List.sublist_append_left _ _).subperm.trans hTimers⟩

end World

/-- A run that a service begins is that of a compiled workflow. -/
theorem Service.submit_isSound {s s' : Service} {runId : String} {d : Definition} {input : Json}
    (hSound : s.world.IsSound) (h : s.submit runId d input = .ok s') : s'.world.IsSound := by
  unfold Service.submit at h
  split at h
  · cases h
  · rename_i g hCompile
    dsimp only at h
    split at h
    · cases h
    · cases h
      exact hSound.submit hCompile runId d.workflowId d.name input d.vars s.world.instant _ _

end Workflow

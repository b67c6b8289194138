/-
Workflow.Proofs.Engine.Delay — whether the delays of retries are honoured.

A wait for a retry can come to an end before the retry is due: when the
loop around the step is given up, or when an error handler that waits is
handed another failure. Its timer is left over, and it will wake the step
out of a later wait.

So a wait is honoured, however the run goes on, exactly if nothing that is
left over is due before it. A step that is in no body and handles no errors
leaves nothing over: it is always woken when the delay is over.

* `Clocked.Elapsed` — so much time has gone by.
* `Reached.single` — a step that leaves nothing over has one timer.
* `Clocked.delay_honoured_iff` — the main result.
* `Clocked.woken_too_early` — a retry that comes too early.
-/
import Workflow.Proofs.Engine.Timetable

namespace Workflow

namespace Clocked

variable {g : Graph} {epoch : Instant} {c c' : Clocked g} {i : g.Index} {d : Duration}

/-! ## Steps with one timer -/

theorem eq_of_count_le_one {timers : List (g.Index × Nat)} (hOne : (timers.map Prod.fst).count i ≤ 1)
    {due due' : Nat} (hTimer : (i, due) ∈ timers) (hTimer' : (i, due') ∈ timers) : due = due' := by
  by_contra hNe
  have hRest : (i, due') ∈ timers.erase (i, due) :=
    (List.mem_erase_of_ne fun hSame => hNe (Prod.mk.inj hSame).2.symm).mpr hTimer'
  have hPerm := (List.perm_cons_erase hTimer).trans ((List.perm_cons_erase hRest).cons _)
  have hTwo := (hPerm.map Prod.fst).count_eq i
  simp only [List.map_cons, List.count_cons_self] at hTwo
  omega

section

variable (hg : g.Sound) (hOuter : g.owner? i = none) (hKind : g.kindOf i ≠ .errorHandler)
include hg hOuter hKind

/-- A step that is in no body and handles no errors waits for the one timer that it has. -/
theorem Reached.single (h : Reached epoch c) {due : Nat} (hTimer : (i, due) ∈ c.timers) :
    c.Waits i ∧ ∀ due', (i, due') ∈ c.timers → due' = due := by
  have hCount : (c.timers.map Prod.fst).count i = (c.course.scheduler.controlOf i).waiting.toNat :=
    (h.timers_perm.count_eq i).trans (h.course.alone hg hOuter hKind)
  have hSome : 0 < (c.timers.map Prod.fst).count i :=
    List.count_pos_iff.mpr (List.mem_map_of_mem hTimer)
  constructor
  · unfold Waits
    by_contra hNot
    rw [Bool.not_eq_true] at hNot
    rw [hCount, hNot] at hSome
    cases hSome
  · intro due' hTimer'
    refine eq_of_count_le_one ?_ hTimer' hTimer
    rw [hCount]
    exact Bool.toNat_le _

/-- Unless the step is woken, its timer stays. -/
theorem Passes.mem_timers (h : Reached epoch c) (hPasses : Passes epoch i c c') {due : Nat}
    (hTimer : (i, due) ∈ c.timers) : (i, due) ∈ c'.timers := by
  obtain ⟨hTurn, hNot⟩ := hPasses
  cases hTurn with
  | conclude => exact hTimer
  | read hReads =>
    have hReads' := hReads
    cases hReads with
    | intro _ _ _ _ hTakes =>
      refine List.mem_append_left _ ?_
      cases hTakes with
      | other => exact hTimer
      | due =>
        rename_i k other _ _
        refine (List.mem_erase_of_ne fun hSame => ?_).mpr hTimer
        obtain rfl := (Prod.mk.inj hSame).1
        exact hNot ⟨(h.single hg hOuter hKind hTimer).1, hReads'⟩

end

/-! ## Delays -/

/-- From one point of a run to another so much time has gone by. -/
def Elapsed (d : Duration) (c c' : Clocked g) : Prop :=
  (Duration.ofMillis c.now).nanos + d.nanos ≤ (Duration.ofMillis c'.now).nanos

theorem elapsed_iff : Elapsed d c c' ↔ c.now + d.millisUp ≤ c'.now := by
  unfold Elapsed Duration.ofMillis Duration.millisUp
  dsimp only
  omega

/-- When a retry of a step has been asked for, and the step waits for it in a run that goes on, its
delay is honoured by whatever message wakes the step out of this wait if and only if no timer of the
step runs out earlier. A step that is in no body and handles no errors is woken the next time when
the delay is over. -/
theorem delay_honoured_iff {allowOrphans : Bool} {steps : List Step} {g : Graph}
    (hCompile : Graph.compile allowOrphans steps = .ok g) {epoch : Instant} {c : Clocked g}
    (h : Reached epoch c) {i : g.Index} {d : Duration}
    (hAsked : Request.wake i d ∈ c.course.asked) :
    (c.Waits i → c.course.scheduler.conclude.isOver = false →
      ((∀ c' c'', Relation.ReflTransGen (Keeps epoch i) c c' → Wakes epoch i c' c'' →
          Elapsed d c c'') ↔
        ∀ due, (i, due) ∈ c.timers → c.now + d.millisUp ≤ max c.now due)) ∧
    (g.owner? i = none → g.kindOf i ≠ .errorHandler →
      ∀ c' c'', Relation.ReflTransGen (Passes epoch i) c c' → Wakes epoch i c' c'' →
        Elapsed d c c'') := by
  have hg := (Graph.wired_of_compile hCompile).toSound
  refine ⟨fun hWaits hGoesOn => ⟨fun hHonoured due hTimer => ?_, fun hNone c' c'' hKeeps hWakes => ?_⟩,
    fun hOuter hKind c' c'' hPasses hWakes => ?_⟩
  · obtain ⟨c', hWakes, hNow⟩ := h.wakes hWaits hGoesOn hTimer
    exact hNow ▸ elapsed_iff.mp (hHonoured c c' .refl hWakes)
  · have hKept : c.now ≤ c'.now ∧ ∀ due, (i, due) ∈ c'.timers → (i, due) ∈ c.timers := by
      clear hWakes
      induction hKeeps with
      | refl => exact ⟨le_rfl, fun _ hTimer => hTimer⟩
      | tail _ hLast ih =>
        exact ⟨ih.1.trans hLast.1.later, fun due hTimer => ih.2 due (hLast.timers_subset hTimer)⟩
    obtain ⟨hLater, due, hTimer, hDue⟩ := hWakes.exists_timer
    exact elapsed_iff.mpr ((hNone due (hKept.2 due hTimer)).trans
      (Nat.max_le.mpr ⟨hKept.1.trans hLater, hDue⟩))
  · have hKept : Reached epoch c' ∧ (i, c.now + d.millisUp) ∈ c'.timers := by
      clear hWakes
      induction hPasses with
      | refl => exact ⟨h, h.mem_timers hAsked⟩
      | tail _ hLast ih =>
        exact ⟨ih.1.turn hLast.1, hLast.mem_timers hg hOuter hKind ih.1 ih.2⟩
    obtain ⟨-, due, hTimer, hDue⟩ := hWakes.exists_timer
    rw [(hKept.1.single hg hOuter hKind hKept.2).2 due hTimer] at hDue
    exact elapsed_iff.mpr hDue

/-! ## A delay that is honoured and one that is not -/

/-- A policy by which a failed attempt is made again once, after some seconds. -/
def onceAfter (seconds : Nat) : RetryPolicy :=
  { RetryPolicy.standard with
    maxRetries := 1
    initialDelay := .ofSeconds seconds
    maxDelay := .ofSeconds seconds }

/-- In the body of a loop, one action is tried again ten seconds after it has failed. Another one is
not, but then the loop is tried again after one second. -/
def loopOfTwo : List Step :=
  [.plain "start" .start [],
    { Step.plain "l" .loop ["start"] with
      loopConfig := some ⟨"[true]", 10, "a"⟩
      retryPolicy := some (onceAfter 1) },
    .plain "a" .action [],
    { Step.plain "b" .action ["a"] with retryPolicy := some (onceAfter 10) },
    .plain "c" .action ["a"], .plain "end" .finish ["l"]]

/-- The first wait of the action is honoured however long it is in force, and it can be woken after
ten seconds. -/
theorem honoured_in_loopOfTwo : ∃ g c, ∃ i : g.Index, Graph.compile false loopOfTwo = .ok g ∧
    Reached Course.scriptTime c ∧ g.idOf i = "b" ∧
    (∀ c' c'', Relation.ReflTransGen (Keeps Course.scriptTime i) c c' →
      Wakes Course.scriptTime i c' c'' → Elapsed (.ofSeconds 10) c c'') ∧
    ∃ c', Wakes Course.scriptTime i c c' ∧ c'.now = 10000 := by
  have hKeeps : keepsTimetable loopOfTwo [(0, .answer 0 (.ok [])), (0, .answer 0 (.error .boom))]
      (fun g c => ∃ i : g.Index, g.idOf i = "b" ∧
        Request.wake i (.ofSeconds 10) ∈ c.course.asked ∧
        (c.course.scheduler.controlOf i).waiting = true ∧
        c.course.scheduler.conclude.isOver = false ∧ c.now = 0 ∧ c.timers = [(i, 10000)]) = true := by
    decide +kernel
  obtain ⟨g, c, hCompile, hReach, i, hId, hAsked, hWaits, hGoesOn, hNow, hTimers⟩ :=
    exists_of_timetable hKeeps
  refine ⟨g, c, i, hCompile, hReach, hId, ?_, ?_⟩
  · refine ((delay_honoured_iff hCompile hReach hAsked).1 hWaits hGoesOn).mpr fun due hTimer => ?_
    rw [hTimers, List.mem_singleton] at hTimer
    obtain ⟨-, rfl⟩ := Prod.mk.inj hTimer
    rw [hNow]
    decide
  · have hTimer : (i, 10000) ∈ c.timers := hTimers ▸ List.mem_singleton_self _
    obtain ⟨c', hWakes, hLater⟩ := hReach.wakes hWaits hGoesOn hTimer
    exact ⟨c', hWakes, by rw [hLater, hNow]; rfl⟩

/-- When the loop has been given up and tried again, the action fails anew after three seconds and
waits for another ten, and then the timer of its first wait wakes it after seven of them. -/
theorem woken_too_early : ∃ g c c', ∃ i : g.Index, Graph.compile false loopOfTwo = .ok g ∧
    Reached Course.scriptTime c ∧ g.idOf i = "b" ∧
    Request.wake i (.ofSeconds 10) ∈ c.course.asked ∧ c.now = 3000 ∧
    Wakes Course.scriptTime i c c' ∧ c'.course.scheduler.statusOf i = .running ∧ c'.now = 10000 := by
  have hKeeps : keepsTimetable loopOfTwo [(0, .answer 0 (.ok [])), (0, .answer 0 (.error .boom)),
      (1000, .answer 0 (.error .boom)), (2000, .due 1), (2000, .answer 0 (.ok [])),
      (3000, .answer 0 (.error .boom))]
      (fun g c => ∃ i : g.Index, g.idOf i = "b" ∧
        Request.wake i (.ofSeconds 10) ∈ c.course.asked ∧ c.now = 3000 ∧
        (c.course.scheduler.controlOf i).waiting = true ∧ c.timers[0]? = some (i, 10000) ∧
        ((c.turn? Script.rounds 10000 (.due 0)).any fun c' =>
          c'.course.scheduler.statusOf i = .running ∧ c'.now = 10000) = true) = true := by
    decide +kernel
  obtain ⟨g, c, hCompile, hReach, i, hId, hAsked, hNow, hWaits, hTimer, hLater⟩ :=
    exists_of_timetable hKeeps
  obtain ⟨c', hTurn, hEarly⟩ := (Option.any_eq_true _ _).mp hLater
  obtain ⟨hRunning, hThen⟩ := of_decide_eq_true hEarly
  exact ⟨g, c, c', i, hCompile, hReach, hId, hAsked, hNow,
    ⟨hWaits, reads_of_due? hTurn hTimer⟩, hRunning, hThen⟩

end Clocked

end Workflow

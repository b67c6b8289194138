/-
Workflow.Proofs.Engine.Clock — runs over time.

Every retry that a scheduler asks for is due some time later, and the
message that it is due comes then or later still. A step that waits for a
retry is woken by the message that a retry of its own is due, whichever of
its timers that comes of.

* `Clocked` — a run, its clock and its timers.
* `Clocked.Reads`, `Turn`, `Reached` — a message is read at a time; one
  turn; what a run can come to.
* `Clocked.Wakes`, `Keeps`, `Passes` — a step is woken; it goes on waiting;
  it is not woken.
* `Reached.timers_perm` — there is a timer for each retry to come.
* `Wakes.exists_timer`, `Reached.wakes` — what wakes a step.
-/
import Workflow.Proofs.Engine.Process
import Workflow.Proofs.Run.Waits

namespace Workflow

/-- A run, the milliseconds that its clock shows, and its timers: the retries to come, each with the
time at which it is due. -/
structure Clocked (g : Graph) where
  course : Course g
  now : Nat
  timers : List (g.Index × Nat)

namespace Clocked

variable {g : Graph}

/-- The timers that are left when a message comes. The message that a retry is due comes of a timer
that has run out. -/
inductive Takes (now : Nat) (timers : List (g.Index × Nat)) :
    Message g → List (g.Index × Nat) → Prop
  | due {i : g.Index} {due : Nat} (hMem : (i, due) ∈ timers) (hDue : due ≤ now) :
      Takes now timers (.event (.retryDue i)) (timers.erase (i, due))
  | other {m : Message g} (hOther : m.wake? = none) : Takes now timers m timers

/-- A timer is set for each retry that has been asked for in the last turn. -/
def wind (p : Course g) (now : Nat) (timers : List (g.Index × Nat)) : Clocked g :=
  ⟨p, now, timers ++ Process.newRetries now p.asked⟩

section

variable (epoch : Instant)

/-- The scheduler reads a message at a time, which is never earlier than before. -/
inductive Reads (m : Message g) (c : Clocked g) : Clocked g → Prop
  | intro {now : Nat} {timers : List (g.Index × Nat)} (hLater : c.now ≤ now)
      (hOpen : c.course.scheduler.isOver = false)
      (hMore : c.course.scheduler.conclude.state.isFinal = false) (hExpected : c.course.Expects m)
      (hTakes : Takes now c.timers m timers) :
      Reads m c (wind (c.course.read m (epoch.addMillis now)) now timers)

/-- One turn of a run over time. -/
inductive Turn (c : Clocked g) : Clocked g → Prop
  | conclude {now : Nat} (hLater : c.now ≤ now) (hOpen : c.course.scheduler.isOver = false) :
      Turn c { c with course := c.course.conclude (epoch.addMillis now), now }
  | read {m : Message g} {c' : Clocked g} (hReads : Reads epoch m c c') : Turn c c'

/-- What a run can come to over time. -/
inductive Reached : Clocked g → Prop
  | start (runId workflowId workflowName : String) (input : Json) (vars : Dict Json)
      (created : Instant) (now : Nat) (stepTimeout : Option Duration) :
      Reached (wind (Course.start (Scheduler.initial
        (RunState.initial g runId workflowId workflowName input vars created) stepTimeout)
          (epoch.addMillis now)) now [])
  | turn {c c' : Clocked g} (hBefore : Reached c) (hTurn : Turn epoch c c') : Reached c'

end

/-- A step waits for a retry. -/
def Waits (c : Clocked g) (i : g.Index) : Prop := (c.course.scheduler.controlOf i).waiting = true

section

variable (epoch : Instant) (i : g.Index) (c c' : Clocked g)

/-- A step that waits is told that a retry is due. It is ready from then on, and it is started at once
unless the run is paused. -/
def Wakes : Prop := c.Waits i ∧ Reads epoch (.event (.retryDue i)) c c'

/-- In a turn a step goes on waiting for the same retry. -/
def Keeps : Prop := Turn epoch c c' ∧ c'.Waits i ∧ ∀ d, Request.wake i d ∉ c'.course.asked

/-- In a turn a step is not woken. -/
def Passes : Prop := Turn epoch c c' ∧ ¬ Wakes epoch i c c'

end

variable {epoch : Instant} {c c' : Clocked g} {i : g.Index} {d : Duration}

/-! ## Timers -/

/-- A run over time is a run. -/
theorem Reached.course (h : Reached epoch c) : Course.Reached c.course := by
  induction h with
  | start runId workflowId workflowName input vars created now stepTimeout =>
    exact .start runId workflowId workflowName input vars created _ stepTimeout trivial
  | turn _ hTurn ih =>
    cases hTurn with
    | conclude _ hOpen => exact ih.turn (.conclude _ hOpen) trivial
    | read hReads =>
      cases hReads with
      | intro _ hOpen hMore hExpected => exact ih.turn (.read _ _ hOpen hMore hExpected) trivial

theorem Turn.later (h : Turn epoch c c') : c.now ≤ c'.now := by
  cases h with
  | conclude hLater => exact hLater
  | read hReads =>
    cases hReads with
    | intro hLater => exact hLater

theorem Takes.perm {p : Course g} {now : Nat} {timers left : List (g.Index × Nat)} {m : Message g}
    (h : Takes now timers m left) (hPerm : (timers.map Prod.fst).Perm p.wakes) :
    (left.map Prod.fst).Perm (p.settle m).wakes := by
  cases h with
  | due hMem =>
    rename_i i due _
    have hErased := (((List.perm_cons_erase hMem).map Prod.fst).symm.trans hPerm).erase i
    rw [List.map_cons, List.erase_cons_head] at hErased
    exact hErased
  | other hOther =>
    cases m with
    | command => exact hPerm
    | event e =>
      cases e with
      | finished => exact hPerm
      | retryDue => cases hOther

/-- There is a timer for each retry to come. -/
theorem Reached.timers_perm (h : Reached epoch c) :
    (c.timers.map Prod.fst).Perm c.course.wakes := by
  induction h with
  | start =>
    refine .of_eq ?_
    rw [wind, List.nil_append, Process.newRetries_fst]
    rfl
  | turn _ hTurn ih =>
    cases hTurn with
    | conclude => exact ih
    | read hReads =>
      cases hReads with
      | intro _ _ _ _ hTakes =>
        rename_i c _ m now timers _ _ _ _
        have hLeft := hTakes.perm ih
        rw [wind, List.map_append, Process.newRetries_fst]
        exact hLeft.append_right _

theorem mem_newRetries {now : Nat} {requests : List (Request g)} {due : Nat} :
    (i, due) ∈ Process.newRetries now requests ↔
      ∃ d, Request.wake i d ∈ requests ∧ now + d.millisUp = due := by
  unfold Process.newRetries
  rw [List.mem_filterMap]
  constructor
  · rintro ⟨r, hr, hTimer⟩
    cases r with
    | call => cases hTimer
    | wake k d =>
      obtain ⟨rfl, rfl⟩ : k = i ∧ now + d.millisUp = due := by simpa using hTimer
      exact ⟨d, hr, rfl⟩
  · rintro ⟨d, hd, rfl⟩
    exact ⟨_, hd, rfl⟩

/-- For what has been asked for in the last turn there is a timer. -/
theorem Reached.mem_timers (h : Reached epoch c) (hAsked : Request.wake i d ∈ c.course.asked) :
    (i, c.now + d.millisUp) ∈ c.timers := by
  have hNew : ∀ (p : Course g) now timers, Request.wake i d ∈ p.asked →
      (i, now + d.millisUp) ∈ (wind p now timers).timers := fun p now timers hAsked =>
    List.mem_append_right _ (mem_newRetries.mpr ⟨d, hAsked, rfl⟩)
  cases h with
  | start => exact hNew _ _ _ hAsked
  | turn _ hTurn =>
    cases hTurn with
    | conclude => cases hAsked
    | read hReads =>
      cases hReads with
      | intro => exact hNew _ _ _ hAsked

theorem Takes.subset {now : Nat} {timers left : List (g.Index × Nat)} {m : Message g}
    (h : Takes now timers m left) : left ⊆ timers := by
  cases h with
  | due => exact List.erase_subset
  | other => exact List.Subset.refl _

/-- While a step goes on waiting for the same retry, no timer is set for it. -/
theorem Keeps.timers_subset (h : Keeps epoch i c c') {due : Nat} (hTimer : (i, due) ∈ c'.timers) :
    (i, due) ∈ c.timers := by
  obtain ⟨hTurn, -, hNone⟩ := h
  cases hTurn with
  | conclude => exact hTimer
  | read hReads =>
    cases hReads with
    | intro _ _ _ _ hTakes =>
      rcases List.mem_append.mp hTimer with hOld | hNew
      · exact hTakes.subset hOld
      · obtain ⟨d, hAsked, -⟩ := mem_newRetries.mp hNew
        exact absurd hAsked (hNone d)

/-- A step is woken by one of its timers that has run out. -/
theorem Wakes.exists_timer (h : Wakes epoch i c c') :
    c.now ≤ c'.now ∧ ∃ due, (i, due) ∈ c.timers ∧ due ≤ c'.now := by
  obtain ⟨-, hReads⟩ := h
  cases hReads with
  | intro hLater _ _ _ hTakes =>
    cases hTakes with
    | due hMem hDue => exact ⟨hLater, _, hMem, hDue⟩
    | other hOther => cases hOther

/-- As long as the run goes on, a step that waits can be woken by any of its timers, when it has run
out. -/
theorem Reached.wakes (h : Reached epoch c) (hWaits : c.Waits i)
    (hGoesOn : c.course.scheduler.conclude.isOver = false) {due : Nat} (hTimer : (i, due) ∈ c.timers) :
    ∃ c', Wakes epoch i c c' ∧ c'.now = max c.now due := by
  obtain ⟨hMore, hSound⟩ := Bool.or_eq_false_iff.mp hGoesOn
  have hFinal : c.course.scheduler.state.isFinal = false := by
    rw [Scheduler.isFinal_conclude] at hMore
    exact (Bool.or_eq_false_iff.mp hMore).2
  have hOpen : c.course.scheduler.isOver = false :=
    Bool.or_eq_false_iff.mpr ⟨hFinal, (Scheduler.crashed_conclude _).symm.trans hSound⟩
  have hExpected : c.course.Expects (.event (.retryDue i)) :=
    h.timers_perm.subset (List.mem_map_of_mem hTimer)
  exact ⟨_, ⟨hWaits, .intro (Nat.le_max_left _ _) hOpen hMore hExpected
    (.due hTimer (Nat.le_max_right _ _))⟩, rfl⟩

end Clocked

end Workflow

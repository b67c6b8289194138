/-
Workflow.Proofs.Run.Settling — a scheduler that goes on settles.

From every state that a run can come to, a scheduler that goes on comes to
an end. What it leaves is settled: nothing is ready, every pending step
waits for something that is still open, and every loop in a round has a
step in its body that is not through.

* `Course.Visits` — the states that a run can come to, also in the middle
  of a turn.
* `Scheduler.IsSettled` — nothing is left to do but to wait.
* `Rested.isSettled` — a coherent scheduler that has nothing left to do is
  settled.
* `Course.advance_settles` — where a scheduler comes to when it goes on.
-/
import Workflow.Proofs.Run.Deadlock
import Workflow.Proofs.Run.Sweeps

namespace Workflow

variable {g : Graph}

/-- Whether a run can come to a state of its scheduler: at its beginning, between two turns, or right
before or after anything that is done in a turn. -/
inductive Course.Visits : Scheduler g → Prop
  | enter {s : Scheduler g} (hFresh : s.IsFresh) : Visits s.enter
  | rest {p : Course g} (hReach : Reached p) : Visits p.scheduler
  | before {p : Course g} {log : List (Moment g)} {m : Moment g} (hHistory : History p log)
      (hm : m ∈ log) : Visits m.scheduler
  | after {p : Course g} {log : List (Moment g)} {m : Moment g} (hHistory : History p log)
      (hm : m ∈ log) : Visits m.next

/-- What every run keeps coherent is coherent in every state that it comes to. -/
theorem Course.Visits.coherent (hg : g.Sound) {s : Scheduler g} (h : Visits s) :
    ∃ hand, Scheduler.AtRest hand s ∧ s.board.Coherent hand := by
  have hMoments : ∀ {p : Course g} {log : List (Moment g)}, History p log → ∀ m ∈ log,
      m.scheduler.board.Coherent .free ∧
        ∃ hand, Scheduler.AtRest hand m.next ∧ m.next.board.Coherent hand := by
    intro p log hHistory
    refine (hHistory.invariant hg (Q := fun hand s => s.board.Coherent hand) ?_ ?_ ?_ ?_ ?_).1
    · exact fun s hFresh => Scheduler.coherent_enter hg hFresh
    · exact fun _ _ _ _ hMove _ h => h.rule hg (hMove.rule hg)
    · exact fun _ _ _ _ hReceives _ h => h.notice hg hReceives.notice
    · exact fun s h => h.of_slots s.slot_conclude
    · exact fun _ _ _ h => h.of_slots rfl
  cases h with
  | enter hFresh => exact ⟨.free, .inl rfl, Scheduler.coherent_enter hg hFresh⟩
  | rest hReach => exact hReach.coherent hg
  | before hHistory hm => exact ⟨.free, .inl rfl, (hMoments hHistory _ hm).1⟩
  | after hHistory hm => exact (hMoments hHistory _ hm).2

namespace Scheduler

variable {s : Scheduler g}

/-- Nothing is left to do for a scheduler but to wait. -/
structure IsSettled (s : Scheduler g) : Prop where
  /-- Nothing is ready, unless the run is paused. -/
  ready : s.paused = false → ∀ i, s.statusOf i ≠ .ready
  /-- A pending step waits for a retry, or for an edge into it to be decided. -/
  pending : ∀ i, s.statusOf i = .pending → (s.controlOf i).waiting = false →
    g.kindOf i ≠ .errorHandler →
    ∃ source tag, (source, tag) ∈ g.incoming i ∧ s.edgeState source tag = .undecided
  /-- A pending error handler waits for a retry, or for a step that it guards to be through. -/
  handler : ∀ i, s.statusOf i = .pending → (s.controlOf i).waiting = false →
    g.kindOf i = .errorHandler →
    ∃ j ∈ g.guarded i, s.statusOf j ≠ .completed ∧ s.statusOf j ≠ .skipped
  /-- A loop in a round waits for a step of its body to be through. -/
  frame : ∀ loop f, (s.controlOf loop).frame = some f → f.position < f.items.length ∧
    ∃ i ∈ g.body loop, s.statusOf i ≠ .completed ∧ s.statusOf i ≠ .skipped

theorem ne_of_not_isSettled {status : StepStatus} (h : ¬ status.isSettled = true) :
    status ≠ .completed ∧ status ≠ .skipped := by
  cases status <;> simp_all [StepStatus.isSettled]

/-- A coherent scheduler that has nothing left to do is settled. -/
theorem Rested.isSettled (h : s.Rested) (hg : g.Sound) {hand : Hand g}
    (hCoherent : s.board.Coherent hand) : s.IsSettled where
  ready hActive i hReady := by
    have hNone : s.readySteps = [] := h.started.resolve_left (by simp [hActive])
    have hMem : i ∈ s.readySteps :=
      List.mem_filter.mpr ⟨List.mem_finRange i, by simpa using hReady⟩
    simp [hNone] at hMem
  pending i hPending hWaiting hKind := by
    obtain ⟨hEntry, hEdge⟩ := exists_edge_of_pending hg hCoherent hPending
    exact exists_undecided_incoming (h.promoted i) hPending hWaiting hEntry hKind hEdge
  handler i hPending hWaiting hKind := by
    have hEntry := (exists_edge_of_pending hg hCoherent hPending).1
    obtain ⟨j, hGuarded, hUnsettled⟩ :=
      exists_unsettled_guarded (h.promoted i) hPending hWaiting hEntry hKind
    exact ⟨j, hGuarded, ne_of_not_isSettled hUnsettled⟩
  frame loop f hFrame := by
    have hIn : f.position < f.items.length := (hCoherent.frame loop f hFrame).2.2.2.2
    have hOpen : ¬ s.bodySettled loop = true := fun hSettled =>
      h.rounds loop ⟨⟨f, hFrame, hIn⟩, hSettled⟩
    obtain ⟨i, hi, hUnsettled⟩ := by simpa [bodySettled] using hOpen
    exact ⟨hIn, i, hi, ne_of_not_isSettled (by simp [hUnsettled])⟩

/-- A scheduler that goes on from a coherent state, and is not over then, is settled. -/
theorem isSettled_advance (hg : g.Sound) {hand : Hand g} (hAtRest : AtRest hand s)
    (hCoherent : s.board.Coherent hand) (hOpen : s.advance.isOver = false) :
    s.advance.IsSettled := by
  have hBefore : s.isOver = false := by
    by_contra hOver
    have hOver : s.isOver = true := by simpa using hOver
    rw [advance, if_pos hOver, hOver] at hOpen
    cases hOpen
  obtain rfl := hAtRest.free hBefore
  obtain ⟨hand', hMoves, -⟩ := advance_goes hg s
  have hAfter : s.advance.board.Coherent hand' :=
    hMoves.invariant (P := fun hand s => s.board.Coherent hand)
      (fun _ _ _ _ hMove h => h.rule hg (hMove.rule hg)) hCoherent
  exact ((advance_rested hg s).resolve_left (by simp [hOpen])).isSettled hg hAfter

end Scheduler

namespace Course

/-- From every state that a run can come to, a scheduler that goes on comes to an end, and in one way
only. If the run is not over then, nothing is left to do but to wait: nothing is ready unless the run is
paused, a pending step waits for a retry, for an edge or for a step that it guards, and a loop in a
round waits for a step of its body. -/
theorem advance_settles {allowOrphans : Bool} {steps : List Step} {g : Graph}
    (hCompile : Graph.compile allowOrphans steps = .ok g) {s : Scheduler g} (hVisits : Visits s) :
    (∃ log, s.Advances log s.advance) ∧
      (∀ log log' t t', s.Advances log t → s.Advances log' t' →
        log = log' ∧ t = t' ∧ t = s.advance) ∧
      (s.advance.isOver = false → s.advance.IsSettled) := by
  have hg := Graph.sound_of_compile hCompile
  obtain ⟨hand, hAtRest, hCoherent⟩ := hVisits.coherent hg
  refine ⟨Scheduler.exists_advances hg s, fun log log' t t' hAdvances hAdvances' => ?_,
    Scheduler.isSettled_advance hg hAtRest hCoherent⟩
  obtain ⟨hLog, hSame⟩ := hAdvances.unique hAdvances'
  exact ⟨hLog, hSame, hAdvances.eq_advance hg⟩

/-- Whether a workflow compiles to a graph in which a run without variables comes to a goal when it
begins. -/
def begins (script : Script) (goal : (g : Graph) → Scheduler g → Prop)
    [∀ g, DecidablePred (goal g)] : Bool :=
  match Graph.compile false script.steps with
  | .error _ => false
  | .ok g => ((script.submission [] g).enter.advanceWithin Script.rounds).any fun s => goal g s

theorem exists_of_begins {script : Script} {goal : (g : Graph) → Scheduler g → Prop}
    [∀ g, DecidablePred (goal g)] (h : begins script goal = true) :
    ∃ g, Graph.compile false script.steps = .ok g ∧ goal g (script.submission [] g).enter.advance := by
  unfold begins at h
  split at h
  · cases h
  · rename_i g hCompile
    obtain ⟨s, hAdvance, hGoal⟩ := (Option.any_eq_true _ _).mp h
    obtain rfl := Scheduler.advance_of_advanceWithin hAdvance
    exact ⟨g, hCompile, of_decide_eq_true hGoal⟩

/-- When a run begins, its scheduler goes on until a loop is in its first round, and waits there for
the step of its body. -/
theorem settled_of_looped :
    ∃ g s, Graph.compile false Script.looped.steps = .ok g ∧ Visits (g := g) s ∧
      (∃ log, s.Advances log s.advance) ∧ s.advance.isOver = false ∧
      ∃ loop f, (s.advance.controlOf loop).frame = some f ∧ f.position < f.items.length ∧
        ∃ i ∈ g.body loop, s.advance.statusOf i ≠ .completed ∧ s.advance.statusOf i ≠ .skipped := by
  have hBegins : begins Script.looped
      (fun _ s => s.isOver = false ∧ ∃ loop, (s.controlOf loop).frame ≠ none) = true := by
    decide +kernel
  obtain ⟨g, hCompile, hOpen, loop, hSome⟩ := exists_of_begins hBegins
  obtain ⟨f, hFrame⟩ := Option.ne_none_iff_exists'.mp hSome
  have hVisits : Visits (Script.looped.submission [] g).enter :=
    .enter ⟨_, _, _, _, _, _, _, Course.scriptTime, rfl⟩
  obtain ⟨hEnds, -, hSettled⟩ := advance_settles hCompile hVisits
  obtain ⟨hIn, hMember⟩ := (hSettled hOpen).frame loop f hFrame
  exact ⟨g, _, hCompile, hVisits, hEnds, hOpen, loop, f, hFrame, hIn, hMember⟩

end Course

end Workflow

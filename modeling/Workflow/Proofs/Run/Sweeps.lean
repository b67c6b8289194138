/-
Workflow.Proofs.Run.Sweeps — how a scheduler goes on, sweep by sweep.

A scheduler goes through its steps in order and does at each what can be
done. It promotes steps until a sweep finds none to promote, then ends the
rounds that are through, and does both again until no round is ended. Then
it starts what is ready, unless the run is paused, and begins anew until
nothing is ready. The relations below say so without any bound on the
number of sweeps, and note every act; each has exactly one outcome, which is
what the functions give.

* `Sweeps`, `Refreshes`, `Settles`, `Advances` — the four loops, each with
  what is done in it.
* `Sweeps.less` — a sweep does nothing, or leaves less to do.
* `exists_advances`, `Advances.unique` — the loops come to an end, in one
  way only.
* `Advances.leads` — what is done is done act by act.
-/
import Workflow.Proofs.Run.History

namespace Workflow.Scheduler

variable {g : Graph}

/-! ## The loops -/

/-- A scheduler goes through some steps in order, and does at each what is possible as long as the
run is not over. -/
inductive Sweeps (act : g.Index → Act g) :
    Scheduler g → List g.Index → List (Moment g) → Scheduler g → Prop
  | nil {s} : Sweeps act s [] [] s
  | pass {s i rest log t} (hIdle : ¬ (s.isOver = false ∧ (act i).IsPossible s))
      (hRest : Sweeps act s rest log t) : Sweeps act s (i :: rest) log t
  | take {s i rest log t} (hOpen : s.isOver = false) (hPossible : (act i).IsPossible s)
      (hRest : Sweeps act ((act i).apply s) rest log t) :
      Sweeps act s (i :: rest) (⟨s, act i⟩ :: log) t

/-- A scheduler promotes steps until a sweep finds none to promote. -/
inductive Refreshes : Scheduler g → List (Moment g) → Scheduler g → Prop
  | last {s t} (hSweep : Sweeps .promote s g.indices [] t) : Refreshes s [] t
  | more {s log t log' u} (hSweep : Sweeps .promote s g.indices log t) (hSome : log ≠ [])
      (hRest : Refreshes t log' u) : Refreshes s (log ++ log') u

/-- A scheduler promotes steps and ends rounds until a sweep finds no round to end. -/
inductive Settles : Scheduler g → List (Moment g) → Scheduler g → Prop
  | last {s log t u} (hRefreshes : Refreshes s log t) (hSweep : Sweeps .close t g.indices [] u) :
      Settles s log u
  | more {s log t log' u log'' v} (hRefreshes : Refreshes s log t)
      (hSweep : Sweeps .close t g.indices log' u) (hSome : log' ≠ [])
      (hRest : Settles u log'' v) : Settles s (log ++ (log' ++ log'')) v

/-- A scheduler settles what is decided and starts what is ready until nothing is ready. It stops
when the run is over, and starts nothing while the run is paused. -/
inductive Advances : Scheduler g → List (Moment g) → Scheduler g → Prop
  | ended {s} (hOver : s.isOver = true) : Advances s [] s
  | paused {s log t} (hOpen : s.isOver = false) (hSettles : Settles s log t)
      (hPaused : t.paused = true) : Advances s log t
  | still {s log t} (hOpen : s.isOver = false) (hSettles : Settles s log t)
      (hActive : t.paused = false) (hNone : t.readySteps = []) : Advances s log t
  | more {s log t log' u log'' v} (hOpen : s.isOver = false) (hSettles : Settles s log t)
      (hActive : t.paused = false) (hSome : t.readySteps ≠ [])
      (hSweep : Sweeps .start t t.readySteps log' u) (hRest : Advances u log'' v) :
      Advances s (log ++ (log' ++ log'')) v

variable {act : g.Index → Act g} {s t t' : Scheduler g} {steps : List g.Index}
  {log log' : List (Moment g)}

/-! ## One sweep -/

namespace Sweeps

/-- A sweep does nothing and finds nothing to do, or it leaves less. -/
theorem less {μ : Type} [Preorder μ] {count : Scheduler g → μ} (h : Sweeps act s steps log t)
    (hLess : ∀ s i, s.isOver = false → (act i).IsPossible s → count ((act i).apply s) < count s) :
    log = [] ∧ t = s ∨ log ≠ [] ∧ count t < count s := by
  induction h with
  | nil => exact .inl ⟨rfl, rfl⟩
  | pass _ _ ih => exact ih
  | take hOpen hPossible _ ih =>
    refine .inr ⟨List.cons_ne_nil _ _, ?_⟩
    rcases ih with ⟨-, rfl⟩ | ⟨-, hRest⟩
    · exact hLess _ _ hOpen hPossible
    · exact hRest.trans (hLess _ _ hOpen hPossible)

theorem keeps {P : Scheduler g → Prop} (h : Sweeps act s steps log t)
    (hAct : ∀ s i, P s → P ((act i).apply s)) (hP : P s) : P t := by
  induction h with
  | nil => exact hP
  | pass _ _ ih => exact ih hP
  | take _ _ _ ih => exact ih (hAct _ _ hP)

/-- All that is done in a sweep is of one kind. -/
theorem act_of_mem (h : Sweeps act s steps log t) {m : Moment g} (hm : m ∈ log) :
    ∃ i, m.act = act i := by
  induction h with
  | nil => cases hm
  | pass _ _ ih => exact ih hm
  | take _ _ _ ih =>
    rcases List.mem_cons.mp hm with rfl | hm
    · exact ⟨_, rfl⟩
    · exact ih hm

theorem leads (h : Sweeps act s steps log t) (hOwn : ∀ i, (act i).IsOwn) : s.Leads log t := by
  induction h with
  | nil => exact .nil
  | pass _ _ ih => exact ih
  | take hOpen hPossible _ ih => exact (Leads.single _ hOpen (hOwn _) hPossible).trans ih

theorem unique (h : Sweeps act s steps log t) (h' : Sweeps act s steps log' t') :
    log = log' ∧ t = t' := by
  induction h generalizing log' t' with
  | nil =>
    cases h'
    exact ⟨rfl, rfl⟩
  | pass hIdle _ ih =>
    cases h' with
    | pass _ hRest => exact ih hRest
    | take hOpen hPossible _ => exact absurd ⟨hOpen, hPossible⟩ hIdle
  | take hOpen hPossible _ ih =>
    cases h' with
    | pass hIdle _ => exact absurd ⟨hOpen, hPossible⟩ hIdle
    | take _ _ hRest =>
      obtain ⟨rfl, rfl⟩ := ih hRest
      exact ⟨rfl, rfl⟩

end Sweeps

/-- To make some changes in order is a sweep if each change is an act, or for nothing. -/
theorem exists_sweeps {change : Scheduler g → g.Index → Scheduler g} (ok : Scheduler g → Prop)
    (hOk : ∀ s i, ok s → ok (change s i))
    (hChange : ∀ s i, ok s → s.isOver = false ∧ (act i).IsPossible s ∧ change s i = (act i).apply s ∨
      ¬ (s.isOver = false ∧ (act i).IsPossible s) ∧ change s i = s)
    (steps : List g.Index) {s : Scheduler g} (h : ok s) :
    ∃ log, Sweeps act s steps log (steps.foldl change s) := by
  induction steps generalizing s with
  | nil => exact ⟨[], .nil⟩
  | cons i rest ih =>
    obtain ⟨log, hRest⟩ := ih (hOk s i h)
    rw [List.foldl_cons]
    rcases hChange s i h with ⟨hOpen, hPossible, hSame⟩ | ⟨hIdle, hSame⟩
    · rw [hSame] at hRest ⊢
      exact ⟨_, .take hOpen hPossible hRest⟩
    · rw [hSame] at hRest ⊢
      exact ⟨_, .pass hIdle hRest⟩

theorem exists_sweeps_promote (hOpen : s.isOver = false) (steps : List g.Index) :
    ∃ log, Sweeps .promote s steps log (steps.foldl promote s) := by
  refine exists_sweeps (fun t => t.isOver = false)
    (fun t i hOpen => (isOver_promote t i).trans hOpen) (fun t i hOpen => ?_) steps hOpen
  by_cases hPossible : t.promotion? i = none
  · exact .inr ⟨fun h => h.2 hPossible, by simp [promote, hPossible]⟩
  · exact .inl ⟨hOpen, hPossible, rfl⟩

theorem exists_sweeps_close (hOpen : s.isOver = false) (steps : List g.Index) :
    ∃ log, Sweeps .close s steps log (steps.foldl closeRound s) := by
  refine exists_sweeps (fun t => t.isOver = false)
    (fun t i hOpen => (isOver_closeRound t i).trans hOpen) (fun t i hOpen => ?_) steps hOpen
  by_cases hPossible : t.RoundOver i
  · exact .inl ⟨hOpen, hPossible, rfl⟩
  · exact .inr ⟨fun h => hPossible h.2, closeRound_of_not_over hPossible⟩

theorem exists_sweeps_start (s : Scheduler g) (steps : List g.Index) :
    ∃ log, Sweeps .start s steps log (steps.foldl startReady s) := by
  refine exists_sweeps (fun _ => True) (fun _ _ h => h) (fun t i _ => ?_) steps trivial
  by_cases hPossible : t.isOver = false ∧ t.statusOf i = .ready
  · exact .inl ⟨hPossible.1, hPossible.2, by simp [startReady, hPossible, Act.apply]⟩
  · refine .inr ⟨hPossible, ?_⟩
    simp only [startReady]
    split
    · rfl
    · rename_i hOpen
      rw [if_neg fun hReady => hPossible ⟨by simpa using hOpen, hReady⟩]

theorem pendingCount_promote {i : g.Index} (hPossible : (Act.promote i).IsPossible s) :
    (s.promote i).pendingCount < s.pendingCount :=
  (s.promote_refused_or_less i).resolve_left fun h => hPossible h.1

theorem remainingRounds_close {loop : g.Index} (hPossible : (Act.close loop).IsPossible s) :
    (s.closeRound loop).remainingRounds < s.remainingRounds :=
  (s.closeRound_refused_or_less loop).resolve_left fun h => h.1 hPossible

/-! ## The loops come to an end -/

theorem isOver_refreshFrontier (s : Scheduler g) : s.refreshFrontier.isOver = s.isOver :=
  refreshFrontier_keeps (P := fun t => t.isOver = s.isOver)
    (fun t i h => (isOver_promote t i).trans h) rfl

theorem exists_refreshes (hOpen : s.isOver = false) :
    ∃ log, Refreshes s log s.refreshFrontier := by
  induction s using refreshFrontier.induct with
  | case1 s next hFewer ih =>
    obtain ⟨log, hSweep⟩ := exists_sweeps_promote hOpen g.indices
    have hNext : next.isOver = false :=
      hSweep.keeps (P := fun t => t.isOver = false) (fun t i h => (isOver_promote t i).trans h) hOpen
    obtain ⟨more, hRest⟩ := ih hNext
    rw [refreshFrontier, if_pos hFewer]
    refine ⟨_, .more hSweep ?_ hRest⟩
    rintro rfl
    rcases hSweep.less fun _ _ _ => pendingCount_promote with ⟨-, hSame⟩ | ⟨hSome, -⟩
    · exact absurd (congrArg pendingCount hSame) hFewer.ne
    · exact hSome rfl
  | case2 s next hSame =>
    obtain ⟨log, hSweep⟩ := exists_sweeps_promote hOpen g.indices
    rw [refreshFrontier, if_neg hSame]
    rcases hSweep.less fun _ _ _ => pendingCount_promote with ⟨rfl, -⟩ | ⟨-, hLess⟩
    · exact ⟨_, .last hSweep⟩
    · exact absurd hLess hSame

theorem exists_settles (hOpen : s.isOver = false) : ∃ log, Settles s log s.settle := by
  induction s using settle.induct with
  | case1 s next hFewer ih =>
    have hOpen' : s.refreshFrontier.isOver = false := (isOver_refreshFrontier s).trans hOpen
    obtain ⟨log, hRefreshes⟩ := exists_refreshes hOpen
    obtain ⟨log', hSweep⟩ := exists_sweeps_close hOpen' g.indices
    have hNext : next.isOver = false :=
      hSweep.keeps (P := fun t => t.isOver = false)
        (fun t i h => (isOver_closeRound t i).trans h) hOpen'
    obtain ⟨more, hRest⟩ := ih hNext
    rw [settle, if_pos hFewer]
    refine ⟨_, .more hRefreshes hSweep ?_ hRest⟩
    rintro rfl
    rcases hSweep.less fun _ _ _ => remainingRounds_close with ⟨-, hSame⟩ | ⟨hSome, -⟩
    · rw [← remainingRounds_refreshFrontier s] at hFewer
      exact absurd (congrArg remainingRounds hSame) hFewer.ne
    · exact hSome rfl
  | case2 s next hSame =>
    have hOpen' : s.refreshFrontier.isOver = false := (isOver_refreshFrontier s).trans hOpen
    obtain ⟨log, hRefreshes⟩ := exists_refreshes hOpen
    obtain ⟨log', hSweep⟩ := exists_sweeps_close hOpen' g.indices
    rw [settle, if_neg hSame]
    rcases hSweep.less fun _ _ _ => remainingRounds_close with ⟨rfl, -⟩ | ⟨-, hLess⟩
    · exact ⟨_, .last hRefreshes hSweep⟩
    · rw [remainingRounds_refreshFrontier] at hLess
      exact absurd hLess hSame

/-- What is settled stays as it is when it is settled once more. -/
theorem settle_of_settled (hPromoted : ∀ i, s.promotion? i = none)
    (hRounds : ∀ loop, ¬ s.RoundOver loop) : s.settle = s := by
  have hSame : ∀ change : Scheduler g → g.Index → Scheduler g, (∀ i, change s i = s) →
      g.indices.foldl change s = s := by
    intro change hChange
    refine foldl_keeps (P := fun t => t = s) ?_ g.indices rfl
    rintro t i rfl
    exact hChange i
  have hRefresh : s.refreshFrontier = s := by
    have hSweep := hSame promote fun i => by simp [promote, hPromoted i]
    rw [refreshFrontier]
    simp only [hSweep, lt_irrefl, if_false]
  rw [settle]
  simp only [hRefresh, hSame closeRound fun loop => closeRound_of_not_over (hRounds loop),
    lt_irrefl, if_false]

/-- A scheduler that has nothing left to do stays as it is when it goes on. -/
theorem Rested.advance (h : s.Rested) : s.advance = s := by
  rw [Scheduler.advance, settle_of_settled h.promoted h.rounds]
  split
  · rfl
  · cases hPaused : s.paused with
    | true => exact if_pos hPaused
    | false =>
      have hNone : s.readySteps = [] := h.started.resolve_left (by simp [hPaused])
      have hSame : ¬ Closer s s := fun hLess => lt_irrefl _ (closer_iff.mp hLess)
      simp [hNone, hSame]

/-- A scheduler comes to an end, whatever its state is, because nothing is left to do: that every
sweep has to come closer to the end is never what stops it. -/
theorem exists_advances (hg : g.Sound) (s : Scheduler g) : ∃ log, Advances s log s.advance := by
  induction s using advance_sweeps with
  | ended s hOver hSame =>
    rw [hSame]
    exact ⟨[], .ended hOver⟩
  | paused s hOpen hPaused hSame =>
    obtain ⟨log, hSettles⟩ := exists_settles hOpen
    rw [hSame]
    exact ⟨log, .paused hOpen hSettles hPaused⟩
  | more s hOpen hActive hSame ih =>
    obtain ⟨log, hSettles⟩ := exists_settles hOpen
    rw [hSame]
    by_cases hNone : s.settle.readySteps = []
    · obtain ⟨hPromoted, hRounds⟩ := settle_settled s
      have hRested : s.settle.Rested := ⟨hPromoted, hRounds, .inr hNone⟩
      rw [hNone, List.foldl_nil, hRested.advance]
      exact ⟨log, .still hOpen hSettles hActive hNone⟩
    · obtain ⟨log', hSweep⟩ := exists_sweeps_start s.settle s.settle.readySteps
      obtain ⟨log'', hRest⟩ := ih
      exact ⟨_, .more hOpen hSettles hActive hNone hSweep hRest⟩
  | last s hOpen hActive hNot hSame =>
    obtain ⟨log, hSettles⟩ := exists_settles hOpen
    have hNone := readySteps_settle_of_not_closer hg hOpen hNot
    rw [hSame, hNone]
    exact ⟨log, .still hOpen hSettles hActive hNone⟩

/-! ## The loops have one outcome -/

theorem Refreshes.unique (h : Refreshes s log t) (h' : Refreshes s log' t') :
    log = log' ∧ t = t' := by
  induction h generalizing log' t' with
  | last hSweep =>
    cases h' with
    | last hSweep' => exact hSweep.unique hSweep'
    | more hSweep' hSome _ => exact absurd (hSweep.unique hSweep').1.symm hSome
  | more hSweep hSome _ ih =>
    cases h' with
    | last hSweep' => exact absurd (hSweep.unique hSweep').1 hSome
    | more hSweep' _ hRest =>
      obtain ⟨rfl, rfl⟩ := hSweep.unique hSweep'
      obtain ⟨rfl, rfl⟩ := ih hRest
      exact ⟨rfl, rfl⟩

theorem Settles.unique (h : Settles s log t) (h' : Settles s log' t') : log = log' ∧ t = t' := by
  induction h generalizing log' t' with
  | last hRefreshes hSweep =>
    cases h' with
    | last hRefreshes' hSweep' =>
      obtain ⟨rfl, rfl⟩ := hRefreshes.unique hRefreshes'
      exact ⟨rfl, (hSweep.unique hSweep').2⟩
    | more hRefreshes' hSweep' hSome _ =>
      obtain ⟨rfl, rfl⟩ := hRefreshes.unique hRefreshes'
      exact absurd (hSweep.unique hSweep').1.symm hSome
  | more hRefreshes hSweep hSome _ ih =>
    cases h' with
    | last hRefreshes' hSweep' =>
      obtain ⟨rfl, rfl⟩ := hRefreshes.unique hRefreshes'
      exact absurd (hSweep.unique hSweep').1 hSome
    | more hRefreshes' hSweep' _ hRest =>
      obtain ⟨rfl, rfl⟩ := hRefreshes.unique hRefreshes'
      obtain ⟨rfl, rfl⟩ := hSweep.unique hSweep'
      obtain ⟨rfl, rfl⟩ := ih hRest
      exact ⟨rfl, rfl⟩

theorem Advances.unique (h : Advances s log t) (h' : Advances s log' t') :
    log = log' ∧ t = t' := by
  induction h generalizing log' t' with
  | ended hOver => cases h' <;> simp_all
  | paused hOpen hSettles hPaused =>
    cases h' with
    | ended hOver => simp [hOpen] at hOver
    | paused _ hSettles' _ => exact hSettles.unique hSettles'
    | still _ hSettles' hActive _ | more _ hSettles' hActive _ _ _ =>
      obtain ⟨rfl, rfl⟩ := hSettles.unique hSettles'
      simp [hPaused] at hActive
  | still hOpen hSettles hActive hNone =>
    cases h' with
    | ended hOver => simp [hOpen] at hOver
    | paused _ hSettles' hPaused =>
      obtain ⟨rfl, rfl⟩ := hSettles.unique hSettles'
      simp [hPaused] at hActive
    | still _ hSettles' _ _ => exact hSettles.unique hSettles'
    | more _ hSettles' _ hSome _ _ =>
      obtain ⟨rfl, rfl⟩ := hSettles.unique hSettles'
      exact absurd hNone hSome
  | more hOpen hSettles hActive hSome hSweep _ ih =>
    cases h' with
    | ended hOver => simp [hOpen] at hOver
    | paused _ hSettles' hPaused =>
      obtain ⟨rfl, rfl⟩ := hSettles.unique hSettles'
      simp [hPaused] at hActive
    | still _ hSettles' _ hNone =>
      obtain ⟨rfl, rfl⟩ := hSettles.unique hSettles'
      exact absurd hNone hSome
    | more _ hSettles' _ _ hSweep' hRest =>
      obtain ⟨rfl, rfl⟩ := hSettles.unique hSettles'
      obtain ⟨rfl, rfl⟩ := hSweep.unique hSweep'
      obtain ⟨rfl, rfl⟩ := ih hRest
      exact ⟨rfl, rfl⟩

theorem Advances.eq_advance (hg : g.Sound) (h : Advances s log t) : t = s.advance := by
  obtain ⟨_, hAdvance⟩ := exists_advances hg s
  exact (h.unique hAdvance).2

/-! ## Act by act -/

/-- A scheduler that goes on by itself reads nothing. -/
theorem Leads.act_ne_read (h : s.Leads log t) {x : Moment g} (hx : x ∈ log) (m : Message g) :
    x.act ≠ .read m := by
  induction h with
  | nil => cases hx
  | snoc _ _ hOwn _ ih =>
    rcases List.mem_append.mp hx with hx | hx
    · exact ih hx
    · rw [List.mem_singleton.mp hx]
      rintro rfl
      exact hOwn

theorem Refreshes.leads (h : Refreshes s log t) : s.Leads log t := by
  induction h with
  | last hSweep => exact hSweep.leads fun _ => trivial
  | more hSweep _ _ ih => exact (hSweep.leads fun _ => trivial).trans ih

theorem Settles.leads (h : Settles s log t) : s.Leads log t := by
  induction h with
  | last hRefreshes hSweep =>
    simpa using hRefreshes.leads.trans (hSweep.leads fun _ => trivial)
  | more hRefreshes hSweep _ _ ih =>
    exact hRefreshes.leads.trans ((hSweep.leads fun _ => trivial).trans ih)

theorem Advances.leads (h : Advances s log t) : s.Leads log t := by
  induction h with
  | ended => exact .nil
  | paused _ hSettles _ | still _ hSettles _ _ => exact hSettles.leads
  | more _ hSettles _ _ hSweep _ ih =>
    exact hSettles.leads.trans ((hSweep.leads fun _ => trivial).trans ih)

end Workflow.Scheduler

/-
Workflow.Proofs.Run.Pause — a paused run starts nothing, and a pause leaves no
trace.

While a run is paused its scheduler still takes note of what it is told,
promotes steps and ends rounds, but no step is started, so none becomes
running and no attempt is counted. Between two turns a scheduler has nothing
left to do; so a pause that is taken back at once leaves it as it was.

* `Course.Chronicle` — what has happened in a run, exactly as its scheduler
  goes on; every run has one.
* `Advances.act_ne_start` — a paused scheduler that goes on starts nothing.
* `Desk.Honest` — a run that is not over says whether it is paused.
* `Rested.handle_pause`, `handle_resume` — to pause and to go on.
* `Course.pause_freezes` — what a pause does, and what is left of it.
-/
import Workflow.Proofs.Run.Attempts
import Workflow.Proofs.Run.Order
import Workflow.Proofs.Run.Sweeps

namespace Workflow

variable {g : Graph}

/-! ## Exact histories -/

namespace Course

/-- What has happened in a run that has come to a point, from its beginning and exactly as its
scheduler goes on in each turn. -/
inductive Chronicle : Course g → List (Moment g) → Prop
  | start (runId workflowId workflowName : String) (input : Json) (vars : Dict Json)
      (created now : Instant) (stepTimeout : Option Duration) {log : List (Moment g)}
      (hAdvances : Scheduler.Advances ({ Scheduler.initial
        (RunState.initial g runId workflowId workflowName input vars created) stepTimeout
          with now } : Scheduler g).enter log ({ Scheduler.initial
        (RunState.initial g runId workflowId workflowName input vars created) stepTimeout
          with now } : Scheduler g).launch) :
      Chronicle (start (Scheduler.initial
        (RunState.initial g runId workflowId workflowName input vars created) stepTimeout) now) log
  | conclude {p : Course g} {log : List (Moment g)} (hBefore : Chronicle p log) (now : Instant)
      (hOpen : p.scheduler.isOver = false) : Chronicle (p.conclude now) log
  | read {p : Course g} {log more : List (Moment g)} (hBefore : Chronicle p log) (m : Message g)
      (now : Instant) (hOpen : p.scheduler.isOver = false)
      (hMore : p.scheduler.conclude.state.isFinal = false) (hExpected : p.Expects m)
      (hAdvances : Scheduler.Advances (({ p.scheduler with now } : Scheduler g).heed m) more
        (Process.handle { p.scheduler with now } m)) :
      Chronicle (p.read m now) (log ++ ⟨{ p.scheduler with now }, .read m⟩ :: more)

variable {p : Course g} {log : List (Moment g)}

theorem Chronicle.history (h : Chronicle p log) : History p log := by
  induction h with
  | start runId workflowId workflowName input vars created now stepTimeout hAdvances =>
    exact .start runId workflowId workflowName input vars created now stepTimeout hAdvances.leads
  | conclude _ now hOpen ih => exact ih.conclude now hOpen
  | read _ m now hOpen hMore hExpected hAdvances ih =>
    exact ih.read m now hOpen hMore hExpected hAdvances.leads

theorem Chronicle.exists_read (hg : g.Sound) (h : Chronicle p log) (m : Message g) (now : Instant)
    (hOpen : p.scheduler.isOver = false) (hMore : p.scheduler.conclude.state.isFinal = false)
    (hExpected : p.Expects m) :
    ∃ more, Scheduler.Advances (({ p.scheduler with now } : Scheduler g).heed m) more
        (Process.handle { p.scheduler with now } m) ∧
      Chronicle (p.read m now) (log ++ ⟨{ p.scheduler with now }, .read m⟩ :: more) := by
  obtain ⟨more, hAdvances⟩ := Scheduler.exists_advances hg
    (({ p.scheduler with now } : Scheduler g).heed m)
  rw [← Scheduler.handle_eq] at hAdvances
  exact ⟨more, hAdvances, h.read m now hOpen hMore hExpected hAdvances⟩

/-- A run can come to a point if and only if something has happened by which it has come there. -/
theorem reached_iff_chronicle (hg : g.Sound) : Reached p ↔ ∃ log, Chronicle p log := by
  refine ⟨fun hReach => ?_, fun ⟨log, h⟩ => h.history.reached⟩
  induction hReach with
  | start runId workflowId workflowName input vars created now stepTimeout _ =>
    obtain ⟨log, hAdvances⟩ := Scheduler.exists_advances hg (Scheduler.enter { Scheduler.initial
      (RunState.initial g runId workflowId workflowName input vars created) stepTimeout with now })
    exact ⟨log, .start runId workflowId workflowName input vars created now stepTimeout hAdvances⟩
  | turn _ hTurn _ ih =>
    obtain ⟨log, hBefore⟩ := ih
    cases hTurn with
    | conclude now hOpen => exact ⟨log, hBefore.conclude now hOpen⟩
    | read m now hOpen hMore hExpected =>
      obtain ⟨_, -, hRead⟩ := hBefore.exists_read hg m now hOpen hMore hExpected
      exact ⟨_, hRead⟩

end Course

/-! ## Who pauses a run -/

/-- No move pauses a run or goes on with it, and the status of a run changes only when it ends. -/
theorem Rule.desk_cases {hand hand' : Hand g} {b b' : Board g} (hRule : Rule hand b hand' b') :
    b'.desk.paused = b.desk.paused ∧
      (b'.desk.status = b.desk.status ∨ b'.desk.status.isFinal = true) := by
  cases hRule with
  | recover hOwes =>
    rw [Board.desk_recover]
    dsimp only
    split <;> simp [RunStatus.isFinal]
  | _ => simp [RunStatus.isFinal]

namespace Scheduler

variable {s t : Scheduler g} {log : List (Moment g)}

/-- Only a command pauses a run or goes on with it. -/
theorem paused_heed_of_event (hg : g.Sound) (hOpen : s.isOver = false) (e : Event g) :
    (s.heed (.event e)).paused = s.paused := by
  have hFinal : s.state.isFinal = false := (Bool.or_eq_false_iff.mp hOpen).1
  obtain ⟨hand, t, hReceives, hDeals⟩ := heed_deals hg hFinal (.event e)
  obtain ⟨-, -, hPaused⟩ := hDeals.invariant (P := fun _ u => u.paused = t.paused)
    (fun _ _ _ _ _ hMove hSame => (hMove.rule hg).desk_cases.1.trans hSame) rfl
  refine hPaused.trans ?_
  cases hReceives <;> rfl

theorem paused_startStep (hg : g.Sound) (s : Scheduler g) (i : g.Index) :
    (s.startStep i).paused = s.paused := by
  obtain ⟨-, -, hPaused⟩ := (begin_deals hg s i).invariant (P := fun _ t => t.paused = s.paused)
    (fun _ _ _ _ _ hMove hSame => (hMove.rule hg).desk_cases.1.trans hSame) rfl
  exact hPaused

theorem paused_promote (s : Scheduler g) (i : g.Index) : (s.promote i).paused = s.paused :=
  congrArg Desk.paused (desk_promote s i)

theorem paused_closeRound (s : Scheduler g) (loop : g.Index) :
    (s.closeRound loop).paused = s.paused :=
  congrArg Desk.paused (desk_closeRound s loop)

/-- Nothing but a command to go on ends a pause. -/
theorem paused_apply (hg : g.Sound) (hOpen : s.isOver = false) {act : Act g}
    (hAct : act ≠ .read (.command .resume)) (hPaused : s.paused = true) :
    (act.apply s).paused = true := by
  cases act with
  | read m =>
    cases m with
    | command c =>
      cases c with
      | pause => simp [Act.apply, heed, obey, hPaused]
      | resume => exact absurd rfl hAct
      | stop => exact hPaused
    | event e => exact (paused_heed_of_event hg hOpen e).trans hPaused
  | promote i => exact (paused_promote s i).trans hPaused
  | close loop => exact (paused_closeRound s loop).trans hPaused
  | start i => exact (paused_startStep hg s i).trans hPaused

/-! ## What a paused scheduler does not do -/

/-- What holds before a sweep and is kept by what is done in it holds before all of it. -/
theorem Sweeps.holds {act : g.Index → Act g} {steps : List g.Index} {P : Scheduler g → Prop}
    (h : Sweeps act s steps log t) (hAct : ∀ s i, P s → P ((act i).apply s)) (hP : P s) :
    ∀ m ∈ log, P m.scheduler := by
  induction h with
  | nil => simp
  | pass _ _ ih => exact ih hP
  | take _ _ _ ih => exact List.forall_mem_cons.mpr ⟨hP, ih (hAct _ _ hP)⟩

theorem Refreshes.act_ne_start (h : Refreshes s log t) {m : Moment g} (hm : m ∈ log) (i : g.Index) :
    m.act ≠ .start i := by
  induction h with
  | last => cases hm
  | more hSweep _ _ ih =>
    rcases List.mem_append.mp hm with hm | hm
    · obtain ⟨j, hAct⟩ := hSweep.act_of_mem hm
      simp [hAct]
    · exact ih hm

/-- Nothing is started while a scheduler settles. -/
theorem Settles.act_ne_start (h : Settles s log t) {m : Moment g} (hm : m ∈ log) (i : g.Index) :
    m.act ≠ .start i := by
  induction h with
  | last hRefreshes _ => exact hRefreshes.act_ne_start hm i
  | more hRefreshes hSweep _ _ ih =>
    rcases List.mem_append.mp hm with hm | hm
    · exact hRefreshes.act_ne_start hm i
    · rcases List.mem_append.mp hm with hm | hm
      · obtain ⟨j, hAct⟩ := hSweep.act_of_mem hm
        simp [hAct]
      · exact ih hm

/-- A scheduler that goes on starts nothing while it is paused. -/
theorem Advances.act_ne_start (hg : g.Sound) (h : Advances s log t) {m : Moment g} (hm : m ∈ log)
    (hPaused : m.scheduler.paused = true) (i : g.Index) : m.act ≠ .start i := by
  induction h with
  | ended => cases hm
  | paused _ hSettles _ | still _ hSettles _ _ => exact hSettles.act_ne_start hm i
  | more _ hSettles hActive _ hSweep _ ih =>
    rcases List.mem_append.mp hm with hm | hm
    · exact hSettles.act_ne_start hm i
    · rcases List.mem_append.mp hm with hm | hm
      · have hStarts := hSweep.holds (P := fun t => t.paused = false)
          (fun t j hActive => (paused_startStep hg t j).trans hActive) hActive m hm
        simp [hStarts] at hPaused
      · exact ih hm

end Scheduler

/-- Nothing is started at a moment at which a run is paused. -/
theorem Course.Chronicle.act_ne_start (hg : g.Sound) {p : Course g} {log : List (Moment g)}
    (h : Chronicle p log) {m : Moment g} (hm : m ∈ log) (hPaused : m.scheduler.paused = true)
    (i : g.Index) : m.act ≠ .start i := by
  induction h with
  | start _ _ _ _ _ _ _ _ hAdvances => exact hAdvances.act_ne_start hg hm hPaused i
  | conclude _ _ _ ih => exact ih hm
  | read _ m' now _ _ _ hAdvances ih =>
    rcases List.mem_append.mp hm with hm | hm
    · exact ih hm
    · rcases List.mem_cons.mp hm with rfl | hm
      · simp
      · exact hAdvances.act_ne_start hg hm hPaused i

/-! ## As long as a run is paused -/

theorem Scheduler.paused_conclude (s : Scheduler g) : s.conclude.paused = s.paused :=
  conclude_keeps paused (fun _ _ => rfl) (fun _ _ _ => rfl) s

namespace Course

variable {p : Course g} {log before after : List (Moment g)} {m : Moment g}

/-- What holds after a moment and is kept by all that are done after it holds ever after. -/
theorem History.since (hg : g.Sound) {P : Scheduler g → Prop} (hFirst : P m.next)
    (hAct : ∀ x ∈ after, x.scheduler.isOver = false → P x.scheduler → P x.next)
    (hConclude : ∀ s, P s → P s.conclude)
    (hNote : ∀ (s : Scheduler g) now, P s → P { s with requests := [], now })
    (h : History p log) (hSplit : log = before ++ m :: after) :
    P { p.scheduler with requests := p.asked } ∧ ∀ x ∈ after, P x.scheduler := by
  refine History.induction hg (P := fun log s => ∀ rest, log = before ++ m :: rest →
    (∀ x ∈ rest, x ∈ after) → P s ∧ ∀ x ∈ rest, P x.scheduler) ?_ ?_ ?_ ?_ h after hSplit
    fun _ hx => hx
  · intro _ _ rest hSplit
    simp at hSplit
  · intro log s act hOpen _ _ hBefore rest hSplit hIn
    rcases List.eq_nil_or_concat rest with rfl | ⟨rest, last, rfl⟩
    · obtain ⟨rfl, hLast⟩ := List.append_inj' hSplit rfl
      obtain rfl := List.singleton_inj.mp hLast
      exact ⟨hFirst, by simp⟩
    · rw [List.concat_eq_append] at hIn hSplit ⊢
      rw [← List.cons_append, ← List.append_assoc] at hSplit
      obtain ⟨hLog, hLast⟩ := List.append_inj' hSplit rfl
      obtain rfl := List.singleton_inj.mp hLast
      obtain ⟨hNow, hAll⟩ := hBefore rest hLog fun x hx => hIn x (List.mem_append_left _ hx)
      exact ⟨hAct ⟨s, act⟩ (hIn _ (by simp)) hOpen hNow,
        List.forall_mem_append.mpr ⟨hAll, List.forall_mem_singleton.mpr hNow⟩⟩
  · exact fun log s _ hBefore rest hSplit hIn => (hBefore rest hSplit hIn).imp_left (hConclude s)
  · exact fun log s now hBefore rest hSplit hIn => (hBefore rest hSplit hIn).imp_left (hNote s now)

/-- A run stays paused from a command to pause on until a command to go on. -/
theorem History.paused_since (hg : g.Sound) (h : History p log) (hSplit : log = before ++ m :: after)
    (hPause : m.act = .read (.command .pause))
    (hLater : ∀ x ∈ after, x.act ≠ .read (.command .resume)) :
    ∀ x ∈ after, x.scheduler.paused = true := by
  obtain ⟨s, act⟩ := m
  obtain rfl : act = .read (.command .pause) := hPause
  have hFirst : (Moment.next ⟨s, .read (.command .pause)⟩).paused = true := by
    cases hPaused : s.paused <;> simp [Moment.next, Act.apply, Scheduler.heed, Scheduler.obey,
      hPaused, Scheduler.mapState]
  exact (h.since hg (P := fun s => s.paused = true) hFirst
    (fun x hx hOpen hPaused => Scheduler.paused_apply hg hOpen (hLater x hx) hPaused)
    (fun s hPaused => s.paused_conclude.trans hPaused) (fun _ _ hPaused => hPaused) hSplit).2

end Course

/-- Whether no step that is running has been started in the meantime, and no attempt has been counted
but of steps that have begun anew. -/
structure Scheduler.Frozen (s t : Scheduler g) : Prop where
  running : ∀ i, t.statusOf i = .running → s.statusOf i = .running
  attempts : ∀ i, t.attempts i = s.attempts i ∨ t.attempts i = 0

namespace Scheduler.Frozen

variable {s t u : Scheduler g}

theorem trans (h : s.Frozen t) (h' : t.Frozen u) : s.Frozen u where
  running i hRunning := h.running i (h'.running i hRunning)
  attempts i := by
    rcases h'.attempts i with hSame | hNone
    · exact (h.attempts i).imp hSame.trans hSame.trans
    · exact .inr hNone

theorem of_record (h : s.Frozen t) (hRecord : ∀ i, u.record i = t.record i) : s.Frozen u where
  running i hRunning :=
    h.running i ((congrArg (·.1.status) (hRecord i)).symm.trans hRunning)
  attempts i := by
    have hSame : u.attempts i = t.attempts i := congrArg (·.1.attempt) (hRecord i)
    rw [hSame]
    exact h.attempts i

end Scheduler.Frozen

/-- What every moment keeps frozen since some moment is frozen since then. -/
theorem Course.History.frozen (hg : g.Sound) {p : Course g} {log before after : List (Moment g)}
    {m : Moment g} (h : History p log) (hSplit : log = before ++ m :: after)
    (hAll : ∀ x ∈ m :: after, x.scheduler.Frozen x.next) : m.scheduler.Frozen p.scheduler := by
  obtain ⟨hFirst, hLater⟩ := List.forall_mem_cons.mp hAll
  have hSince := (h.since hg (P := m.scheduler.Frozen) hFirst
    (fun x hx _ hBefore => hBefore.trans (hLater x hx))
    (fun s hBefore => hBefore.of_record s.record_conclude)
    (fun _ _ hBefore => hBefore.of_record fun _ => rfl) hSplit).1
  exact hSince.of_record fun _ => rfl

/-- A moment at which nothing is started leaves everything frozen: attempts go back to nothing when a
step begins anew, and change in no other way. -/
theorem Moment.frozen (hg : g.Sound) {m : Moment g} (hOpen : m.scheduler.isOver = false)
    (hPossible : m.act.IsPossible m.scheduler) (hCoherent : m.scheduler.board.Coherent .free)
    (hStarts : ∀ i, m.act ≠ .start i) (i : g.Index) :
    (m.next.statusOf i = .running → m.scheduler.statusOf i = .running) ∧
      (m.next.attempts i = m.scheduler.attempts i ∨ m.Resets i ∧ m.next.attempts i = 0) := by
  constructor
  · intro hAfter
    by_contra hBefore
    exact hStarts i (Moment.starts_of_running hg hOpen hPossible hCoherent hBefore hAfter)
  · by_cases hResets : m.Resets i
    · exact .inr ⟨hResets, Moment.attempts_of_reset hg hOpen hPossible hResets⟩
    · left
      have hNone : m.act.started? ≠ some i := by
        intro hStarted
        obtain ⟨s, act⟩ := m
        cases act <;> simp_all [Act.started?]
      rw [Moment.attempts_of_not_reset hg hOpen hPossible hResets, if_neg hNone]

/-! ## A pause that is taken back -/

/-- Whether a run that is not over says whether it is paused. -/
def Desk.Honest (d : Desk g) : Prop :=
  d.status.isFinal = true ∨ d.status = if d.paused then .paused else .running

namespace Scheduler

variable {s : Scheduler g}

theorem honest_obey (h : s.board.desk.Honest) (hOpen : s.isOver = false) (c : Command) :
    (s.obey c).board.desk.Honest := by
  have hFinal : s.state.status.isFinal = false := (Bool.or_eq_false_iff.mp hOpen).1
  have hStatus : s.state.status = if s.paused then .paused else .running :=
    h.resolve_left (by simpa [board] using hFinal)
  unfold Desk.Honest
  cases hPaused : s.paused <;> cases c <;>
    simp_all [obey, board, mapState, finish, RunState.finish, RunStatus.isFinal]

/-- A scheduler that is paused and does nothing else. -/
def pausing (s : Scheduler g) : Scheduler g :=
  { s with paused := true, state := { s.state with status := .paused } }

theorem isOver_pausing (hOpen : s.isOver = false) : s.pausing.isOver = false :=
  (Bool.or_eq_false_iff.mp hOpen).2

/-- A run that is paused is not concluded as long as steps remain. -/
theorem conclude_pausing (hMore : s.unfinishedSteps ≠ []) : s.pausing.conclude = s.pausing := by
  have hSome : ¬ s.pausing.unfinishedSteps.isEmpty = true := fun hEmpty =>
    hMore (List.isEmpty_iff.mp hEmpty)
  exact (if_neg hSome).trans (if_neg (by simp [isStuck, pausing]))

/-- A scheduler that has nothing left to do is paused and does nothing else. -/
theorem Rested.handle_pause (h : s.Rested) (hActive : s.paused = false) :
    Process.handle s (.command .pause) = s.pausing := by
  have hRested : s.pausing.Rested := ⟨h.promoted, h.rounds, .inl rfl⟩
  rw [handle_eq, ← hRested.advance]
  simp [heed, obey, hActive, mapState, pausing]

/-- A scheduler that has been paused while it had nothing left to do is as before when it goes on. -/
theorem Rested.handle_resume (h : s.Rested) (hActive : s.paused = false)
    (hStatus : s.state.status = .running) : Process.handle s.pausing (.command .resume) = s := by
  have hObey : s.pausing.heed (.command .resume) = s := by
    simp only [heed, obey, mapState, pausing, if_true, ← hActive, ← hStatus]
  rw [handle_eq, hObey, h.advance]

end Scheduler

namespace Course

/-- In every run that is not over, the status says whether it is paused. -/
theorem Reaches.honest (hg : g.Sound) {ok : Scheduler g → Prop} {p : Course g}
    (hReach : Reaches ok p) : p.scheduler.board.desk.Honest := by
  have hKept := hReach.invariant (P := fun _ s => s.board.desk.Honest)
    (Q := fun _ s => s.board.desk.Honest) hg ?_ ?_ ?_ (fun _ _ _ _ _ h => h) (fun _ _ h => h) ?_
  · obtain ⟨-, -, h⟩ := hKept
    exact h
  · rintro s ⟨_, _, _, _, _, _, _, _, rfl⟩
    rw [Scheduler.desk_enter]
    exact .inr rfl
  · intro hand s hand' s' hMove h
    obtain ⟨hPaused, hStatus⟩ := (hMove.rule hg).desk_cases
    rcases hStatus with hSame | hFinal
    · unfold Desk.Honest
      rw [hSame, hPaused]
      exact h
    · exact .inl hFinal
  · intro s m hand s' hOpen hReceives h
    cases hReceives with
    | command => exact Scheduler.honest_obey h hOpen _
    | stale | ended | early | due => exact h
  · intro s hOpen _ h
    rcases s.conclude_cases with hSame | ⟨-, hSame⟩ | ⟨-, -, hSame⟩
    · rw [hSame]
      exact h
    · rw [hSame]
      exact .inl rfl
    · rw [hSame]
      exact .inl rfl

/-- What becomes of a run when its scheduler takes a command and asks for nothing. -/
theorem read_command {p : Course g} {c : Command} {now : Instant} {s : Scheduler g}
    (hHandle : Process.handle { p.scheduler with now } (.command c) = s) (hNone : s.requests = []) :
    p.read (.command c) now = { p with scheduler := s, asked := [] } := by
  obtain ⟨state, control, stepTimeout, paused, running, lastToken, requests, crashed, time⟩ := s
  obtain rfl : requests = [] := hNone
  simp [read, hHandle, settle, grant]

theorem unfinished_of_more {s : Scheduler g} (hMore : s.conclude.state.isFinal = false) :
    s.unfinishedSteps ≠ [] := by
  intro hNone
  have hDone : s.conclude = s.finish .completed := if_pos (by simp [hNone])
  rw [hDone] at hMore
  cases hMore

section

variable (hg : g.Sound) {p : Course g} (hReach : Reached p) (hOpen : p.scheduler.isOver = false)
  (hActive : p.scheduler.paused = false)
include hg hReach hOpen hActive

/-- To pause a run that waits only pauses it. -/
theorem read_pause (now : Instant) : p.read (.command .pause) now =
    { p with scheduler := ({ p.scheduler with now } : Scheduler g).pausing, asked := [] } := by
  have hRested : p.scheduler.Rested := (hReach.rested hg).resolve_left (by simp [hOpen])
  have hNone : p.scheduler.requests = [] := hReach.requests_eq
  exact read_command ((hRested.note p.scheduler.requests now).handle_pause hActive) hNone

/-- A pause that is taken back before anything else comes leaves a run as it was, whenever that is. -/
theorem read_pause_resume (now now' : Instant) :
    (p.read (.command .pause) now).read (.command .resume) now' =
      { p with scheduler := { p.scheduler with now := now' }, asked := [] } := by
  have hRested : p.scheduler.Rested := (hReach.rested hg).resolve_left (by simp [hOpen])
  have hNone : p.scheduler.requests = [] := hReach.requests_eq
  have hStatus : p.scheduler.state.status = .running := by
    have hFinal : p.scheduler.state.status.isFinal = false := (Bool.or_eq_false_iff.mp hOpen).1
    have hHonest := (hReach.honest hg).resolve_left (by simpa [Scheduler.board] using hFinal)
    simpa [Scheduler.board, hActive] using hHonest
  rw [read_pause hg hReach hOpen hActive now]
  exact read_command ((hRested.note p.scheduler.requests now').handle_resume hActive hStatus) hNone

/-- As long as steps remain, a run can be paused and then go on. -/
theorem turns_pause_resume (hMore : p.scheduler.conclude.state.isFinal = false) (now now' : Instant) :
    Turn p (p.read (.command .pause) now) ∧ Turn (p.read (.command .pause) now)
      ((p.read (.command .pause) now).read (.command .resume) now') := by
  have hPause := read_pause hg hReach hOpen hActive now
  have hUnfinished : ({ p.scheduler with now } : Scheduler g).unfinishedSteps ≠ [] :=
    unfinished_of_more (s := p.scheduler) hMore
  refine ⟨.read _ now hOpen hMore trivial, .read _ now' ?_ ?_ trivial⟩
  · rw [hPause]
    exact Scheduler.isOver_pausing hOpen
  · rw [hPause]
    exact (congrArg (·.state.isFinal) (Scheduler.conclude_pausing hUnfinished)).trans rfl

end

/-- From a command to pause on until the next command to go on, nothing is started whatever comes: no
step becomes running, and attempts go back to nothing when a step begins anew and change in no other
way. And a run that waits for what comes next is as before when it is paused and goes on again. -/
theorem pause_freezes {allowOrphans : Bool} {steps : List Step} {g : Graph}
    (hCompile : Graph.compile allowOrphans steps = .ok g) :
    (∀ (p : Course g) log before m after, Chronicle p log → log = before ++ m :: after →
      m.act = .read (.command .pause) → (∀ x ∈ after, x.act ≠ .read (.command .resume)) →
        (∀ x ∈ m :: after, ∀ i, x.act ≠ .start i ∧
          (x.next.statusOf i = .running → x.scheduler.statusOf i = .running) ∧
          (x.next.attempts i = x.scheduler.attempts i ∨ x.Resets i ∧ x.next.attempts i = 0)) ∧
        m.scheduler.Frozen p.scheduler) ∧
    ∀ (p : Course g) now now', Reached p → p.scheduler.isOver = false →
      p.scheduler.conclude.state.isFinal = false → p.scheduler.paused = false →
        Turn p (p.read (.command .pause) now) ∧
        Turn (p.read (.command .pause) now)
          ((p.read (.command .pause) now).read (.command .resume) now') ∧
        (p.read (.command .pause) now).read (.command .resume) now' =
          { p with scheduler := { p.scheduler with now := now' }, asked := [] } := by
  have hg := Graph.sound_of_compile hCompile
  constructor
  · rintro p log before m after hChronicle hSplit hPause hLater
    have hHistory := hChronicle.history
    have hPaused := hHistory.paused_since hg hSplit hPause hLater
    have hStarts : ∀ x ∈ m :: after, ∀ i, x.act ≠ .start i := by
      intro x hx i
      rcases List.mem_cons.mp hx with rfl | hAfter
      · simp [hPause]
      · exact hChronicle.act_ne_start hg (hSplit ▸ List.mem_append_right _ hx) (hPaused x hAfter) i
    have hAll : ∀ x ∈ m :: after, ∀ i,
        (x.next.statusOf i = .running → x.scheduler.statusOf i = .running) ∧
          (x.next.attempts i = x.scheduler.attempts i ∨ x.Resets i ∧ x.next.attempts i = 0) := by
      intro x hx
      obtain ⟨hOpen, hPossible, hCoherent⟩ :=
        hHistory.moments hg (hSplit ▸ List.mem_append_right _ hx : x ∈ log)
      exact Moment.frozen hg hOpen hPossible hCoherent (hStarts x hx)
    refine ⟨fun x hx i => ⟨hStarts x hx i, hAll x hx i⟩, hHistory.frozen hg hSplit fun x hx => ?_⟩
    exact ⟨fun i => (hAll x hx i).1, fun i => (hAll x hx i).2.imp_right And.right⟩
  · intro p now now' hReach hOpen hMore hActive
    obtain ⟨hPause, hResume⟩ := turns_pause_resume hg hReach hOpen hActive hMore now now'
    exact ⟨hPause, hResume, read_pause_resume hg hReach hOpen hActive now now'⟩

/-- A call in a loop that comes to its end during a pause opens the next round, and the step of the body
is ready and not started; and the run is as before when the pause is taken back instead. -/
theorem frozen_of_looped :
    ∃ (g : Graph) (p q : Course g) (log before : List (Moment g)) (m : Moment g)
      (after : List (Moment g)), Graph.compile false Script.looped.steps = .ok g ∧
        Chronicle q log ∧ log = before ++ m :: after ∧ m.act = .read (.command .pause) ∧
        m.scheduler = { p.scheduler with now := scriptTime } ∧ m.scheduler.Frozen q.scheduler ∧
        (∃ i, m.scheduler.attempts i = 1 ∧ q.scheduler.attempts i = 0 ∧
          q.scheduler.statusOf i = .ready) ∧
        ((p.read (.command .pause) scriptTime).read (.command .resume) scriptTime).scheduler =
          m.scheduler := by
  have hShows : { Script.looped with cues := [] }.shows (fun _ _ => True) (fun g p =>
      p.scheduler.isOver = false ∧ p.scheduler.conclude.state.isFinal = false ∧
        p.scheduler.paused = false ∧
        ∃ c ∈ p.calls, ∃ q ∈ p.readAt? scriptTime Script.rounds (.command .pause),
          ∃ r ∈ q.readAt? scriptTime Script.rounds (.event (.finished c.1 c.2 (.ok []))),
            p.scheduler.attempts c.1 = 1 ∧ r.scheduler.attempts c.1 = 0 ∧
              r.scheduler.statusOf c.1 = StepStatus.ready) := by
    decide +kernel
  obtain ⟨g, p, hCompile, hReach, hOpen, hMore, hActive, ⟨i, token⟩, hCall, q, hPause, r, hRead, hGoal⟩ :=
    Script.exists_of_shows hShows
  have hg := Graph.sound_of_compile hCompile
  obtain ⟨-, -, hExpected, rfl⟩ := of_readAt? hPause
  obtain ⟨hOpen', hMore', hExpected', rfl⟩ := of_readAt? hRead
  obtain ⟨before, hBefore⟩ := (reached_iff_chronicle hg).mp hReach
  obtain ⟨more, hAdvances, hPaused⟩ := hBefore.exists_read hg _ scriptTime hOpen hMore hExpected
  obtain ⟨rest, hAdvances', hChronicle⟩ :=
    hPaused.exists_read hg _ scriptTime hOpen' hMore' hExpected'
  obtain ⟨hFreezes, hTransparent⟩ := pause_freezes hCompile
  rw [List.append_assoc] at hChronicle
  have hLater : ∀ x ∈ more ++ ⟨{ (p.read (.command .pause) scriptTime).scheduler with
      now := scriptTime }, .read (.event (.finished i token (.ok [])))⟩ :: rest,
      x.act ≠ .read (.command .resume) := by
    intro x hx
    rcases List.mem_append.mp hx with hx | hx
    · exact hAdvances.leads.act_ne_read hx _
    · rcases List.mem_cons.mp hx with rfl | hx
      · simp
      · exact hAdvances'.leads.act_ne_read hx _
  obtain ⟨-, hFrozen⟩ := hFreezes _ _ before _ _ hChronicle rfl rfl hLater
  obtain ⟨-, -, hSame⟩ := hTransparent p scriptTime scriptTime hReach hOpen hMore hActive
  exact ⟨g, p, _, _, before, _, _, hCompile, hChronicle, rfl, rfl, rfl, hFrozen, ⟨i, hGoal⟩,
    congrArg Course.scheduler hSame⟩

end Course

end Workflow

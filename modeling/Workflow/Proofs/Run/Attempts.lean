/-
Workflow.Proofs.Run.Attempts — how often a step is tried.

A step that fails is tried again as often as its retry policy allows, and
the run counts this in three places: the retries that have been made, the
number of the attempt and the waits before the retries. All of them begin
anew when the step is reset, with a new round of its loop or because a
handler tries it again.

* `Tally.Agrees` — the three counts agree with each other and the policy.
* `Moment.Resets`, `attempts_of_reset`, `attempts_of_not_reset` — when a
  step begins anew, and when it is tried once more.
* `SinceReset`, `starts` — the moments since then; the attempts in them.
* `attempts_within_policy` — the three counts agree in every run, and no
  step is tried more often than its policy allows.
-/
import Workflow.Proofs.Graph.Wired
import Workflow.Proofs.Run.Body
import Workflow.Proofs.Run.Replay
import Workflow.Proofs.Run.Tally

namespace Workflow

variable {g : Graph}

/-! ## Counts that agree -/

namespace Tally

/-- What is counted of a step agrees with itself and with a policy: there are no more retries than
allowed and a wait for each of them, the attempt under way is one more than the retries, and a failure
for good that could have been tried again has used them up. -/
structure Agrees (policy : RetryPolicy) (x : Tally) : Prop where
  bounded : x.retries ≤ policy.maxRetries
  delays : x.delays = (List.range x.retries).map policy.delay
  attempt : x.attempt = x.retries ∨ x.attempt = x.retries + 1
  before : x.status = .pending ∨ x.status = .ready → x.attempt = x.retries
  after : x.status = .running ∨ x.status = .failed ∨ x.status = .completed →
    x.attempt = x.retries + 1
  spent : ∀ error, x.status = .failed → x.error = some error → error.isRetryable = true →
    x.retries = policy.maxRetries

theorem Agrees.blank {policy : RetryPolicy} {status : StepStatus}
    (h : status = .pending ∨ status = .ready ∨ status = .skipped) :
    (blank status).Agrees policy := by
  rcases h with rfl | rfl | rfl <;>
    exact ⟨Nat.zero_le _, rfl, .inl rfl, fun _ => rfl, by simp [Tally.blank], by simp [Tally.blank]⟩

theorem Agrees.step {policy : RetryPolicy} {x y : Tally} (h : x.Agrees policy)
    (hStep : Step policy x y) : y.Agrees policy := by
  obtain ⟨hBounded, hDelays, hAttempt, hBefore, hAfter, hSpent⟩ := h
  cases hStep with
  | same => exact ⟨hBounded, hDelays, hAttempt, hBefore, hAfter, hSpent⟩
  | ready hPending =>
    exact ⟨hBounded, hDelays, hAttempt, fun _ => hBefore (.inl hPending), by simp, by simp⟩
  | skip => exact ⟨hBounded, hDelays, hAttempt, by simp [skipped], by simp [skipped], by simp [skipped]⟩
  | begin hReady =>
    have hSame := hBefore (.inr hReady)
    exact ⟨hBounded, hDelays, .inr (by simp [hSame]), by simp, fun _ => by simp [hSame], by simp⟩
  | complete hThrough =>
    have hMore := hAfter (by tauto)
    exact ⟨hBounded, hDelays, hAttempt, by simp [done], fun _ => hMore, by simp [done]⟩
  | retry hRunning hAllowed =>
    have hMore := hAfter (.inl hRunning)
    have hLess : x.retries < policy.maxRetries := of_decide_eq_true hAllowed
    refine ⟨hLess, ?_, .inl hMore, fun _ => hMore, by simp, by simp⟩
    simp [hDelays, List.range_succ]
  | fail hRunning hNotAllowed =>
    have hMore := hAfter (.inl hRunning)
    refine ⟨hBounded, hDelays, hAttempt, by simp [failing], fun _ => hMore,
      fun error _ hError hRetryable => ?_⟩
    obtain rfl := Option.some.inj hError
    have hNotLess : ¬ x.retries < policy.maxRetries := of_decide_eq_false (hNotAllowed hRetryable)
    exact le_antisymm hBounded (not_lt.mp hNotLess)
  | reset => exact .blank (.inl rfl)
  | restart => exact ⟨Nat.zero_le _, rfl, .inl rfl, fun _ => rfl, by simp [anew], by simp [anew]⟩

end Tally

/-! ## Attempts -/

namespace Scheduler

/-- The number of the latest attempt of a step. -/
def attempts (s : Scheduler g) (i : g.Index) : Nat := (s.state.result i).attempt

section Equations

variable (s : Scheduler g) (i k : g.Index)

@[simp] theorem attempts_mapControl (f : Control g → Control g) :
    (s.mapControl k f).attempts i = s.attempts i := rfl

@[simp] theorem attempts_setStatus (status : StepStatus) :
    (s.setStatus k status).attempts i = s.attempts i := by
  simp only [attempts, result_setStatus]
  split <;> simp_all

@[simp] theorem attempts_begin :
    (s.begin k).attempts i = if k = i then s.attempts i + 1 else s.attempts i := by
  simp only [attempts, result_begin]
  split <;> simp_all [StepResult.start]

@[simp] theorem attempts_complete (output : Json) :
    (s.complete k output).attempts i = s.attempts i := by
  simp only [attempts, result_complete]
  split <;> simp_all [StepResult.complete]

@[simp] theorem attempts_skip : (s.skip k).attempts i = s.attempts i := by
  simp only [attempts, result_skip]
  split <;> simp_all [StepResult.skip]

@[simp] theorem attempts_recordFailure (error : StepError) :
    (s.recordFailure k error).attempts i = s.attempts i := by
  simp only [attempts, result_recordFailure]
  split <;> simp_all [StepResult.fail]

@[simp] theorem attempts_forget :
    (s.mapState fun st => st.mapResult k fun r => { r with iterations := [] }).attempts i =
      s.attempts i :=
  congrArg Tally.attempt (tally_forget s k i)

@[simp] theorem attempts_markRecovered (handler : g.Index) :
    (s.markRecovered k handler).attempts i = s.attempts i :=
  congrArg Tally.attempt (tally_markRecovered s k i handler)

@[simp] theorem attempts_restart :
    (s.restart k).attempts i = if k = i then 0 else s.attempts i := by
  simp only [attempts, result_restart]
  split <;> rfl

@[simp] theorem attempts_substitute (value : Json) :
    (s.substitute k value).attempts i = s.attempts i := by
  simp only [attempts, result_substitute]
  split <;> simp_all [StepResult.complete]

@[simp] theorem attempts_completeLoop (iterations : List Iteration) :
    (s.completeLoop k iterations).attempts i = s.attempts i := by
  simp only [attempts, result_completeLoop]
  split <;> simp_all [StepResult.complete]

@[simp] theorem attempts_resetBody (loop : g.Index) :
    (s.resetBody loop).attempts i = if i ∈ g.body loop then 0 else s.attempts i := by
  simp only [attempts, result_resetBody]
  split <;> rfl

@[simp] theorem attempts_abandonLoop (loop : g.Index) :
    (s.abandonLoop loop).attempts i = s.attempts i := by
  refine (congrArg Tally.attempt (tally_abandonLoop s i loop)).trans ?_
  split
  · exact Tally.attempt_abandoned _
  · rfl

theorem attempts_retryLater? {s s' : Scheduler g} {k : g.Index} {error : StepError}
    (h : s.retryLater? k error = some s') : s'.attempts i = s.attempts i := by
  refine (congrArg Tally.attempt (tally_retryLater? h).2).trans ?_
  split
  · rename_i hSame
    rw [hSame]
    rfl
  · rfl

@[simp] theorem attempts_failOuter (error : StepError) :
    (s.failOuter k error).attempts i = s.attempts i := by
  unfold failOuter route
  split
  · exact attempts_retryLater? i ‹_›
  · split
    · simp
    · exact attempts_recordFailure s i k error

@[simp] theorem attempts_failStep (error : StepError) :
    (s.failStep k error).attempts i = s.attempts i := by
  unfold failStep
  split
  · simp
  · split
    · exact attempts_retryLater? i ‹_›
    · simp

@[simp] theorem attempts_failStart (fault : StartFault) :
    (s.failStart k fault).attempts i = s.attempts i := by
  cases fault with
  | crash => rfl
  | error e => exact attempts_failStep s i k e

end Equations

variable {s : Scheduler g} {i k : g.Index}

/-- The start of a step is one more attempt of it. -/
theorem attempts_startStep (hKind : g.kindOf k ≠ .loop) :
    (s.startStep k).attempts i = if k = i then s.attempts i + 1 else s.attempts i := by
  rw [← attempts_begin]
  have hStarts := s.starts k
  generalize s.startStep k = t at hStarts
  cases hStarts with
  | failed => exact attempts_failStart _ i k _
  | failedLoop => rw [attempts_failStart, attempts_forget]
  | completed => exact attempts_complete _ i k _
  | decided => rw [attempts_complete, attempts_mapControl]
  | called _ _ hInput =>
    simp only [dispatch, hInput]
    rfl
  | emptyLoop hLoop | openLoop hLoop => exact absurd hLoop hKind

/-- The start of a loop is one more attempt of it, and it begins anew with its body if it has items. -/
theorem attempts_startLoop (hKind : g.kindOf k = .loop) :
    (∃ items, s.HasItems k items) ∧ (s.startStep k).attempts i =
        (if i ∈ g.body k then 0 else if k = i then s.attempts i + 1 else s.attempts i) ∨
      (¬ ∃ items, s.HasItems k items) ∧
        (s.startStep k).attempts i = if k = i then s.attempts i + 1 else s.attempts i := by
  rw [← attempts_begin]
  have hStarts := s.starts k
  generalize s.startStep k = t at hStarts
  have hFails : ∀ fault, (s.begin k).startFault? k = some fault → ¬ ∃ items, s.HasItems k items := by
    rintro fault hFault ⟨items, config, all, hConfig, hAll, -⟩
    simp [startFault?, hKind, hConfig, hAll] at hFault
  cases hStarts with
  | failed hFault => exact .inr ⟨hFails _ hFault, attempts_failStart _ i k _⟩
  | failedLoop hFault =>
    exact .inr ⟨hFails _ hFault, by rw [attempts_failStart, attempts_forget]⟩
  | completed hOther | decided hOther | called hOther => simp [hKind] at hOther
  | emptyLoop _ _ hConfig hAll =>
    refine .inl ⟨⟨_, _, _, hConfig, hAll, rfl⟩, ?_⟩
    rw [attempts_complete, attempts_resetBody, attempts_forget]
  | openLoop _ _ hConfig hAll =>
    refine .inl ⟨⟨_, _, _, hConfig, hAll, rfl⟩, ?_⟩
    rw [attempts_mapControl, attempts_resetBody, attempts_forget]

/-- The recovery of a handler begins a step anew if it tries the step again. -/
theorem attempts_applyRecovery {h : g.Index} {a : Activation g} :
    (s.applyRecovery h a).attempts i =
      if a.failed = i ∧ g.recovery? h = some .retry then 0 else s.attempts i := by
  have hRecovers := s.recovers h a
  generalize s.applyRecovery h a = t at hRecovers
  cases hRecovers with
  | unset hAction | skipped hAction | restarted hAction | substituted hAction => simp [hAction]
  | stopped hAction =>
    simp only [hAction, Option.some.injEq, reduceCtorEq, and_false, if_false]
    rfl

end Scheduler

/-! ## Beginning anew -/

/-- Whether a moment makes a step as if it had never been tried: a round of its loop begins, the first
one or another one, or a handler of the step comes to its end and tries the step again. -/
inductive Moment.Resets (m : Moment g) (i : g.Index) : Prop
  | opens {loop : g.Index} {items : List Json} (hi : i ∈ g.body loop) (hStart : m.act = .start loop)
      (hItems : m.scheduler.HasItems loop items)
  | turns {loop : g.Index} (hi : i ∈ g.body loop) (hClose : m.act = .close loop)
      (hMore : (m.next.controlOf loop).frame ≠ none)
  | recovers {h : g.Index} {token : Nat} {output : Dict Json} {error : StepError}
      (hRead : m.act = .read (.event (.finished h token (.ok output))))
      (hCall : (m.scheduler.controlOf h).call = some token)
      (hOwes : (m.scheduler.controlOf h).activation = some ⟨i, error⟩)
      (hAction : g.recovery? h = some .retry)

/-- The step that an act starts. -/
def Act.started? : Act g → Option g.Index
  | start i => some i
  | _ => none

namespace Moment

variable {m : Moment g} {i : g.Index}

theorem attempts_of_reset (hg : g.Sound) (hOpen : m.scheduler.isOver = false)
    (hPossible : m.act.IsPossible m.scheduler) (h : m.Resets i) : m.next.attempts i = 0 := by
  obtain ⟨s, act⟩ := m
  cases h with
  | opens hi hStart hItems =>
    rename_i loop items
    obtain rfl : act = .start loop := hStart
    rcases Scheduler.attempts_startLoop (s := s) (i := i) (hg.body_loop loop i hi) with
      ⟨-, hNext⟩ | ⟨hNone, -⟩
    · exact hNext.trans (if_pos hi)
    · exact absurd ⟨items, hItems⟩ hNone
  | turns hi hClose hMore =>
    rename_i loop
    obtain rfl : act = .close loop := hClose
    obtain ⟨⟨f, hFrame, hIn⟩, hBody⟩ := hPossible
    have hNext := Scheduler.closeRound_of_over hFrame hIn hBody
    by_cases hLast : f.position + 1 < f.items.length
    · rw [if_pos hLast] at hNext
      simp [Moment.next, Act.apply, hNext, hi]
    · rw [if_neg hLast] at hNext
      simp [Moment.next, Act.apply, hNext] at hMore
  | recovers hRead hCall hOwes hAction =>
    rename_i h token output error
    obtain rfl : act = .read (.event (.finished h token (.ok output))) := hRead
    obtain ⟨t, -, -, -, hOwes', hHeed⟩ := Scheduler.heed_finished hOpen hCall (.ok output)
    have hOwes'' : ((t.complete h (.obj output)).controlOf h).activation = some ⟨i, error⟩ :=
      hOwes'.trans hOwes
    simp only [Moment.next, Act.apply, hHeed, Scheduler.completeCall, hOwes'']
    simp [Scheduler.attempts_applyRecovery, hAction]

/-- The start of a step counts one attempt of it, if it does not begin a body anew. -/
theorem attempts_start {s : Scheduler g} {k : g.Index} (h : ¬ Resets ⟨s, .start k⟩ i) :
    (next ⟨s, .start k⟩).attempts i = if k = i then s.attempts i + 1 else s.attempts i := by
  by_cases hKind : g.kindOf k = .loop
  · rcases Scheduler.attempts_startLoop (s := s) (i := i) hKind with
      ⟨⟨items, hItems⟩, hNext⟩ | ⟨-, hNext⟩
    · have hOut : i ∉ g.body k := fun hi => h (.opens hi rfl hItems)
      rw [if_neg hOut] at hNext
      exact hNext
    · exact hNext
  · exact Scheduler.attempts_startStep hKind

theorem attempts_close (hg : g.Sound) {s : Scheduler g} {loop : g.Index}
    (hPossible : (Act.close loop).IsPossible s) (h : ¬ Resets ⟨s, .close loop⟩ i) :
    (next ⟨s, .close loop⟩).attempts i = s.attempts i := by
  obtain ⟨⟨f, hFrame, hIn⟩, hBody⟩ := hPossible
  have hNext := Scheduler.closeRound_of_over hFrame hIn hBody
  simp only [Moment.next, Act.apply]
  rw [hNext]
  split
  · rename_i hMore
    have hOut : i ∉ g.body loop := by
      intro hi
      refine h (.turns hi rfl ?_)
      simp only [Moment.next, Act.apply, hNext, if_pos hMore]
      simp [hg.not_mem_own_body loop]
    simp [hOut]
  · simp

/-- The end of a call counts no attempt, and takes none away but by a recovery that tries again. -/
theorem attempts_finished {s : Scheduler g} (hOpen : s.isOver = false) {k : g.Index} {token : Nat}
    {outcome : Outcome} (h : ¬ Resets ⟨s, .read (.event (.finished k token outcome))⟩ i) :
    (next ⟨s, .read (.event (.finished k token outcome))⟩).attempts i = s.attempts i := by
  simp only [Moment.next, Act.apply]
  by_cases hCall : (s.controlOf k).call = some token
  · obtain ⟨t, hReceives, -, -, hOwes, hHeed⟩ := Scheduler.heed_finished hOpen hCall outcome
    have hSame : t.attempts i = s.attempts i := by
      cases hReceives
      rfl
    rw [hHeed, ← hSame]
    cases outcome with
    | error e => exact Scheduler.attempts_failStep t i k e
    | ok output =>
      have hNot : ∀ a, (t.controlOf k).activation = some a →
          ¬ (a.failed = i ∧ g.recovery? k = some .retry) := by
        rintro a hSome ⟨rfl, hAction⟩
        exact h (.recovers rfl hCall (hOwes.symm.trans hSome) hAction)
      simp only [Scheduler.completeCall]
      split
      · simp
      · rename_i a hSome
        rw [Scheduler.attempts_applyRecovery, if_neg (hNot a hSome)]
        simp
  · exact congrArg (·.1.attempt) (Scheduler.record_heed_of_stale hCall)

/-- The number of attempts goes up by one when the step starts, unless it begins anew. -/
theorem attempts_of_not_reset (hg : g.Sound) (hOpen : m.scheduler.isOver = false)
    (hPossible : m.act.IsPossible m.scheduler) (h : ¬ m.Resets i) :
    m.next.attempts i =
      if m.act.started? = some i then m.scheduler.attempts i + 1 else m.scheduler.attempts i := by
  obtain ⟨s, act⟩ := m
  cases act with
  | start k =>
    have hStarted : (Act.start k).started? = some i ↔ k = i := by simp [Act.started?]
    simp only [hStarted]
    exact attempts_start h
  | promote k =>
    simp only [Moment.next, Act.apply, Act.started?, reduceCtorEq, if_false]
    unfold Scheduler.promote
    split <;> simp
  | close loop =>
    simp only [Act.started?, reduceCtorEq, if_false]
    exact attempts_close hg hPossible h
  | read m =>
    simp only [Act.started?, reduceCtorEq, if_false]
    cases m with
    | command c => exact congrArg (·.1.attempt) (s.record_obey i c)
    | event e =>
      cases e with
      | finished k token outcome => exact attempts_finished hOpen h
      | retryDue k =>
        simp only [Moment.next, Act.apply]
        rcases Scheduler.heed_retryDue hOpen k with ⟨-, hHeed⟩ | ⟨-, hHeed⟩
        · rw [hHeed]
        · simp [hHeed]

end Moment

/-! ## Since a step has begun anew -/

/-- The number of attempts of a step that are started at some moments. -/
def starts (i : g.Index) (moments : List (Moment g)) : Nat :=
  (moments.filterMap (·.act.started?)).count i

theorem starts_append (i : g.Index) (moments more : List (Moment g)) :
    starts i (moments ++ more) = starts i moments + starts i more := by
  simp [starts]

theorem starts_singleton (i : g.Index) (m : Moment g) :
    starts i [m] = if m.act.started? = some i then 1 else 0 := by
  unfold starts
  cases hStarted : m.act.started? with
  | none => simp [hStarted]
  | some k => simp [hStarted, List.count_singleton]

/-- The moments of a run since a step has begun anew for the last time, or since the beginning of the
run if it never has. -/
structure SinceReset (i : g.Index) (log recent : List (Moment g)) : Prop where
  split : ∃ before, log = before ++ recent ∧
    (before = [] ∨ ∃ earlier m, before = earlier ++ [m] ∧ m.Resets i)
  quiet : ∀ m ∈ recent, ¬ m.Resets i

namespace SinceReset

variable {i : g.Index} {log recent moments : List (Moment g)} {m : Moment g}

theorem nil : SinceReset i ([] : List (Moment g)) [] :=
  ⟨⟨[], rfl, .inl rfl⟩, fun _ hm => absurd hm List.not_mem_nil⟩

theorem of_reset (h : m.Resets i) : SinceReset i (log ++ [m]) [] :=
  ⟨⟨log ++ [m], by simp, .inr ⟨log, m, rfl, h⟩⟩, fun _ hm => absurd hm List.not_mem_nil⟩

theorem snoc (h : SinceReset i log recent) (hNot : ¬ m.Resets i) :
    SinceReset i (log ++ [m]) (recent ++ [m]) := by
  obtain ⟨⟨before, rfl, hBefore⟩, hQuiet⟩ := h
  refine ⟨⟨before, by simp, hBefore⟩, fun r hr => ?_⟩
  rcases List.mem_append.mp hr with hr | hr
  · exact hQuiet r hr
  · rw [List.mem_singleton.mp hr]
    exact hNot

/-- Moments at the end in which a step does not begin anew are among those since it has. -/
theorem suffix (h : SinceReset i log recent) (hSuffix : moments <:+ log)
    (hQuiet : ∀ m ∈ moments, ¬ m.Resets i) : moments <:+ recent := by
  obtain ⟨⟨before, rfl, hBefore⟩, -⟩ := h
  rcases List.suffix_or_suffix_of_suffix hSuffix (List.suffix_append before recent) with h | h
  · exact h
  obtain ⟨more, rfl⟩ := h
  rcases hBefore with rfl | ⟨earlier, m, rfl, hReset⟩
  · simpa using hSuffix
  · rcases List.eq_nil_or_concat more with rfl | ⟨rest, last, rfl⟩
    · simp
    · obtain ⟨front, hFront⟩ := hSuffix
      rw [List.concat_eq_append, ← List.append_assoc, ← List.append_assoc] at hFront
      obtain ⟨-, hLast⟩ := List.append_inj' (List.append_inj' hFront rfl).1 rfl
      obtain rfl := List.singleton_inj.mp hLast
      exact absurd hReset (hQuiet _ (by simp))

end SinceReset

theorem starts_le_of_suffix {i : g.Index} {moments more : List (Moment g)} (h : moments <:+ more) :
    starts i moments ≤ starts i more := by
  obtain ⟨front, rfl⟩ := h
  rw [starts_append]
  exact Nat.le_add_left _ _

/-! ## Whole runs -/

namespace Course

/-- What is counted of a step agrees with its policy and with what has happened. -/
structure Counted (i : g.Index) (log : List (Moment g)) (s : Scheduler g) : Prop where
  agrees : (s.tally i).Agrees (g.step i).policy
  started : ∃ recent, SinceReset i log recent ∧ starts i recent = s.attempts i

namespace Counted

variable {i : g.Index} {log : List (Moment g)} {s : Scheduler g}

theorem of_tally {s' : Scheduler g} (h : Counted i log s) (hTally : s'.tally i = s.tally i) :
    Counted i log s' where
  agrees := hTally ▸ h.agrees
  started := by
    obtain ⟨recent, hSince, hStarts⟩ := h.started
    exact ⟨recent, hSince, hStarts.trans (congrArg Tally.attempt hTally).symm⟩

/-- Every act keeps the count of a step that handles no errors. -/
theorem snoc (hg : g.Sound) (hKind : g.kindOf i ≠ .errorHandler) {act : Act g}
    (hOpen : s.isOver = false) (hPossible : act.IsPossible s) (hCoherent : s.board.Coherent .free)
    (h : Counted i log s) : Counted i (log ++ [⟨s, act⟩]) (act.apply s) where
  agrees := by
    obtain ⟨_, -, -, hNext⟩ := Act.keeps_coherent hg
      (Q := fun _ s => (s.tally i).Agrees (g.step i).policy)
      (fun _ _ _ _ hMove hCoherent hAgrees => hAgrees.step (hMove.tally_step hg hCoherent hKind))
      (fun _ _ _ _ hReceives hCoherent hAgrees =>
        hAgrees.step (hReceives.tally_step hg hCoherent hKind))
      hOpen hPossible hCoherent h.agrees
    exact hNext
  started := by
    obtain ⟨recent, hSince, hStarts⟩ := h.started
    by_cases hReset : Moment.Resets ⟨s, act⟩ i
    · have hNext := Moment.attempts_of_reset (m := ⟨s, act⟩) hg hOpen hPossible hReset
      exact ⟨[], .of_reset hReset, hNext.symm⟩
    · have hNext := Moment.attempts_of_not_reset (m := ⟨s, act⟩) hg hOpen hPossible hReset
      refine ⟨_, hSince.snoc hReset, ?_⟩
      rw [starts_append, starts_singleton, hStarts]
      refine Eq.trans ?_ hNext.symm
      split <;> rfl

/-- No more attempts than a policy allows have been started since a step has begun anew. -/
theorem starts_le (h : Counted i log s) {moments : List (Moment g)} (hSuffix : moments <:+ log)
    (hQuiet : ∀ m ∈ moments, ¬ m.Resets i) :
    starts i moments ≤ 1 + (g.step i).policy.maxRetries := by
  obtain ⟨recent, hSince, hStarts⟩ := h.started
  have hAttempt : s.attempts i ≤ (s.tally i).retries + 1 := by
    rcases h.agrees.attempt with hSame | hMore
    · exact hSame.le.trans (Nat.le_succ _)
    · exact hMore.le
  calc starts i moments
      ≤ starts i recent := starts_le_of_suffix (hSince.suffix hSuffix hQuiet)
    _ = s.attempts i := hStarts
    _ ≤ (s.tally i).retries + 1 := hAttempt
    _ ≤ 1 + (g.step i).policy.maxRetries := by
      have := h.agrees.bounded
      omega

/-- A step that has failed for good although it could be tried again has used up its attempts. -/
theorem starts_of_failed (h : Counted i log s) (hFailed : s.statusOf i = .failed) {error : StepError}
    (hError : (s.state.result i).error = some error) (hRetryable : error.isRetryable = true) :
    ∃ recent, SinceReset i log recent ∧
      starts i recent = 1 + (g.step i).policy.maxRetries := by
  obtain ⟨recent, hSince, hStarts⟩ := h.started
  refine ⟨recent, hSince, hStarts.trans ?_⟩
  have hMore : s.attempts i = (s.tally i).retries + 1 := h.agrees.after (.inr (.inl hFailed))
  rw [hMore, h.agrees.spent error hFailed hError hRetryable, Nat.add_comm]

end Counted

theorem History.counted (hg : g.Sound) {p : Course g} {log : List (Moment g)} (h : History p log)
    {i : g.Index} (hKind : g.kindOf i ≠ .errorHandler) :
    Counted i log p.scheduler ∧ ∀ before m after, log = before ++ m :: after →
      Counted i before m.scheduler ∧ Counted i (before ++ [m]) m.next := by
  have hAll := History.induction_at hg (P := Counted i) ?_ ?_ ?_ ?_ h
  · exact ⟨hAll.1.of_tally rfl, hAll.2⟩
  · intro s hFresh
    obtain ⟨status, hStatus, hTally⟩ := Scheduler.tally_enter hFresh i
    exact ⟨hTally ▸ .blank hStatus, [], .nil, (congrArg Tally.attempt hTally).symm⟩
  · exact fun log s act hOpen hPossible hCoherent hBefore =>
      hBefore.snoc hg hKind hOpen hPossible hCoherent
  · exact fun log s _ hBefore => hBefore.of_tally (s.tally_conclude i)
  · exact fun log s now hBefore => hBefore.of_tally rfl

/-- In every run and at every moment, the retries that are counted of a step that handles no errors,
its waits and the number of its attempt agree with each other and with its policy, and the attempt is
the number of times that the step has been started since it has begun anew. It has never been started
more often in between than once and once for each retry that its policy allows, and exactly that often
when it has failed for good with an error that allows a retry. -/
theorem attempts_within_policy {allowOrphans : Bool} {steps : List Step} {g : Graph}
    (hCompile : Graph.compile allowOrphans steps = .ok g) {p : Course g} {log : List (Moment g)}
    (hHistory : History p log) {i : g.Index} (hKind : g.kindOf i ≠ .errorHandler) :
    Counted i log p.scheduler ∧
      (∀ before m after, log = before ++ m :: after →
        Counted i before m.scheduler ∧ Counted i (before ++ [m]) m.next) ∧
      (∀ before moments after, log = before ++ moments ++ after →
        (∀ m ∈ moments, ¬ m.Resets i) → starts i moments ≤ 1 + (g.step i).policy.maxRetries) ∧
      (∀ before m after error, log = before ++ m :: after → m.next.statusOf i = .failed →
        (m.next.state.result i).error = some error → error.isRetryable = true →
        ∃ recent, SinceReset i (before ++ [m]) recent ∧
          starts i recent = 1 + (g.step i).policy.maxRetries) := by
  have hg := (Graph.wired_of_compile hCompile).toSound
  obtain ⟨hNow, hMoments⟩ := hHistory.counted hg hKind
  refine ⟨hNow, hMoments, ?_, ?_⟩
  · rintro before moments after rfl hQuiet
    rcases List.eq_nil_or_concat moments with rfl | ⟨rest, m, rfl⟩
    · exact Nat.zero_le _
    · rw [List.concat_eq_append] at hQuiet hMoments ⊢
      refine (hMoments (before ++ rest) m after (by simp)).2.starts_le ?_ hQuiet
      rw [List.append_assoc]
      exact List.suffix_append _ _
  · rintro before m after error hSplit hFailed hError hRetryable
    exact (hMoments before m after hSplit).2.starts_of_failed hFailed hError hRetryable

/-- A step of a loop that is tried again in the first round can be tried as often in the second one. -/
theorem attempts_of_exhausted :
    ∃ g p log, Graph.compile false Script.exhausted.steps = .ok g ∧ History (g := g) p log ∧
      ∃ i recent, (g.step i).policy.maxRetries = 1 ∧ p.scheduler.statusOf i = .failed ∧
        SinceReset i log recent ∧ starts i recent = 2 ∧
        (p.scheduler.state.result i).retryDelays = [(g.step i).policy.delay 0] := by
  have hShows : Script.exhausted.shows (fun _ _ => True) (fun g p => ∃ i : g.Index,
      g.kindOf i ≠ StepKind.errorHandler ∧ (g.step i).policy.maxRetries = 1 ∧
        p.scheduler.statusOf i = StepStatus.failed ∧ p.scheduler.attempts i = 2 ∧
        (p.scheduler.controlOf i).retries = 1) := by
    decide +kernel
  obtain ⟨g, p, hCompile, hReach, i, hKind, hPolicy, hFailed, hAttempts, hRetries⟩ :=
    Script.exists_of_shows hShows
  obtain ⟨log, hHistory⟩ := reached_iff_history.mp hReach
  obtain ⟨⟨hAgrees, recent, hSince, hStarts⟩, -⟩ := attempts_within_policy hCompile hHistory hKind
  refine ⟨g, p, log, hCompile, hHistory, i, recent, hPolicy, hFailed, hSince,
    hStarts.trans hAttempts, hAgrees.delays.trans ?_⟩
  rw [show (p.scheduler.tally i).retries = 1 from hRetries]
  rfl

end Course

end Workflow

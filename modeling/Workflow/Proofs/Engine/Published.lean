/-
Workflow.Proofs.Engine.Published — what readers see of a run.

A run in progress shows readers one snapshot after another, each of them
the run as it stands then. The first one that shows the run as ended is the
last one that matters: all later ones are the same, but for the time at
which they were taken. A snapshot says when the run has ended exactly if it
has, and why it has failed exactly if it has; and the reason is a step that
the same snapshot shows as failed, unless it is an error handler, or it is
that the run was stuck.

* `Process.Shows` — the snapshots that a run has shown so far.
* `Shows.taken` — each of them is the run as it stood once.
* `Process.Explained` — what a snapshot says about the end of a run.
* `Reached.concluded_of_nameless` — a failure without a step is the end of a
  run that was stuck.
* `Process.shown_final_and_explained` — the main result.
-/
import Workflow.Proofs.Engine.Ending
import Workflow.Proofs.Run.Bookkeeping
import Workflow.Proofs.Run.Standing

namespace Workflow

namespace Process

/-- The snapshots that a run has shown so far, the earliest one first. At its submission and at any
time later it may show itself as it stands. -/
inductive Shows (g : Graph) (limit : Nat) : Process → List Snapshot → Prop
  | start (runId workflowId workflowName : String) (input : Json) (vars : Dict Json)
      (created : Instant) (stepTimeout : Option Duration) :
      Shows g limit (Process.initial g (Scheduler.initial
        (RunState.initial g runId workflowId workflowName input vars created) stepTimeout) limit)
        [(Process.initial g (Scheduler.initial (RunState.initial g runId workflowId workflowName
          input vars created) stepTimeout) limit).published]
  | step {p q : Process} {log : List Snapshot} (hBefore : Shows g limit p log) (hStep : Step p q)
      (hSame : q.published = p.published) : Shows g limit q log
  | publish {p : Process} {log : List Snapshot} (hBefore : Shows g limit p log) (now : Instant) :
      Shows g limit { p with published := p.snapshot now } (log ++ [p.snapshot now])

variable {g : Graph} {limit : Nat} {p q : Process} {log : List Snapshot}

namespace Shows

theorem reached (h : Shows g limit p log) : Reached g limit p := by
  induction h with
  | start runId workflowId workflowName input vars created stepTimeout =>
    exact .start runId workflowId workflowName input vars created stepTimeout
  | step _ hStep _ ih => exact ih.step hStep
  | publish _ now ih => exact ih.step (.inform _ _)

/-- Readers see the last one. -/
theorem getLast? (h : Shows g limit p log) : log.getLast? = some p.published := by
  induction h with
  | start => rfl
  | step _ _ hSame ih => rw [hSame, ih]
  | publish => simp

/-- Every snapshot that has been shown is the run as it stood once. -/
theorem taken (h : Shows g limit p log) {s : Snapshot} (hs : s ∈ log) :
    ∃ q now, Reached g limit q ∧ Steps q p ∧ s = q.snapshot now := by
  induction h with
  | start runId workflowId workflowName input vars created stepTimeout =>
    exact ⟨_, _, .start runId workflowId workflowName input vars created stepTimeout, .refl,
      List.mem_singleton.mp hs⟩
  | step _ hStep _ ih =>
    obtain ⟨q, now, hReach, hSteps, hTaken⟩ := ih hs
    exact ⟨q, now, hReach, hSteps.tail hStep, hTaken⟩
  | publish hBefore now ih =>
    rcases List.mem_append.mp hs with hs | hs
    · obtain ⟨q, earlier, hReach, hSteps, hTaken⟩ := ih hs
      exact ⟨q, earlier, hReach, hSteps.tail (.inform _ _), hTaken⟩
    · exact ⟨_, now, hBefore.reached, .single (.inform _ _), List.mem_singleton.mp hs⟩

end Shows

/-! ## The last snapshots -/

/-- What a run shows after it has been shown as ended is the same as then, but for the time. -/
theorem Shows.same_of_final (hg : g.Sound) (h : Shows g limit p log) {s : Snapshot} (hs : s ∈ log)
    (hFinal : s.status.isFinal = true) (now : Instant) :
    p.snapshot now = { s with updatedAt := now } := by
  obtain ⟨q, earlier, hReach, hSteps, rfl⟩ := h.taken hs
  exact (hReach.windsUp hg hFinal hSteps).same now

theorem Shows.pairwise (hg : g.Sound) (h : Shows g limit p log) (now : Instant) :
    (log ++ [p.snapshot now]).Pairwise fun s t =>
      s.status.isFinal = true → t = { s with updatedAt := t.updatedAt } := by
  have hLast : ∀ {p log} (now : Instant), Shows g limit p log →
      log.Pairwise (fun s t => s.status.isFinal = true → t = { s with updatedAt := t.updatedAt }) →
      (log ++ [p.snapshot now]).Pairwise fun s t =>
        s.status.isFinal = true → t = { s with updatedAt := t.updatedAt } := by
    intro p log now h hPairs
    refine List.pairwise_append.mpr ⟨hPairs, List.pairwise_singleton _ _, fun s hs t ht hFinal => ?_⟩
    rw [List.mem_singleton.mp ht]
    exact h.same_of_final hg hs hFinal now
  refine hLast now h ?_
  induction h with
  | start => exact List.pairwise_singleton _ _
  | step _ _ _ ih => exact ih
  | publish hBefore now ih => exact hLast now hBefore ih

/-! ## Reasons for a failure -/

/-- How a run stands. -/
def standing (p : Process) : Standing := p.scheduler.standing

theorem Alike.standing (h : p.Alike q) : q.standing = p.standing := by
  cases h
  rfl

theorem standing_follow (p : Process) (time : Nat) : (p.follow time).standing = p.standing := by
  unfold follow
  split <;> rfl

/-- What is said about the end of a run fits, and every failure has its reason. -/
theorem Reached.accountable (hg : g.Sound) (h : Reached g limit p) :
    p.standing.Fits ∧
      ∀ f, p.standing.error = some f → p.scheduler.Blames f ∨ p.scheduler.Deadlocked f := by
  obtain rfl := h.graph_eq
  cases h.tracked with
  | fresh hFresh hStart =>
    obtain ⟨_, _, _, _, _, _, _, hStart⟩ := hStart
    have hStanding : p.standing = ⟨.running, none, none⟩ := by
      rw [standing, hStart]
      rfl
    rw [hStanding]
    exact ⟨⟨rfl, rfl⟩, nofun⟩
  | begun _ _ c hReach hCovers =>
    obtain ⟨_, -, hAccountable⟩ := hReach.accountable hg
    rw [standing, hCovers.scheduler]
    exact ⟨hAccountable.fits, hAccountable.reason⟩

/-- A step that handles no errors is listed as it stands. -/
theorem Reached.listed (hg : g.Sound) (h : Reached g limit p) {i : p.graph.Index}
    (hKind : p.graph.kindOf i ≠ .errorHandler) : (p.scheduler.tally i).Listed := by
  obtain rfl := h.graph_eq
  cases h.tracked with
  | fresh _ hStart =>
    obtain ⟨runId, workflowId, workflowName, input, vars, created, stepTimeout, hStart⟩ := hStart
    have hFresh : p.scheduler.IsFresh :=
      ⟨runId, workflowId, workflowName, input, vars, created, stepTimeout, created, hStart⟩
    exact Scheduler.tally_of_fresh hFresh i ▸ .blank (.inl rfl)
  | begun _ _ c hReach hCovers =>
    rw [hCovers.scheduler]
    exact hReach.listed hg hKind

/-- A run that goes on and then has failed without a step was stuck when it was concluded. -/
theorem Step.concluded (hg : g.Sound) (h : Reached g limit p) (hStep : Step p q)
    (hOpen : p.isFinal = false) {f : RunFailure} (hFailure : q.standing.error = some f)
    (hNameless : f.stepId = none) : ∃ now, q = p.conclude now ∧ p.scheduler.isStuck = true := by
  obtain rfl := h.graph_eq
  have hNone : p.standing.error = none := (h.accountable hg).1.error_eq_none hOpen
  have hSame : q.standing = p.standing → False := fun hSame => by
    rw [hSame, hNone] at hFailure
    cases hFailure
  have hBlames : ∀ s : Scheduler p.graph, s.Blames f → False := by
    rintro s ⟨i, hId, -⟩
    rw [hNameless] at hId
    cases hId
  -- a message and the launch leave failures that name a step, and what happens beside the scheduler
  -- leaves none
  cases hStep.proceeds with
  | conclude now hLive =>
    refine ⟨now, rfl, ?_⟩
    rcases Scheduler.conclude_cases { p.scheduler with now } with hGoesOn | ⟨-, hDone⟩ | ⟨-, hStuck, -⟩
    · have hStanding := congrArg Scheduler.standing hGoesOn
      exact (hSame hStanding).elim
    · have hError := congrArg (fun s => (Scheduler.standing s).error) hDone
      cases (hFailure.symm.trans hError).trans hNone
    · exact hStuck
  | launch now time hFresh =>
    rw [standing_follow] at hFailure
    cases h.tracked with
    | fresh _ hStart =>
      obtain ⟨runId, workflowId, workflowName, input, vars, created, stepTimeout, hStart⟩ := hStart
      refine (hBlames _ (Course.start_blames hg (s := { p.scheduler with now }) ?_ hFailure)).elim
      exact ⟨runId, workflowId, workflowName, input, vars, created, stepTimeout, now, by rw [hStart]⟩
    | begun hBegun => exact absurd hFresh hBegun
  | read now time hLive _ hInbox =>
    rw [standing_follow, readMessage_of_inbox hInbox] at hFailure
    rename_i m rest _
    obtain ⟨-, -, c, hReach, hCovers, hOver⟩ := h.tracked.exists_covers hLive hOpen
    have hRead : (handle { p.scheduler with now } m).state.error = some f := hFailure
    rw [hCovers.scheduler] at hRead
    exact (hBlames _ (Course.read_blames hg hReach hOver m now hRead)).elim
  | beside hAlike => exact (hSame hAlike.standing).elim
  | close | lose | inform => exact (hSame rfl).elim

/-- A run that has failed without a step was concluded when it was stuck, and that was its end. -/
theorem Reached.concluded_of_nameless (hg : g.Sound) (h : Reached g limit p) {f : RunFailure}
    (hFailure : p.standing.error = some f) (hNameless : f.stepId = none) :
    ∃ q now, Reached g limit q ∧ Steps q p ∧ q.isFinal = false ∧ q.scheduler.isStuck = true ∧
      ∀ time, p.snapshot time = (q.conclude now).snapshot time := by
  induction h with
  | start => cases hFailure
  | step hBefore hStep ih =>
    rename_i p q
    cases hFinal : p.isFinal with
    | false =>
      obtain ⟨now, rfl, hStuck⟩ := hStep.concluded hg hBefore hFinal hFailure hNameless
      exact ⟨p, now, hBefore, .single hStep, hFinal, hStuck, fun _ => rfl⟩
    | true =>
      have hSame := (hBefore.windsUp hg hFinal (.single hStep)).same
      have hError : q.standing.error = p.standing.error :=
        congrArg Snapshot.error (hSame q.scheduler.now)
      obtain ⟨r, now, hReach, hSteps, hOpen, hStuck, hEnd⟩ := ih (hError ▸ hFailure)
      exact ⟨r, now, hReach, hSteps.tail hStep, hOpen, hStuck,
        fun time => (hSame time).trans (hEnd time)⟩

/-! ## Whole runs -/

/-- What a snapshot that a run has taken on its way says about the end of the run: when it has ended,
if and only if it has, and why it has failed, if and only if it has. The reason is a step that is shown
and listed as failed, unless it handles errors, or it is that the run was stuck when it was
concluded. -/
structure Explained (g : Graph) (limit : Nat) (p : Process) (s : Snapshot) : Prop where
  ended : s.completedAt.isSome = true ↔ s.status.isFinal = true
  failed : s.error.isSome = true ↔ s.status = .failed
  blames : ∀ f id, s.error = some f → f.stepId = some id → ∃ i, g.idOf i = id ∧
    (g.kindOf i ≠ .errorHandler →
      (∃ r, s.step? id = some r ∧ r.status = .failed) ∧ id ∈ s.failed)
  nameless : ∀ f, s.error = some f → f.stepId = none → ∃ q now time, Reached g limit q ∧ Steps q p ∧
    q.isFinal = false ∧ q.scheduler.isStuck = true ∧ s = (q.conclude now).snapshot time

theorem Reached.explained (hg : g.Wired) (h : Reached g limit p) (time : Instant) :
    Explained g limit p (p.snapshot time) := by
  have hSound := hg.toSound
  obtain ⟨hFits, hReason⟩ := h.accountable hSound
  refine ⟨?_, ?_, fun f id hFailure hId => ?_, fun f hFailure hNameless => ?_⟩
  · exact Bool.eq_iff_iff.mp hFits.ended
  · exact (Bool.eq_iff_iff.mp hFits.failed).trans decide_eq_true_iff
  · rcases hReason f hFailure with hBlames | hStuck
    · obtain rfl := h.graph_eq
      obtain ⟨i, hStep, hFailed⟩ := hBlames
      obtain rfl : p.graph.idOf i = id := Option.some.inj (hStep.symm.trans hId)
      refine ⟨i, rfl, fun hKind => ⟨⟨_, RunState.step?_snapshot hg.ids time i, hFailed hKind⟩, ?_⟩⟩
      exact (RunState.mem_markedIds hg.ids _ i).mpr ((h.listed hSound hKind).failed.mpr (hFailed hKind))
    · rw [hStuck.reason] at hId
      cases hId
  · obtain ⟨q, now, hReach, hSteps, hOpen, hStuck, hEnd⟩ :=
      h.concluded_of_nameless hSound hFailure hNameless
    exact ⟨q, now, time, hReach, hSteps, hOpen, hStuck, hEnd time⟩

theorem Explained.later {s : Snapshot} (h : Explained g limit q s) (hSteps : Steps q p) :
    Explained g limit p s where
  ended := h.ended
  failed := h.failed
  blames := h.blames
  nameless f hFailure hNameless := by
    obtain ⟨r, now, time, hReach, hBefore, hEnd⟩ := h.nameless f hFailure hNameless
    exact ⟨r, now, time, hReach, hBefore.trans hSteps, hEnd⟩

/-- Of all snapshots that a run shows, and of the one that it gives at last, whatever comes after one
that is final is the same but for the time at which it was taken. And each of them explains the end
of the run. -/
theorem shown_final_and_explained {allowOrphans : Bool} {steps : List Workflow.Step} {g : Graph}
    (hCompile : Graph.compile allowOrphans steps = .ok g) {limit : Nat} {p : Process}
    {log : List Snapshot} (h : Shows g limit p log) (now : Instant) :
    ((log ++ [p.snapshot now]).Pairwise fun s t =>
      s.status.isFinal = true → t = { s with updatedAt := t.updatedAt }) ∧
    ∀ s ∈ log ++ [p.snapshot now], Explained g limit p s := by
  have hg := Graph.wired_of_compile hCompile
  refine ⟨h.pairwise hg.toSound now, fun s hs => ?_⟩
  rcases List.mem_append.mp hs with hs | hs
  · obtain ⟨q, time, hReach, hSteps, rfl⟩ := h.taken hs
    exact (hReach.explained hg time).later hSteps
  · rw [List.mem_singleton.mp hs]
    exact h.reached.explained hg now

/-! ## What happens at a time -/

theorem published_follow (p : Process) (time : Nat) : (p.follow time).published = p.published := by
  unfold follow
  split <;> rfl

theorem Alike.published (h : p.Alike q) : q.published = p.published := by
  cases h
  rfl

/-- What happens beside the scheduler shows nothing to readers. -/
theorem Aside.published (h : Aside p q) : q.published = p.published := by
  cases h with
  | command c => exact (alike_send p _).published
  | close | lose | retire | goOn => rfl
  | acquire => exact (alike_acquire p _).published
  | enter hEnters =>
    cases hEnters
    rfl
  | giveUp => exact (alike_release (p.dropWorker _)).published
  | finish outcome => exact (alike_release _).published.trans (alike_endCall p _ outcome).published

/-- Whatever happens at a time, readers see the run as it stands or what they have seen before. -/
theorem StepAt.shown {now : Instant} {time : Nat} (h : StepAt now time p q) :
    q.published = p.published ∨ q = { p with published := p.snapshot now } := by
  cases h with
  | aside hAside => exact .inl hAside.published
  | launch => exact .inl (published_follow (p.launch now) time)
  | conclude => exact .inl rfl
  | read hLive hOpen hMore hInbox =>
    refine .inl ((published_follow _ time).trans ?_)
    rw [readMessage_of_inbox hInbox]
  | publish => exact .inr rfl
  | retry step => exact .inl (alike_deliverRetry p step time).published

theorem Shows.stepAt {now : Instant} {time : Nat} (h : Shows g limit p log)
    (hStep : StepAt now time p q) : ∃ more, Shows g limit q (log ++ more) := by
  rcases hStep.shown with hSame | rfl
  · exact ⟨[], by simpa using h.step hStep.step hSame⟩
  · exact ⟨_, h.publish now⟩

/-- Whatever happens in time, a run shows one snapshot after another. -/
theorem Shows.beats {epoch : Instant} {x y : Nat × Process} (h : Shows g limit x.2 log)
    (hBeats : Beats epoch x y) : ∃ more, Shows g limit y.2 (log ++ more) := by
  induction hBeats with
  | refl => exact ⟨[], by simpa using h⟩
  | tail _ hLast ih =>
    obtain ⟨more, hShows⟩ := ih
    cases hLast with
    | step hStep =>
      obtain ⟨last, hShows⟩ := hShows.stepAt hStep
      exact ⟨more ++ last, by simpa using hShows⟩
    | wait => exact ⟨more, hShows⟩

/-! ## A run that is shown as failed -/

/-- No deed shows anything to readers. -/
theorem published_of_act? {n : Nat} {deed : Deed} (h : p.act? n deed = some q) :
    q.published = p.published := by
  cases deed with
  | launch =>
    simp only [act?, Option.ite_none_right_eq_some, Option.map_eq_some_iff] at h
    obtain ⟨-, s, -, rfl⟩ := h
    exact published_follow _ 0
  | command c =>
    cases h
    exact (alike_send p _).published
  | read =>
    simp only [act?] at h
    split at h
    · cases h
    · simp only [Option.ite_none_right_eq_some, Option.map_eq_some_iff] at h
      obtain ⟨-, s, -, rfl⟩ := h
      exact published_follow _ 0
  | acquire token =>
    simp only [act?, Option.bind_eq_some_iff, Option.ite_none_right_eq_some, Option.some.injEq] at h
    obtain ⟨_, -, -, rfl⟩ := h
    exact (alike_acquire p token).published
  | enter token =>
    simp only [act?, Option.bind_eq_some_iff, Option.ite_none_right_eq_some, Option.some.injEq] at h
    obtain ⟨_, -, -, rfl⟩ := h
    rfl
  | finish token outcome =>
    simp only [act?, Option.bind_eq_some_iff, Option.ite_none_right_eq_some, Option.some.injEq] at h
    obtain ⟨_, -, -, rfl⟩ := h
    exact (alike_release _).published.trans (alike_endCall p token outcome).published

theorem Shows.acts {deeds : List Deed} (h : Shows g limit p log) (hActs : p.acts? deeds = some q) :
    Shows g limit q log := by
  induction deeds generalizing p with
  | nil =>
    cases hActs
    exact h
  | cons deed deeds ih =>
    obtain ⟨next, hAct, hRest⟩ := Option.bind_eq_some_iff.mp hActs
    exact ih (h.step (step_of_act? hAct) (published_of_act? hAct)) hRest

/-- Two actions side by side are called, and one of them fails. The run is shown as failed at that
one, and as nothing else when the other one has come to its end. -/
theorem shown_after_failure : ∃ g p log, Graph.compile false sideBySide = .ok g ∧
    Shows g 2 p log ∧ log.length = 2 ∧ p.workers = [] ∧
    ∃ s ∈ log, s.error = some ⟨some "a", "boom"⟩ ∧ "a" ∈ s.failed ∧
      ∀ now, p.snapshot now = { s with updatedAt := now } := by
  have hExhibits : exhibits sideBySide 2 [.launch, .acquire 1, .enter 1, .acquire 2, .enter 2,
      .finish 1 (.error .boom), .read] (fun p => p.isFinal = true ∧
        p.scheduler.state.error = some ⟨some "a", "boom"⟩ ∧
        (∀ i, p.graph.idOf i = "a" → p.graph.kindOf i ≠ .errorHandler) ∧
        (({ p with published := p.snapshot Course.scriptTime }.acts? [.finish 2 (.ok [])]).any
          fun q : Process => q.workers.isEmpty) = true) = true := by
    decide +kernel
  obtain ⟨g, p, hCompile, hPerform, hFinal, hError, hKind, hLater⟩ := performed_of_exhibits hExhibits
  obtain ⟨q, hActs, hNone⟩ := (Option.any_eq_true _ _).mp hLater
  obtain ⟨first, hShown⟩ : ∃ first, Shows g 2 p [first] :=
    ⟨_, (Shows.start "run" "workflow" "workflow" .null [] Course.scriptTime none).acts hPerform⟩
  obtain rfl := hShown.reached.graph_eq
  have hLast := (hShown.publish Course.scriptTime).acts hActs
  have hIn : p.snapshot Course.scriptTime ∈ [first] ++ [p.snapshot Course.scriptTime] := by simp
  have hAll := fun now => shown_final_and_explained hCompile hLast now
  refine ⟨p.graph, q, _, hCompile, hLast, rfl, List.isEmpty_iff.mp hNone, _, hIn, hError, ?_, ?_⟩
  · obtain ⟨i, hId, hListed⟩ := ((hAll Course.scriptTime).2 _ (List.mem_append_left _ hIn)).blames
      _ _ hError rfl
    exact (hListed (hKind i hId)).2
  · intro now
    have hPairs := (List.pairwise_append.mp (hAll now).1).2.2
    exact hPairs _ hIn _ (List.mem_singleton_self _) hFinal

end Process

end Workflow

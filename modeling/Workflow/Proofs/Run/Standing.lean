/-
Workflow.Proofs.Run.Standing — how a run ends, and what it says about it.

A run has ended exactly when it says when, and has failed exactly when it
says why. What it gives as the reason is a step that has failed, unless
that step is an error handler, which may have been ready again by then; or
it names no step, and then the run was stuck.

* `Standing` — the status of a run, its failure and the time of its end.
* `Scheduler.Move.standing_cases` — a move leaves the standing alone or lets
  the run fail at a step.
* `Scheduler.Blames`, `Deadlocked` — the two reasons for a failure.
* `Course.Reaches.accountable` — every failure has one of them.
* `Course.start_blames`, `read_blames` — only a run that is concluded fails
  without a step.
-/
import Workflow.Proofs.Run.Coherence

namespace Workflow

/-- How a run stands: its status, why it failed and when it ended. -/
structure Standing where
  status : RunStatus
  error : Option RunFailure
  completedAt : Option Instant

namespace Standing

/-- A run that fails. -/
def failing (now : Instant) (f : RunFailure) : Standing := ⟨.failed, some f, some now⟩

/-- A run says when it has ended if and only if it has, and why it has failed if and only if it
has. -/
structure Fits (v : Standing) : Prop where
  ended : v.completedAt.isSome = v.status.isFinal
  failed : v.error.isSome = decide (v.status = .failed)

theorem fits_failing (now : Instant) (f : RunFailure) : (failing now f).Fits := ⟨rfl, rfl⟩

namespace Fits

variable {v : Standing} (h : v.Fits) (hOpen : v.status.isFinal = false)

include h hOpen

theorem error_eq_none : v.error = none := by
  have hNot : v.status ≠ .failed := by
    intro hFailed
    rw [hFailed] at hOpen
    cases hOpen
  simpa [hNot] using h.failed

theorem completedAt_eq_none : v.completedAt = none := by
  simpa [hOpen] using h.ended

/-- A run that goes on may be paused and resumed, and it may be ended without a failure. -/
theorem restatus (status : RunStatus) (hStatus : status ≠ .failed) (now : Instant) :
    (Standing.mk status v.error
      (if status.isFinal then some now else v.completedAt)).Fits := by
  constructor
  · dsimp only
    split
    · rename_i hFinal
      exact hFinal.symm
    · rename_i hNot
      rw [h.completedAt_eq_none hOpen]
      simpa using hNot
  · simp [h.error_eq_none hOpen, hStatus]

end Fits

end Standing

variable {g : Graph} {hand hand' : Hand g}

/-- A step that has failed is left alone as long as nothing is in hand. -/
theorem Rule.failed_of_free {b b' : Board g} (hRule : Rule .free b hand' b')
    (hCoherent : b.Coherent .free) {i : g.Index} (hFailed : (b.slot i).status = .failed) :
    (b'.slot i).status = .failed := by
  have hFrame := hCoherent.frame
  clear hCoherent
  cases hRule <;> grind -linarith

namespace Scheduler

variable {s s' : Scheduler g}

/-- How the run of a scheduler stands. -/
def standing (s : Scheduler g) : Standing := ⟨s.state.status, s.state.error, s.state.completedAt⟩

/-! ## What changes the standing -/

theorem standing_eq_of_shell_eq (h : s'.shell = s.shell) : s'.standing = s.standing :=
  congrArg (fun v : Shell g => Standing.mk v.status v.error v.completedAt) h

theorem standing_of_failing {f : RunFailure} (h : s'.shell = s.shell.failing f) :
    s'.standing = .failing s.now f :=
  congrArg (fun v : Shell g => Standing.mk v.status v.error v.completedAt) h

/-- A run fails at a step that has failed, unless the step is an error handler. -/
def Blames (s : Scheduler g) (f : RunFailure) : Prop :=
  ∃ i, f.stepId = some (g.idOf i) ∧ (g.kindOf i ≠ .errorHandler → s.statusOf i = .failed)

/-- A move leaves the standing alone. Or else a step in hand lets the run fail, which gives a failed
step as its reason, and nothing is in hand any more. -/
theorem Move.standing_cases (hg : g.Sound) (hMove : Move hand s hand' s')
    (hCoherent : s.board.Coherent hand) :
    s'.standing = s.standing ∨ hand.step? ≠ none ∧ hand' = .free ∧
      ∃ f, s'.standing = .failing s.now f ∧ s'.Blames f := by
  cases hMove with
  | nextRound | openLoop | emptyLoop | giveUp => exact .inl (standing_eq_of_shell_eq (by simp))
  | call _ hInput =>
    simp only [dispatch, hInput]
    exact .inl rfl
  | recover hOwes =>
    rename_i i a output
    rcases shell_applyRecovery ((s.complete i output).mapControl i fun c =>
      { c with activation := none }) i a with hSame | ⟨hStop, message, hFails⟩
    · exact .inl (standing_eq_of_shell_eq hSame)
    · refine .inr ⟨Option.some_ne_none i, rfl, _, standing_of_failing hFails, a.failed, rfl,
        fun hKind => ?_⟩
      -- the step that the handler was for has failed, and a recovery by stopping leaves it so
      have hFailed := (hCoherent.plain _ (hg.not_guards_of_kind hKind)).named i a hOwes rfl
      have hNe := hCoherent.failed_ne hg hOwes
      change ((((s.complete i output).mapControl i fun c =>
        { c with activation := none }).applyRecovery i a).board.slot a.failed).status = .failed
      rw [board_applyRecovery, board_setActivation, board_complete, hStop]
      simpa [Slot.recovered, Ne.symm hNe] using hFailed
  | retry hRetry =>
    obtain ⟨-, -, rfl⟩ := eq_of_retryLater? hRetry
    exact .inl rfl
  | failRun hHand hOwner hSpent =>
    rename_i i error message
    refine .inr ⟨by simp [hHand], rfl, ⟨some (g.idOf i), message⟩, rfl, i, rfl, fun _ => ?_⟩
    change ((s.recordFailure i error).board.slot i).status = .failed
    rw [board_recordFailure]
    simp
  | _ => exact .inl rfl

/-! ## Reasons for a failure -/

/-- A run fails without a step as its reason because it is stuck: steps remain, and the reason gives
their ids. -/
structure Deadlocked (s : Scheduler g) (f : RunFailure) : Prop where
  reason : f = ⟨none, deadlockMessage (s.unfinishedSteps.map g.idOf)⟩
  stuck : s.isStuck = true
  remain : s.unfinishedSteps ≠ []

/-- In the middle of a turn: whoever has something in hand has a run that goes on, the standing fits,
and a failure is that of a step. -/
structure InTurn (hand : Hand g) (s : Scheduler g) : Prop where
  coherent : s.board.Coherent hand
  goesOn : hand ≠ .free → s.state.isFinal = false
  fits : s.standing.Fits
  blames : ∀ f, s.state.error = some f → s.Blames f

/-- Between two turns a failure may also be that of a run that is stuck. -/
structure Accountable (hand : Hand g) (s : Scheduler g) : Prop where
  coherent : s.board.Coherent hand
  fits : s.standing.Fits
  reason : ∀ f, s.state.error = some f → s.Blames f ∨ s.Deadlocked f

theorem InTurn.accountable (h : s.InTurn hand) : s.Accountable hand :=
  ⟨h.coherent, h.fits, fun f hError => .inl (h.blames f hError)⟩

/-- What has been asked for and the time do not matter. -/
theorem Accountable.note (h : s.Accountable hand) (requests : List (Request g)) (now : Instant) :
    ({ s with requests, now } : Scheduler g).Accountable hand where
  coherent := h.coherent.of_slots rfl
  fits := h.fits
  reason f hFailure := (h.reason f hFailure).imp_right fun hStuck =>
    ⟨hStuck.reason, hStuck.stuck, hStuck.remain⟩

/-- A move with nothing in hand that takes something in hand starts a step of a run that goes on. -/
theorem Move.isFinal_of_free (hMove : Move .free s hand' s') (hHand : hand' ≠ .free) :
    s.state.isFinal = false := by
  cases hMove with
  | begin hReady hOpen => exact (Bool.or_eq_false_iff.mp hOpen).1
  | _ => exact absurd rfl hHand

/-- Every move keeps a failure accounted for. -/
theorem InTurn.move (hg : g.Sound) (hMove : Move hand s hand' s') (h : s.InTurn hand) :
    s'.InTurn hand' := by
  have hCoherent := h.coherent.rule hg (hMove.rule hg)
  rcases hMove.standing_cases hg h.coherent with hSame | ⟨-, rfl, f, hFails, hBlames⟩
  · have hError : s'.state.error = s.state.error := congrArg Standing.error hSame
    have hFinal : s'.state.isFinal = s.state.isFinal :=
      congrArg (fun v : Standing => v.status.isFinal) hSame
    refine ⟨hCoherent, fun hHand => ?_, hSame ▸ h.fits, fun f hFailure => ?_⟩
    · rw [hFinal]
      by_cases hFree : hand = .free
      · subst hFree
        exact hMove.isFinal_of_free hHand
      · exact h.goesOn hFree
    · rw [hError] at hFailure
      -- nothing is in hand once the run has failed, so its failed step is left alone
      have hFree : hand = .free := by
        by_contra hBusy
        have hNone := h.fits.error_eq_none (h.goesOn hBusy)
        exact absurd (hFailure.symm.trans hNone) (by simp)
      subst hFree
      obtain ⟨i, hId, hFailed⟩ := h.blames f hFailure
      exact ⟨i, hId, fun hKind => (hMove.rule hg).failed_of_free h.coherent (hFailed hKind)⟩
  · refine ⟨hCoherent, fun hHand => absurd rfl hHand, hFails ▸ Standing.fits_failing _ _, ?_⟩
    intro f' hFailure
    have hError : s'.state.error = some f := congrArg Standing.error hFails
    obtain rfl : f = f' := Option.some.inj (hError.symm.trans hFailure)
    exact hBlames

theorem inTurn_enter (hg : g.Sound) (hFresh : s.IsFresh) : s.enter.InTurn .free := by
  have hSkip : ∀ (t : Scheduler g) i, t.standing = s.standing → (t.skip i).standing = s.standing :=
    fun _ _ h => h
  have hStanding : s.enter.standing = s.standing := foldl_keeps hSkip g.orphans rfl
  have hError : s.enter.state.error = s.state.error := congrArg Standing.error hStanding
  obtain ⟨_, _, _, _, _, _, _, _, rfl⟩ := id hFresh
  refine ⟨coherent_enter hg hFresh, fun h => absurd rfl h, hStanding ▸ ⟨rfl, rfl⟩, fun f hFailure => ?_⟩
  rw [hError] at hFailure
  cases hFailure

/-- A command pauses the run, resumes it or stops it, or it does nothing. -/
theorem fits_obey (hOpen : s.state.isFinal = false) (h : s.standing.Fits) (c : Command) :
    (s.obey c).standing.Fits ∧ (s.obey c).state.error = none := by
  have hNone : s.state.error = none := h.error_eq_none hOpen
  cases c with
  | pause =>
    unfold obey
    dsimp only
    split
    · exact ⟨h, hNone⟩
    · exact ⟨h.restatus hOpen .paused nofun s.now, hNone⟩
  | resume =>
    unfold obey
    dsimp only
    split
    · exact ⟨h.restatus hOpen .running nofun s.now, hNone⟩
    · exact ⟨h, hNone⟩
  | stop => exact ⟨h.restatus hOpen .stopped nofun s.now, hNone⟩

/-- A message is taken note of only while the run goes on, and no message lets it fail. -/
theorem Accountable.receives (hg : g.Sound) (hOpen : s.isOver = false) {m : Message g}
    (hReceives : Receives s m hand' s') (h : s.Accountable .free) : s'.InTurn hand' := by
  have hGoesOn : s.state.isFinal = false := (Bool.or_eq_false_iff.mp hOpen).1
  have hNone : s.state.error = none := h.fits.error_eq_none hGoesOn
  have hCoherent := h.coherent.notice hg hReceives.notice
  have hBlames : ∀ f, s'.state.error = none → s'.state.error = some f → s'.Blames f := by
    intro f hNone hFailure
    rw [hNone] at hFailure
    cases hFailure
  cases hReceives with
  | command =>
    obtain ⟨hFits, hNone⟩ := fits_obey hGoesOn h.fits _
    exact ⟨hCoherent, fun hHand => absurd rfl hHand, hFits, fun f => hBlames f hNone⟩
  | stale | ended | early | due =>
    exact ⟨hCoherent, fun _ => hGoesOn, h.fits, fun f => hBlames f hNone⟩

/-- A run that is concluded is completed, or it is stuck, or it goes on. -/
theorem Accountable.conclude (hOpen : s.isOver = false) (h : s.Accountable .free) :
    s.conclude.Accountable .free := by
  have hGoesOn : s.state.isFinal = false := (Bool.or_eq_false_iff.mp hOpen).1
  have hNone : s.state.error = none := h.fits.error_eq_none hGoesOn
  have hCoherent := h.coherent.of_slots s.slot_conclude
  rcases s.conclude_cases with hSame | ⟨-, hDone⟩ | ⟨hRemain, hStuck, hFails⟩
  · rwa [hSame]
  · rw [hDone] at hCoherent ⊢
    refine ⟨hCoherent, h.fits.restatus hGoesOn .completed nofun s.now, fun f hFailure => ?_⟩
    cases hNone.symm.trans hFailure
  · rw [hFails] at hCoherent ⊢
    refine ⟨hCoherent, Standing.fits_failing s.now _, fun f hFailure => .inr ?_⟩
    obtain rfl := Option.some.inj hFailure
    exact ⟨rfl, hStuck, hRemain⟩

end Scheduler

namespace Course

/-- In every run, whatever is said about its end fits, and every failure has its reason. -/
theorem Reaches.accountable (hg : g.Sound) {ok : Scheduler g → Prop} {p : Course g}
    (hReach : Reaches ok p) :
    ∃ hand, Scheduler.AtRest hand p.scheduler ∧ p.scheduler.Accountable hand :=
  hReach.invariant (P := fun hand s => s.InTurn hand) (Q := fun hand s => s.Accountable hand) hg
    (fun _ => Scheduler.inTurn_enter hg)
    (fun _ _ _ _ hMove h => h.move hg hMove)
    (fun _ _ _ _ hOpen hReceives h => h.receives hg hOpen hReceives)
    (fun _ s requests _ _ h => h.accountable.note requests s.now)
    (fun s now h => h.note s.requests now)
    (fun _ hOpen _ h => h.conclude hOpen)

/-- A run that fails at its start or when its scheduler reads a message fails at a step. -/
theorem start_blames (hg : g.Sound) {s : Scheduler g} (hFresh : s.IsFresh) {f : RunFailure}
    (hFailure : s.launch.state.error = some f) : s.launch.Blames f := by
  obtain ⟨_, hMoves, -⟩ := Scheduler.advance_goes hg s.enter
  have hTurn := hMoves.invariant (fun _ _ _ _ hMove h => Scheduler.InTurn.move hg hMove h)
    (Scheduler.inTurn_enter hg hFresh)
  exact hTurn.blames f hFailure

theorem read_blames (hg : g.Sound) {p : Course g} (hReach : Reached p)
    (hOpen : p.scheduler.isOver = false) (m : Message g) (now : Instant) {f : RunFailure}
    (hFailure : (Process.handle { p.scheduler with now } m).state.error = some f) :
    (Process.handle { p.scheduler with now } m).Blames f := by
  obtain ⟨hand, hAtRest, hAccountable⟩ := hReach.accountable hg
  obtain rfl := hAtRest.free hOpen
  obtain ⟨hand, s, hReceives, _, hMoves, -⟩ := read_goes hg hOpen m now
  have hNoted := Scheduler.Accountable.receives (s := { p.scheduler with now }) hg hOpen hReceives
    (hAccountable.note p.scheduler.requests now)
  have hTurn := hMoves.invariant (fun _ _ _ _ hMove h => Scheduler.InTurn.move hg hMove h) hNoted
  exact hTurn.blames f hFailure

end Course

end Workflow

/-
Workflow.Proofs.Run.Crash — what a run can be lost to.

A scheduler evaluates the texts of a step when it starts the step. A problem
there is a failure of that step, recorded with its error like any other. The
only thing that a run is lost to is a text that cannot be split into its
regions: the scheduler crashes when it comes to start the step, and the step
stays running for ever.

* `Board.Prepared` — what is running has texts that can be split.
* `Course.Reaches.crashed_iff` — when a run is lost.
* `Scheduler.startReady_fails` — a problem of an expression is a failure of
  its step.
-/
import Workflow.Proofs.Run.Coherence
import Workflow.Proofs.Run.Replay

namespace Workflow

variable {g : Graph}

namespace Board

/-- What is running has texts that can be split, unless it is still being started or has crashed the
scheduler. -/
structure Prepared (hand : Hand g) (b : Board g) : Prop where
  started : ∀ i, hand = .starting i → (b.slot i).status = .running
  safe : ∀ i, (b.slot i).status = .running →
    hand.step? = some i ∨ hand = .lost i ∨ g.Safe i
  crashed : b.desk.crashed = true → ∃ i, hand = .lost i
  lost : ∀ i, hand = .lost i → b.desk.crashed = true ∧ (b.slot i).status = .running ∧ ¬ g.Safe i

variable {hand hand' : Hand g} {b b' : Board g}

/-- A step starts only if its texts can be split, and the scheduler crashes only if they cannot. -/
theorem Prepared.rule (hg : g.Sound) (hRule : Rule hand b hand' b') (hCoherent : b.Coherent hand)
    (h : b.Prepared hand) : b'.Prepared hand' := by
  obtain ⟨hStarted, hSafe, hCrashed, hLost⟩ := h
  cases hRule with
  | recover hOwes =>
    rename_i k a
    have hSlot := hCoherent.slot_recover hg hOwes
    have hCases := Slot.recovered_cases (g.recovery? k) (g.idOf k) (b.slot a.failed)
    have hDesk := b.desk_recover k a
    have hNe := hCoherent.failed_ne hg hOwes
    clear hCoherent
    constructor <;> grind -linarith
  | giveUp hHand hOwner =>
    have hMember := hg.owner_mem _ _ hOwner
    have hLoop := hCoherent.loop_of_hand hHand hMember
    clear hCoherent
    cases hand with
    | free | lost => cases hHand
    | starting | stopping | ending => constructor <;> grind -linarith [Hand.passTo]
  | _ =>
    clear hCoherent
    constructor <;> grind -linarith [Slot.cleared, Hand.step?]

theorem Prepared.notice {m : Message g} (hNotice : Notice b m hand' b') (h : b.Prepared .free) :
    b'.Prepared hand' := by
  obtain ⟨hStarted, hSafe, hCrashed, hLost⟩ := h
  cases hNotice <;> constructor <;> grind -linarith

/-- What is prepared does not depend on what has been asked for or on how the run stands. -/
theorem Prepared.of_slots (h : b.Prepared hand) (hSlots : b'.slot = b.slot)
    (hCrashed : b'.desk.crashed = b.desk.crashed) : b'.Prepared hand where
  started := hSlots ▸ h.started
  safe := hSlots ▸ h.safe
  crashed := hCrashed ▸ h.crashed
  lost := hSlots ▸ hCrashed ▸ h.lost

end Board

theorem Scheduler.crashed_conclude (s : Scheduler g) : s.conclude.crashed = s.crashed :=
  conclude_keeps crashed (fun _ _ => rfl) (fun _ _ _ => rfl) s

theorem Scheduler.prepared_enter (hg : g.Sound) {s : Scheduler g} (hFresh : s.IsFresh) :
    s.enter.board.Prepared .free := by
  have hSlot := slot_enter hg hFresh
  have hCrashed : s.enter.board.desk.crashed = false := by
    obtain ⟨_, _, _, _, _, _, _, _, hInitial⟩ := hFresh
    rw [desk_enter, hInitial]
    rfl
  constructor <;> grind -linarith [Slot.initial]

namespace Course

/-- In every run, what is running has texts that can be split, unless it has crashed the scheduler. -/
theorem Reaches.prepared (hg : g.Sound) {ok : Scheduler g → Prop} {p : Course g}
    (hReach : Reaches ok p) :
    ∃ hand, Scheduler.AtRest hand p.scheduler ∧ p.scheduler.board.Prepared hand := by
  obtain ⟨hand, hAtRest, -, hPrepared⟩ := hReach.coherent_invariant hg
    (P := fun hand s => s.board.Prepared hand) (Q := fun hand s => s.board.Prepared hand)
    (fun _ hFresh => Scheduler.prepared_enter hg hFresh)
    (fun _ _ _ _ hMove hCoherent h => h.rule hg (hMove.rule hg) hCoherent)
    (fun _ _ _ _ _ hReceive _ h => h.notice hReceive.notice)
    (fun _ _ _ _ _ h => h.of_slots rfl rfl)
    (fun _ _ h => h.of_slots rfl rfl)
    (fun s _ _ h => h.of_slots s.slot_conclude s.crashed_conclude)
  exact ⟨hand, hAtRest, hPrepared⟩

/-- A run is lost just when a step with a text that cannot be split has been started. -/
theorem Reaches.crashed_iff (hg : g.Sound) {ok : Scheduler g → Prop} {p : Course g}
    (hReach : Reaches ok p) :
    p.scheduler.crashed = true ↔ ∃ i, p.scheduler.statusOf i = .running ∧ ¬ g.Safe i := by
  obtain ⟨hand, hAtRest, hPrepared⟩ := hReach.prepared hg
  constructor
  · intro hCrashed
    obtain ⟨i, hLost⟩ := hPrepared.crashed hCrashed
    exact ⟨i, (hPrepared.lost i hLost).2⟩
  · rintro ⟨i, hRunning, hUnsafe⟩
    rcases hPrepared.safe i hRunning with hHand | hLost | hSafe
    · rcases hAtRest with rfl | ⟨hCrashed, -⟩
      · cases hHand
      · exact hCrashed
    · exact (hPrepared.lost i hLost).1
    · exact absurd hSafe hUnsafe

end Course

/-! ## Problems of expressions -/

namespace Scheduler

theorem retryLater?_eq_none {s : Scheduler g} {i : g.Index} {e : StepError}
    (hKind : e.kind = .evaluation) : s.retryLater? i e = none := by
  simp [retryLater?, StepError.isRetryable, hKind]

/-- A failure for good changes nothing but the step that has failed and its handlers. -/
theorem failOuter_board {s : Scheduler g} {i j : g.Index} {e : StepError}
    (hKind : e.kind = .evaluation) (hGuards : j ∉ g.handlersOf i) :
    (s.failOuter i e).board.slot j = (s.board.fail i e).slot j ∧
      (s.failOuter i e).crashed = s.crashed := by
  rw [failOuter, retryLater?_eq_none hKind]
  dsimp only
  unfold route
  split
  · rename_i handler hFind
    have hNe : handler ≠ j := by
      rintro rfl
      exact hGuards (List.mem_of_find?_eq_some hFind)
    refine ⟨?_, rfl⟩
    rw [board_setStatus, board_setActivation, board_recordFailure]
    simp [hNe]
  · refine ⟨?_, rfl⟩
    rw [board_failRun, board_recordFailure]
    simp

/-- A problem of an expression is the failure of its step. -/
theorem failStep_slot (hg : g.Sound) {s : Scheduler g} {i : g.Index} {e : StepError}
    (hKind : e.kind = .evaluation) :
    ((s.failStep i e).board.slot i).status = .failed ∧
      ((s.failStep i e).board.slot i).error = some e ∧ (s.failStep i e).crashed = s.crashed := by
  unfold failStep
  cases hOwner : g.owner? i with
  | none =>
    have hNot : i ∉ g.handlersOf i := fun hMem => by
      obtain ⟨rank, hRank⟩ := hg.ranked
      have hLt := hRank _ (Graph.mem_handlersOf_iff.mp hMem)
      simp at hLt
    obtain ⟨hSlot, hCrashed⟩ := failOuter_board (s := s) hKind hNot
    simp [hSlot, hCrashed]
  | some loop =>
    have hi := hg.owner_mem i loop hOwner
    have hNe : loop ≠ i := fun h => hg.not_mem_own_body loop (h ▸ hi)
    have hNot : i ∉ g.handlersOf loop := fun hMem =>
      hg.not_guards_of_mem hi ⟨loop, Graph.mem_handlersOf_iff.mp hMem⟩
    simp only [retryLater?_eq_none hKind]
    obtain ⟨hSlot, hCrashed⟩ := failOuter_board (s := (s.recordFailure i e).abandonLoop loop)
      (e := s.loopError loop i e) hKind hNot
    rw [hSlot, hCrashed, Board.slot_fail, if_neg hNe, board_giveUp hg s e hi, Board.slot_giveUp,
      if_pos rfl]
    exact ⟨rfl, rfl, congrArg Shell.crashed (shell_abandonLoop _ loop)⟩

/-- When a problem of an expression keeps a step from starting, the step fails. -/
theorem startStep_eq_failStep {s : Scheduler g} {i : g.Index} {e : StepError}
    (h : (s.begin i).startFault? i = some (.error e)) :
    ∃ t : Scheduler g, s.startStep i = t.failStep i e ∧ t.crashed = s.crashed := by
  have hStarts := s.starts i
  generalize s.startStep i = t at hStarts
  cases hStarts with
  | failed hFault | failedLoop hFault =>
    cases hFault.symm.trans h
    exact ⟨_, rfl, rfl⟩
  | completed _ hNone | decided _ hNone | called _ hNone | emptyLoop _ hNone | openLoop _ hNone =>
    cases hNone.symm.trans h

/-- A problem of an expression becomes a failure of kind evaluation of its step, and the scheduler
goes on. -/
theorem startReady_fails (hg : g.Sound) {s : Scheduler g} {i : g.Index} {e : StepError}
    (hOpen : s.isOver = false) (hReady : s.statusOf i = .ready)
    (hFault : (s.begin i).startFault? i = some (.error e)) :
    e.kind = .evaluation ∧ (s.startReady i).statusOf i = .failed ∧
      ((s.startReady i).state.result i).error = some e ∧ (s.startReady i).crashed = false := by
  have hKind := startFault?_kind hFault
  obtain ⟨t, hStep, hCrashed⟩ := startStep_eq_failStep hFault
  obtain ⟨hStatus, hError, hSame⟩ := failStep_slot hg (s := t) (i := i) hKind
  have hStart : s.startReady i = t.failStep i e := by
    rw [← hStep]
    simp [startReady, hOpen, hReady]
  simp only [isOver, Bool.or_eq_false_iff] at hOpen
  rw [hStart]
  exact ⟨hKind, hStatus, hError, hSame.trans (hCrashed.trans hOpen.2)⟩

end Scheduler

/-- A parameter has a letter beyond ASCII in its expression. -/
def Script.foreignLetter : Script where
  steps := [.plain "start" .start [],
    { Step.plain "a" .action ["start"] with inputMapping := [("x", "\x7b\x7b é \x7d\x7d")] },
    .plain "end" .finish ["a"]]
  input := .null
  cues := []

/-- A run is lost if and only if a step with a text that cannot be split has been started; it is never
lost if all texts can be split. Every other problem of an expression is a failure of its step, of
kind evaluation, or a null parameter; and a loop in a round always has an item for it. -/
theorem Course.crashed_iff_unsafe {allowOrphans : Bool} {steps : List Step} {g : Graph}
    (hCompile : Graph.compile allowOrphans steps = .ok g) {p : Course g}
    (hReach : Course.Reached p) :
    (p.scheduler.crashed = true ↔
      ∃ i, p.scheduler.statusOf i = .running ∧ ∃ text ∈ g.texts i, ¬ Expr.Splits text) ∧
    (∀ s : Scheduler g, ∀ i e, s.isOver = false → s.statusOf i = .ready →
      (s.begin i).startFault? i = some (.error e) →
      e.kind = .evaluation ∧ (s.startReady i).statusOf i = .failed ∧
        ((s.startReady i).state.result i).error = some e ∧ (s.startReady i).crashed = false) ∧
    (∀ s : Scheduler g, ∀ i own,
      Scheduler.resolveInput (s.dataContext i) (g.step i).inputMapping = .ok own →
      ∀ entry ∈ (g.step i).inputMapping, ∃ v, (entry.1, v) ∈ own ∧
        (Expr.evaluate (s.dataContext i) entry.2 = .ok v ∨ v = .null ∧ ∃ path,
          Expr.evaluate (s.dataContext i) entry.2 = .error (.error (.undefinedPath path)))) ∧
    ∀ loop frame, (p.scheduler.controlOf loop).frame = some frame →
      frame.position < frame.items.length := by
  have hg := Graph.sound_of_compile hCompile
  refine ⟨?_, fun s i e => Scheduler.startReady_fails hg, fun s i own hInput =>
    Scheduler.value_of_resolveInput hInput, fun loop frame hFrame => ?_⟩
  · have hCrashed := hReach.crashed_iff hg
    unfold Graph.Safe at hCrashed
    simpa only [not_forall, exists_prop] using hCrashed
  · obtain ⟨hand, -, hCoherent⟩ := hReach.coherent hg
    exact (hCoherent.frame loop frame hFrame).2.2.2.2

/-- The step that a run is lost to has such a text. -/
theorem Course.unsafe_of_foreignLetter :
    ∃ g p, Graph.compile false Script.foreignLetter.steps = .ok g ∧ Course.Reached (g := g) p ∧
      ∃ i, p.scheduler.statusOf i = .running ∧ ∃ text ∈ g.texts i, ¬ Expr.Splits text := by
  have hShows : Script.foreignLetter.shows (fun _ _ => True) (fun _ p =>
      p.scheduler.crashed = true) := by
    decide +kernel
  obtain ⟨g, p, hCompile, hReach, hCrashed⟩ := Script.exists_of_shows hShows
  exact ⟨g, p, hCompile, hReach, (Course.crashed_iff_unsafe hCompile hReach).1.mp hCrashed⟩

/-- A run can be lost. -/
theorem Course.crashed_of_foreignLetter :
    ∃ g p, Graph.compile false Script.foreignLetter.steps = .ok g ∧ Course.Reached (g := g) p ∧
      p.scheduler.crashed = true := by
  have hShows : Script.foreignLetter.shows (fun _ _ => True) (fun _ p =>
      p.scheduler.crashed = true) := by
    decide +kernel
  exact Script.exists_of_shows hShows

end Workflow

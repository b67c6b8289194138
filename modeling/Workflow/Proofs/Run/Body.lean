/-
Workflow.Proofs.Run.Body — what the acts of a scheduler do to a loop and its body.

The loop and the steps of its body are a world of their own. An act that is
about none of them changes nothing there, unless it takes the loop out of its
round: the loop is given up with a failed step of the body, or a handler
decides about it.

* `Act.about` — the step that an act is about.
* `Moment.Drops`, `Moment.FallsBack` — a loop is taken out of its round, and
  is completed by the recovery of a handler.
* `Moment.loop_cases` — what an act does to a loop and to the other steps.
* `Moment.member_cases` — what an act does to a step of the body.
-/
import Workflow.Proofs.Run.Crash
import Workflow.Proofs.Run.History

namespace Workflow

variable {g : Graph}

/-- Whether a step is a loop or belongs to its body. -/
def Graph.Within (g : Graph) (loop i : g.Index) : Prop := i = loop ∨ i ∈ g.body loop

namespace Graph.Sound

variable (hg : g.Sound)
include hg

theorem not_guards_of_within {loop i : g.Index} (hKind : g.kindOf loop = .loop)
    (hi : g.Within loop i) : ¬ g.Guards i := by
  rcases hi with rfl | hi
  · exact hg.not_guards_of_kind (by simp [hKind])
  · exact hg.not_guards_of_mem hi

theorem not_mem_handlersOf_of_within {loop i : g.Index} (hKind : g.kindOf loop = .loop)
    (hi : g.Within loop i) (j : g.Index) : i ∉ g.handlersOf j :=
  fun h => hg.not_guards_of_within hKind hi ⟨j, Graph.mem_handlersOf_iff.mp h⟩

/-- A loop and its body have nothing in common with other bodies. -/
theorem not_mem_body_of_within {loop i other : g.Index} (hKind : g.kindOf loop = .loop)
    (hi : g.Within loop i) (hOther : other ≠ loop) : i ∉ g.body other := by
  intro hMem
  rcases hi with rfl | hi
  · exact (hg.body_kind other i hMem).2.2 hKind
  · exact hOther (hg.body_disjoint hMem hi)

/-- What a step outside does is no matter for a loop and its body. -/
theorem apart_of_within {loop i k : g.Index} (hKind : g.kindOf loop = .loop)
    (hi : g.Within loop i) (hk : ¬ g.Within loop k) : g.Apart k i := by
  have hNe : k ≠ loop := fun h => hk (.inl h)
  refine ⟨?_, hg.not_mem_handlersOf_of_within hKind hi k, hg.not_mem_body_of_within hKind hi hNe, ?_⟩
  · rintro rfl
    exact hk hi
  · intro other hOwner
    have hMember := hg.owner_mem k other hOwner
    have hOther : other ≠ loop := by
      rintro rfl
      exact hk (.inr hMember)
    refine ⟨?_, hg.not_mem_body_of_within hKind hi hOther,
      hg.not_mem_handlersOf_of_within hKind hi other⟩
    rintro rfl
    rcases hi with hi | hi
    · exact hOther hi
    · exact (hg.body_kind loop other hi).2.2 (hg.body_loop other k hMember)

end Graph.Sound

/-! ## Failures in a body -/

namespace Scheduler

variable {s s' : Scheduler g} {i : g.Index}

theorem retryLater?_self {error : StepError} (hRetry : s.retryLater? i error = some s') :
    (s'.controlOf i).frame = (s.controlOf i).frame ∧ (s'.controlOf i).call = (s.controlOf i).call ∧
      s'.statusOf i = .pending := by
  obtain ⟨-, -, rfl⟩ := eq_of_retryLater? hRetry
  simp [request, statusOf, RunState.statusOf, controlOf, mapControl, mapState, RunState.mapResult,
    RunState.result, PerStep.get_update]

/-- A failed attempt leaves a step pending or failed. -/
theorem failOuter_self (error : StepError) (hGuards : i ∉ g.handlersOf i) :
    ((s.failOuter i error).controlOf i).frame = (s.controlOf i).frame ∧
      ((s.failOuter i error).statusOf i = .pending ∨ (s.failOuter i error).statusOf i = .failed) := by
  unfold failOuter
  split
  · rename_i hRetry
    obtain ⟨hFrame, -, hStatus⟩ := retryLater?_self hRetry
    exact ⟨hFrame, .inl hStatus⟩
  · have hRecord : ((s.recordFailure i error).route i error).record i = _ := record_route hGuards
    have hStatus := congrArg (·.1.status) hRecord
    refine ⟨(congrArg (·.2.frame) hRecord :), .inr (hStatus.trans ?_)⟩
    simp [record, StepResult.fail]

/-- Whether a loop is out of its rounds and not completed. -/
structure IsOut (s : Scheduler g) (loop : g.Index) : Prop where
  frame : (s.controlOf loop).frame = none
  status : s.statusOf loop ≠ .completed

/-- A failed step of a body is tried again, or its loop is given up. -/
theorem failStep_of_mem (hg : g.Sound) {loop : g.Index} (hi : i ∈ g.body loop)
    (error : StepError) :
    ((∀ j, i ≠ j → (s.failStep i error).record j = s.record j) ∧
        ((s.failStep i error).controlOf i).call = (s.controlOf i).call ∧
        (s.failStep i error).statusOf i = .pending) ∨ (s.failStep i error).IsOut loop := by
  have hKind := hg.body_loop loop i hi
  have hOwner := hg.owner?_eq_some_iff.mpr hi
  unfold failStep
  simp only [hOwner]
  split
  · rename_i hRetry
    obtain ⟨-, hCall, hStatus⟩ := retryLater?_self hRetry
    exact .inl ⟨fun j => record_retryLater? hRetry, hCall, hStatus⟩
  · right
    have hGuards := hg.not_mem_handlersOf_of_within hKind (.inl rfl) loop
    obtain ⟨hFrame, hStatus⟩ := failOuter_self (s := (s.recordFailure i error).abandonLoop loop)
      (s.loopError loop i error) hGuards
    refine ⟨hFrame.trans ?_, ?_⟩
    · have hSlot := congrArg (fun b : Board g => (b.slot loop).frame)
        (board_abandonLoop (s.recordFailure i error) loop)
      refine hSlot.trans ?_
      simp [hg.not_mem_own_body loop]
    · rcases hStatus with h | h <;> simp [h]

theorem failStart_of_mem (hg : g.Sound) {loop : g.Index} (hi : i ∈ g.body loop)
    {fault : StartFault} (hRunning : s.statusOf i = .running) :
    ((∀ j, i ≠ j → (s.failStart i fault).record j = s.record j) ∧
        (s.failStart i fault).statusOf i ≠ .completed) ∨ (s.failStart i fault).IsOut loop := by
  cases fault with
  | crash =>
    have hStatus : (s.failStart i .crash).statusOf i = .running := hRunning
    exact .inl ⟨fun _ _ => rfl, by simp [hStatus]⟩
  | error e =>
    refine (failStep_of_mem hg hi (s := s) e).imp_left fun h => ⟨h.1, ?_⟩
    have hStatus : (s.failStart i (.error e)).statusOf i = .pending := h.2.2
    simp [hStatus]

/-- A step of a body starts without a trace elsewhere, or its loop is given up. -/
theorem startStep_of_mem (hg : g.Sound) {loop : g.Index} (hi : i ∈ g.body loop) :
    ((∀ j, i ≠ j → (s.startStep i).record j = s.record j) ∧
        ((s.startStep i).statusOf i = .completed →
          ((s.startStep i).state.result i).output ≠ none)) ∨ (s.startStep i).IsOut loop := by
  have hNone : ∀ j, j ∉ g.body i := fun j hj =>
    (hg.body_kind loop i hi).2.2 (hg.body_loop i j hj)
  cases s.attempt i with
  | failed _ hStart hOthers _ hRunning =>
    rw [hStart]
    refine (failStart_of_mem hg hi hRunning).imp_left fun h =>
      ⟨fun j hj => (h.1 j hj).trans (hOthers j hj), fun hCompleted => absurd hCompleted h.2⟩
  | made hOthers hSelf =>
    refine .inl ⟨fun j hj => hOthers j hj (hNone j), fun hCompleted => ?_⟩
    rcases hSelf (hg.body_kind loop i hi).2.2 with hRunning | ⟨-, hOutput⟩
    · rw [hRunning] at hCompleted
      cases hCompleted
    · exact hOutput

/-- A call that has given an output changes nothing about a loop and its body but the step itself,
unless it was the call of a handler that now decides about the loop. -/
theorem completeCall_within (hg : g.Sound) {loop : g.Index} (hKind : g.kindOf loop = .loop)
    (hCoherent : s.board.Coherent (.ending i)) (hNe : i ≠ loop) (output : Dict Json) :
    (s.completeCall i output).IsOut loop ∨
      (s.statusOf loop = .failed ∧ (s.completeCall i output).statusOf loop = .completed ∧
        ∃ error, (s.controlOf i).activation = some ⟨loop, error⟩ ∧
          g.recovery? i = some .fallback) ∨
      ∀ j, g.Within loop j → i ≠ j → (s.completeCall i output).record j = s.record j := by
  -- only a handler decides about another step; what it decides about the loop ends its rounds
  cases hOwes : (s.controlOf i).activation with
  | none =>
    refine .inr (.inr fun j _ hj => record_completeCall hj fun a ha => ?_)
    rw [hOwes] at ha
    cases ha
  | some a =>
    by_cases hNamed : a.failed = loop
    · have hBoard : (s.completeCall i output).board.slot loop =
          (s.board.slot loop).recovered (g.recovery? i) (g.idOf i) := by
        have hOwes' : ((s.complete i (.obj output)).controlOf i).activation = some a := hOwes
        simp only [completeCall, hOwes']
        rw [board_applyRecovery, board_setActivation, board_complete]
        simp [hNamed, hNe]
      have hFailed : (s.board.slot loop).status = .failed :=
        (hCoherent.plain loop (hg.not_guards_of_kind (by simp [hKind]))).named i a hOwes hNamed
      by_cases hFallback : g.recovery? i = some .fallback
      · refine .inr (.inl ⟨hFailed, ?_, a.error, by rw [← hNamed], hFallback⟩)
        refine (congrArg Slot.status hBoard).trans ?_
        rw [hFallback]
        rfl
      · left
        have hFrame : (s.board.slot loop).frame = none :=
          hNamed ▸ hCoherent.frame_of_named hg hOwes
        refine ⟨?_, fun hCompleted => ?_⟩
        · refine (congrArg Slot.frame hBoard).trans ?_
          rw [Slot.frame_recovered, hFrame]
        · have hStatus := (congrArg Slot.status hBoard).symm.trans hCompleted
          unfold Slot.recovered at hStatus
          split at hStatus <;> simp_all
    · refine .inr (.inr fun j hj hij => record_completeCall hij fun b hb => ?_)
      obtain rfl : a = b := Option.some.inj (hOwes.symm.trans hb)
      rcases hj with rfl | hj
      · exact hNamed
      · exact hCoherent.unnamed hg hj hOwes

end Scheduler

/-! ## Acts -/

/-- The step that an act is about. -/
def Act.about : Act g → Option g.Index
  | read (.command _) => none
  | read (.event (.finished i _ _)) | read (.event (.retryDue i)) | promote i | close i
  | start i => some i

/-- Whether a loop that has failed becomes completed at a moment because the handler that has to deal
with it comes to its end and recovers it with a fallback. -/
def Moment.FallsBack (m : Moment g) (loop : g.Index) : Prop :=
  m.scheduler.statusOf loop = .failed ∧ m.next.statusOf loop = .completed ∧
    ∃ i token output error, m.act = .read (.event (.finished i token (.ok output))) ∧
      (m.scheduler.controlOf i).call = some token ∧
      (m.scheduler.controlOf i).activation = some ⟨loop, error⟩ ∧ g.recovery? i = some .fallback

namespace Scheduler

variable {s : Scheduler g}

/-- What a scheduler makes of a call that has come to an end. -/
theorem heed_finished (hOpen : s.isOver = false) {i : g.Index} {token : Nat}
    (hCall : (s.controlOf i).call = some token) (outcome : Outcome) :
    ∃ t : Scheduler g, Receives s (.event (.finished i token outcome)) (.ending i) t ∧
      (∀ j, i ≠ j → t.record j = s.record j) ∧ (t.controlOf i).call = none ∧
      (t.controlOf i).activation = (s.controlOf i).activation ∧
      s.heed (.event (.finished i token outcome)) =
        match outcome with
        | .ok output => t.completeCall i output
        | .error e => t.failStep i e := by
  refine ⟨_, .ended hCall, fun j hj => ?_, ?_, ?_, ?_⟩
  · exact record_mapControl (s := { s with running := s.running - 1 }) hj
  · rw [controlOf_mapControl, if_pos rfl]
  · rw [controlOf_mapControl, if_pos rfl]
    rfl
  · have hFinal : ({ s with running := s.running - 1 }.mapControl i fun c =>
        { c with call := none }).state.isFinal = false := (Bool.or_eq_false_iff.mp hOpen).1
    have hCall' : ({ s with running := s.running - 1 }.controlOf i).call = some token := hCall
    simp only [heed, note, noteCall, hCall', hFinal, if_true]
    cases outcome <;> rfl

theorem record_heed_of_stale {i j : g.Index} {token : Nat} {outcome : Outcome}
    (hCall : (s.controlOf i).call ≠ some token) :
    (s.heed (.event (.finished i token outcome))).record j = s.record j := by
  have hCall' : ({ s with running := s.running - 1 }.controlOf i).call ≠ some token := hCall
  simp only [heed, note, noteCall, hCall', if_false]
  rfl

/-- What a scheduler makes of a retry that is due. -/
theorem heed_retryDue (hOpen : s.isOver = false) (i : g.Index) :
    (s.controlOf i).waiting = false ∧ s.heed (.event (.retryDue i)) = s ∨
      (s.controlOf i).waiting = true ∧ s.heed (.event (.retryDue i)) =
        (s.mapControl i fun c => { c with waiting := false }).setStatus i .ready := by
  have hFinal : s.state.isFinal = false := (Bool.or_eq_false_iff.mp hOpen).1
  cases hWaiting : (s.controlOf i).waiting <;> simp [heed, note, noteRetry, hWaiting, hFinal]

/-- A retry that is due makes a step ready if it waits for one. -/
theorem heed_retryDue_self (hOpen : s.isOver = false) (i : g.Index) :
    (s.heed (.event (.retryDue i))).record i = s.record i ∨ (s.controlOf i).waiting = true ∧
      ((s.heed (.event (.retryDue i))).controlOf i).frame = (s.controlOf i).frame ∧
      ((s.heed (.event (.retryDue i))).controlOf i).call = (s.controlOf i).call ∧
      (s.heed (.event (.retryDue i))).statusOf i = .ready := by
  rcases heed_retryDue hOpen i with ⟨-, hStill⟩ | ⟨hWaiting, hDue⟩
  · exact .inl (congrArg (·.record i) hStill)
  · rw [hDue]
    exact .inr ⟨hWaiting, by simp, by simp, by simp [statusOf, RunState.statusOf]⟩

/-- A step that is promoted becomes ready or is passed over. -/
theorem promote_self {i : g.Index} (h : s.promotion? i ≠ none) :
    (s.promote i).controlOf i = s.controlOf i ∧
      ((s.promote i).statusOf i = .ready ∨ (s.promote i).statusOf i = .skipped) := by
  obtain ⟨promotion, hPromotion⟩ := Option.ne_none_iff_exists'.mp h
  cases promotion <;> simp [promote, hPromotion, statusOf, RunState.statusOf, StepResult.skip]

theorem record_promote {i j : g.Index} (h : i ≠ j) : (s.promote i).record j = s.record j := by
  unfold promote
  split
  · exact record_setStatus h
  · exact record_skip h
  · rfl

theorem record_closeRound {loop j : g.Index} (hLoop : loop ≠ j) (hBody : j ∉ g.body loop) :
    (s.closeRound loop).record j = s.record j := by
  by_cases hOver : s.RoundOver loop
  · obtain ⟨⟨f, hFrame, hIn⟩, hSettled⟩ := hOver
    rw [closeRound_of_over hFrame hIn hSettled]
    split
    · exact (record_resetBody hBody).trans (record_mapControl hLoop)
    · exact record_completeLoop hLoop
  · rw [closeRound_of_not_over hOver]

end Scheduler

namespace Moment

variable {m : Moment g} {loop : g.Index}

/-- The end of a call leaves a loop and the steps of its body as they are, but for the step that has
been called, unless the loop is out of its rounds afterwards or completed by a handler. -/
theorem within_finished (hg : g.Sound) {s : Scheduler g} (hOpen : s.isOver = false)
    (hCoherent : s.board.Coherent .free) (hKind : g.kindOf loop = .loop)
    (hUncalled : (s.controlOf loop).call = none) (k : g.Index) (token : Nat) (outcome : Outcome) :
    (s.heed (.event (.finished k token outcome))).IsOut loop ∨
      Moment.FallsBack ⟨s, .read (.event (.finished k token outcome))⟩ loop ∨
      ∀ i, g.Within loop i → k ≠ i →
        (s.heed (.event (.finished k token outcome))).record i = s.record i := by
  by_cases hCall : (s.controlOf k).call = some token
  case neg => exact .inr (.inr fun i _ _ => Scheduler.record_heed_of_stale hCall)
  obtain ⟨t, hReceives, hOthers, -, hOwes, hHeed⟩ := Scheduler.heed_finished hOpen hCall outcome
  have hNe : k ≠ loop := by
    rintro rfl
    rw [hUncalled] at hCall
    cases hCall
  cases outcome with
  | ok output =>
    have hNext : s.heed (.event (.finished k token (.ok output))) = t.completeCall k output := hHeed
    rcases Scheduler.completeCall_within hg hKind (hCoherent.notice hg hReceives.notice) hNe
      output with hOut | ⟨hFailed, hCompleted, error, hNamed, hAction⟩ | hSame
    · exact .inl (hNext ▸ hOut)
    · have hBefore : s.statusOf loop = .failed :=
        (congrArg (·.1.status) (hOthers loop hNe)).symm.trans hFailed
      exact .inr (.inl ⟨hBefore, (congrArg (·.statusOf loop) hNext).trans hCompleted,
        k, token, output, error, rfl, hCall, hOwes.symm.trans hNamed, hAction⟩)
    · refine .inr (.inr fun i hi hki => ?_)
      rw [hNext]
      exact (hSame i hi hki).trans (hOthers i hki)
  | error e =>
    have hNext : s.heed (.event (.finished k token (.error e))) = t.failStep k e := hHeed
    rw [hNext]
    by_cases hk : g.Within loop k
    · refine (Scheduler.failStep_of_mem (s := t) hg (hk.resolve_left hNe) e).symm.imp_right
        fun h => .inr fun i _ hki => ?_
      exact (h.1 i hki).trans (hOthers i hki)
    · refine .inr (.inr fun i hi _ => ?_)
      have hApart := hg.apart_of_within hKind hi hk
      exact (Scheduler.record_failStep hApart).trans (hOthers i hApart.ne)

/-- An act leaves a loop and the steps of its body as they are, but for the step that it is about,
unless the loop is out of its rounds afterwards or completed by a handler. -/
theorem within_cases (hg : g.Sound) (hOpen : m.scheduler.isOver = false)
    (hCoherent : m.scheduler.board.Coherent .free) (hKind : g.kindOf loop = .loop)
    (hUncalled : (m.scheduler.controlOf loop).call = none) (hStart : m.act ≠ .start loop)
    (hClose : m.act ≠ .close loop) :
    m.next.IsOut loop ∨ m.FallsBack loop ∨
      ∀ i, g.Within loop i → m.act.about ≠ some i → m.next.record i = m.scheduler.record i := by
  obtain ⟨s, act⟩ := m
  cases act with
  | promote k =>
    exact .inr (.inr fun i _ hk => Scheduler.record_promote fun h => hk (congrArg some h))
  | close k =>
    have hNe : k ≠ loop := fun h => hClose (congrArg Act.close h)
    exact .inr (.inr fun i hi hk => Scheduler.record_closeRound (fun h => hk (congrArg some h))
      (hg.not_mem_body_of_within hKind hi hNe))
  | start k =>
    by_cases hk : g.Within loop k
    · have hMember : k ∈ g.body loop := hk.resolve_left fun h => hStart (congrArg Act.start h)
      refine (Scheduler.startStep_of_mem (s := s) hg hMember).symm.imp_right fun h => .inr ?_
      exact fun i _ hNe => h.1 i fun h => hNe (congrArg some h)
    · exact .inr (.inr fun i hi _ =>
        Scheduler.record_startStep (hg.apart_of_within hKind hi hk))
  | read msg =>
    cases msg with
    | command c => exact .inr (.inr fun i _ _ => Scheduler.record_obey s i c)
    | event e =>
      cases e with
      | retryDue k =>
        refine .inr (.inr fun i _ hk => ?_)
        have hNe : k ≠ i := fun h => hk (congrArg some h)
        change (s.heed (.event (.retryDue k))).record i = s.record i
        rcases Scheduler.heed_retryDue hOpen k with ⟨-, hSame⟩ | ⟨-, hDue⟩
        · rw [hSame]
        · rw [hDue]
          exact (Scheduler.record_setStatus hNe).trans (Scheduler.record_mapControl hNe)
      | finished k token outcome =>
        refine (within_finished hg hOpen hCoherent hKind hUncalled k token outcome).imp_right
          (Or.imp_right fun hSame i hi hk => hSame i hi fun h => hk (congrArg some h))

/-- An act other than its start and the end of its round takes a loop out of its rounds, is the end of
a handler that completes it, or leaves it and its body as they are, but for one step. -/
theorem loop_cases (hg : g.Sound) (hOpen : m.scheduler.isOver = false)
    (hPossible : m.act.IsPossible m.scheduler) (hCoherent : m.scheduler.board.Coherent .free)
    (hKind : g.kindOf loop = .loop) (hUncalled : (m.scheduler.controlOf loop).call = none)
    (hStart : m.act ≠ .start loop) (hClose : m.act ≠ .close loop) :
    m.next.IsOut loop ∨ m.FallsBack loop ∨ m.next.record loop = m.scheduler.record loop ∧
      ∀ i ∈ g.body loop, m.act.about ≠ some i → m.next.record i = m.scheduler.record i := by
  rcases within_cases hg hOpen hCoherent hKind hUncalled hStart hClose with hOut | hBack | hSame
  · exact .inl hOut
  · exact .inr (.inl hBack)
  have hBody : ∀ i ∈ g.body loop, m.act.about ≠ some i → m.next.record i = m.scheduler.record i :=
    fun i hi => hSame i (.inr hi)
  by_cases hAbout : m.act.about = some loop
  case neg => exact .inr (.inr ⟨hSame loop (.inl rfl) hAbout, hBody⟩)
  -- a pending loop is out of its rounds, and a loop has no calls
  have hFrame : (m.scheduler.board.slot loop).status = .pending →
      (m.scheduler.controlOf loop).frame = none := by
    intro hPending
    by_contra hSome
    rw [hCoherent.running_of_frame hSome] at hPending
    cases hPending
  obtain ⟨s, act⟩ := m
  cases act with
  | start k | close k =>
    cases hAbout
    first | exact absurd rfl hStart | exact absurd rfl hClose
  | promote k =>
    obtain rfl : k = loop := Option.some.inj hAbout
    obtain ⟨hControl, hStatus⟩ := Scheduler.promote_self hPossible
    obtain ⟨promotion, hPromotion⟩ := Option.ne_none_iff_exists'.mp hPossible
    have hNone := hFrame (Scheduler.promotion?_some hPromotion).1
    refine .inl ⟨(congrArg Control.frame hControl).trans hNone, ?_⟩
    change (s.promote k).statusOf k ≠ .completed
    rcases hStatus with h | h <;> simp [h]
  | read msg =>
    cases msg with
    | command c => cases hAbout
    | event e =>
      cases e with
      | finished k token outcome =>
        obtain rfl : k = loop := Option.some.inj hAbout
        have hStale : (s.controlOf k).call ≠ some token := by simp [hUncalled]
        exact .inr (.inr ⟨Scheduler.record_heed_of_stale hStale, hBody⟩)
      | retryDue k =>
        obtain rfl : k = loop := Option.some.inj hAbout
        rcases Scheduler.heed_retryDue_self hOpen k with hStill | ⟨hWaiting, hKept, -, hReady⟩
        · exact .inr (.inr ⟨hStill, hBody⟩)
        · have hPlain := hCoherent.plain k (hg.not_guards_of_kind (by simp [hKind]))
          refine .inl ⟨hKept.trans (hFrame (hPlain.waiting hWaiting)), ?_⟩
          change (s.heed (.event (.retryDue k))).statusOf k ≠ .completed
          simp [hReady]

/-- What an act makes of a step of a body: it leaves it as it is, starts it, takes its output, or puts
it off. -/
inductive Treats (m : Moment g) (i : g.Index) : Prop
  | leaves (hSame : m.next.record i = m.scheduler.record i)
  | starts (hAct : m.act = .start i)
      (hOutput : m.next.statusOf i = .completed → (m.next.state.result i).output ≠ none)
  | answers {token : Nat} {output : Dict Json}
      (hAct : m.act = .read (.event (.finished i token (.ok output))))
      (hCall : (m.scheduler.controlOf i).call = some token)
      (hDone : (m.next.controlOf i).call = none)
      (hOutput : (m.next.state.result i).output = some (.obj output))
  | defers (hStatus : m.next.statusOf i ≠ .completed)
      (hCall : (m.next.controlOf i).call = none ∨
        (m.next.controlOf i).call = (m.scheduler.controlOf i).call)

/-- The end of a call that is waited for is the answer of a step of the body or puts it off. -/
theorem treats_finished (hg : g.Sound) {s : Scheduler g} (hOpen : s.isOver = false)
    (hCoherent : s.board.Coherent .free) {i : g.Index} (hi : i ∈ g.body loop) {token : Nat}
    (hCall : (s.controlOf i).call = some token) (outcome : Outcome)
    (hIn : ¬ (s.heed (.event (.finished i token outcome))).IsOut loop) :
    Moment.Treats ⟨s, .read (.event (.finished i token outcome))⟩ i := by
  obtain ⟨t, hReceives, -, hDone, hOwes, hHeed⟩ := Scheduler.heed_finished hOpen hCall outcome
  have hNext : Moment.next ⟨s, .read (.event (.finished i token outcome))⟩ = _ := hHeed
  cases outcome with
  | ok output =>
    -- a step of a body handles no errors, so it answers for itself alone
    have hNone : (t.controlOf i).activation = none := by
      rw [hOwes]
      cases hSome : (s.board.slot i).activation with
      | none => exact hSome
      | some a => exact absurd ⟨_, (hCoherent.edge i a hSome).1⟩ (hg.not_guards_of_mem hi)
    have hComplete : t.completeCall i output = t.complete i (.obj output) := by
      simp [Scheduler.completeCall, hNone]
    refine .answers rfl hCall ?_ ?_ <;> rw [hNext] <;> dsimp only <;> rw [hComplete]
    · exact hDone
    · simp [StepResult.complete]
  | error e =>
    rw [hHeed] at hIn
    have hFails := (Scheduler.failStep_of_mem hg hi e).resolve_right hIn
    refine .defers ?_ (.inl ?_) <;> rw [hNext]
    · simp [hFails.2.2]
    · exact hFails.2.1.trans hDone

/-- As long as a loop stays in its round, an act treats every step of the body in one of these ways. -/
theorem member_cases (hg : g.Sound) (hOpen : m.scheduler.isOver = false)
    (hPossible : m.act.IsPossible m.scheduler) (hCoherent : m.scheduler.board.Coherent .free)
    {i : g.Index} (hi : i ∈ g.body loop)
    (hOthers : m.act.about ≠ some i → m.next.record i = m.scheduler.record i)
    (hIn : ¬ m.next.IsOut loop) : m.Treats i := by
  by_cases hAbout : m.act.about = some i
  case neg => exact .leaves (hOthers hAbout)
  obtain ⟨s, act⟩ := m
  cases act with
  | start k =>
    obtain rfl : k = i := Option.some.inj hAbout
    exact .starts rfl ((Scheduler.startStep_of_mem hg hi).resolve_right hIn).2
  | close k =>
    obtain rfl : k = i := Option.some.inj hAbout
    obtain ⟨⟨f, hFrame, -⟩, -⟩ := hPossible
    exact absurd (hCoherent.frame k f hFrame).1 (hg.body_kind loop k hi).2.2
  | promote k =>
    obtain rfl : k = i := Option.some.inj hAbout
    obtain ⟨hControl, hStatus⟩ := Scheduler.promote_self hPossible
    refine .defers ?_ (.inr (congrArg Control.call hControl))
    change (s.promote k).statusOf k ≠ .completed
    rcases hStatus with h | h <;> simp [h]
  | read msg =>
    cases msg with
    | command c => cases hAbout
    | event e =>
      cases e with
      | retryDue k =>
        obtain rfl : k = i := Option.some.inj hAbout
        rcases Scheduler.heed_retryDue_self hOpen k with hStill | ⟨-, -, hCall, hReady⟩
        · exact .leaves hStill
        · refine .defers ?_ (.inr hCall)
          change (s.heed (.event (.retryDue k))).statusOf k ≠ .completed
          simp [hReady]
      | finished k token outcome =>
        obtain rfl : k = i := Option.some.inj hAbout
        by_cases hCall : (s.controlOf k).call = some token
        · exact treats_finished hg hOpen hCoherent hi hCall outcome hIn
        · exact .leaves (Scheduler.record_heed_of_stale hCall)

end Moment

/-! ## Loops -/

/-- Loops are not called. -/
theorem Board.uncalled_rule (hg : g.Sound) {hand hand' : Hand g} {b b' : Board g}
    (hRule : Rule hand b hand' b') (hCoherent : b.Coherent hand) {loop : g.Index}
    (hKind : g.kindOf loop = .loop) (h : (b.slot loop).call = none) :
    (b'.slot loop).call = none := by
  cases hRule with
  | recover hOwes =>
    have hSlot := hCoherent.slot_recover hg hOwes
    clear hCoherent
    grind -linarith
  | _ =>
    clear hCoherent
    grind -linarith [Slot.cleared]

theorem Board.uncalled_notice {hand : Hand g} {b b' : Board g} {m : Message g}
    (hNotice : Notice b m hand b') {i : g.Index} (h : (b.slot i).call = none) :
    (b'.slot i).call = none := by
  cases hNotice <;> grind -linarith

theorem Moment.uncalled (hg : g.Sound) {m : Moment g} (hOpen : m.scheduler.isOver = false)
    (hPossible : m.act.IsPossible m.scheduler) (hCoherent : m.scheduler.board.Coherent .free)
    {loop : g.Index} (hKind : g.kindOf loop = .loop)
    (h : (m.scheduler.controlOf loop).call = none) : (m.next.controlOf loop).call = none := by
  obtain ⟨_, -, -, hUncalled⟩ := Act.keeps_coherent hg
    (Q := fun _ s => (s.board.slot loop).call = none)
    (fun _ _ _ _ hMove hCoherent h => Board.uncalled_rule hg (hMove.rule hg) hCoherent hKind h)
    (fun _ _ _ _ hReceives _ h => Board.uncalled_notice hReceives.notice h)
    hOpen hPossible hCoherent h
  exact hUncalled

namespace Scheduler

variable {s : Scheduler g} {loop : g.Index}

/-- The items that a loop runs over when it starts: what its expression gives, but no more than it may
run over. -/
def HasItems (s : Scheduler g) (loop : g.Index) (items : List Json) : Prop :=
  ∃ config all, (g.step loop).loopConfig = some config ∧
    Expr.evaluateCollection ((s.begin loop).dataContext loop) config.collectionExpr = .ok all ∧
    items = all.take config.maxIterations

/-- What the start of a loop comes to. -/
inductive Opens (s : Scheduler g) (loop : g.Index) (t : Scheduler g) : Prop
  | out (h : t.IsOut loop)
  | empty (hItems : s.HasItems loop []) (hFrame : (t.controlOf loop).frame = none)
      (hIterations : (t.state.result loop).iterations = [])
      (hOutput : (t.state.result loop).output = some (loopOutput []))
  | round {items : List Json} (hItems : s.HasItems loop items)
      (hFrame : (t.controlOf loop).frame = some ⟨items, 0, []⟩)
      (hStatus : t.statusOf loop ≠ .completed)
      (hBody : ∀ i ∈ g.body loop, t.statusOf i = .pending ∧
        (t.controlOf i).call = (s.controlOf i).call)

/-- A loop that starts begins its first round, is completed without any, or fails. -/
theorem opens_startStep (hg : g.Sound) (hKind : g.kindOf loop = .loop)
    (hFrame : (s.controlOf loop).frame = none) : s.Opens loop (s.startStep loop) := by
  have hOwner := hg.owner?_eq_none_of_loop hKind
  have hOwn := hg.not_mem_own_body loop
  have hGuards := hg.not_mem_handlersOf_of_within hKind (.inl rfl) loop
  have hFails : ∀ (t : Scheduler g) e, (t.controlOf loop).frame = none →
      (t.failStep loop e).IsOut loop := by
    intro t e hNone
    simp only [failStep, hOwner]
    obtain ⟨hFrame, hStatus⟩ := failOuter_self (s := t) e hGuards
    exact ⟨hFrame.trans hNone, by rcases hStatus with h | h <;> simp [h]⟩
  have hStarts := s.starts loop
  generalize s.startStep loop = t at hStarts
  cases hStarts with
  | failed | failedLoop =>
    rename_i fault _
    cases fault with
    | crash =>
      refine .out ⟨hFrame, ?_⟩
      simp [failStart, statusOf, RunState.statusOf, StepResult.start]
    | error e => exact .out (hFails _ _ hFrame)
  | completed hOther | decided hOther | called hOther => simp [hKind] at hOther
  | emptyLoop _ _ hConfig hAll hNone =>
    refine .empty ⟨_, _, hConfig, hAll, hNone.symm⟩ ?_ ?_ ?_ <;>
      simp [hOwn, StepResult.complete, StepResult.start, hFrame]
  | openLoop _ _ hConfig hAll =>
    refine .round ⟨_, _, hConfig, hAll, rfl⟩ (by simp) ?_ fun i hi => ?_
    · simp [statusOf, RunState.statusOf, hOwn, StepResult.start]
    · have hNe : loop ≠ i := fun h => hOwn (h ▸ hi)
      simp [statusOf, RunState.statusOf, hi, hNe, StepResult.reset, StepResult.initial]

end Scheduler

end Workflow

/-
Workflow.Proofs.Run.Rule — the rules of a run.

Every move of a scheduler follows one of a few rules about the steps of the
run. The rules leave out what matters only to readers, to expressions and
to the executor: they are about the board alone.

* `Rule` — the rules for moves; `Move.rule`.
* `Notice` — the rules for messages; `Receives.notice`.
-/
import Workflow.Proofs.Run.Move

namespace Workflow

variable {g : Graph}

namespace Board

/-- Whether an edge with a source and a tag is live. -/
def IsLive (b : Board g) (source : g.Index) (tag : EdgeTag) : Prop :=
  (b.slot source).status = .completed ∧ tag ≠ .loopBody ∨
    (b.slot source).status = .running ∧ tag = .loopBody ∧ (b.slot source).frame ≠ none

/-- A step fails for good. -/
def fail (b : Board g) (i : g.Index) (error : StepError) : Board g :=
  b.set i { b.slot i with status := .failed, error := some error, listed := true }

/-- A loop changes, and its body is as if it had never run. -/
def turn (b : Board g) (loop : g.Index) (y : Slot g) : Board g :=
  { b with
    slot := fun j =>
      if loop = j then y else if j ∈ g.body loop then (b.slot j).cleared else b.slot j }

/-- A step in the body of a loop fails, and the loop is given up. -/
def giveUp (b : Board g) (i loop : g.Index) (error : StepError) : Board g :=
  { b with
    slot := fun j =>
      if i = j then
        { b.slot i with
          status := .failed, error := some error, listed := true, waiting := false, call := none }
      else if loop = j then { b.slot loop with frame := none }
      else if j ∈ g.body loop then (b.slot j).abandoned
      else b.slot j }

/-- A step fails, and an error handler is to deal with it. -/
def handOver (b : Board g) (i handler : g.Index) (error : StepError) : Board g :=
  (b.fail i error).set handler
    { b.slot handler with status := .ready, activation := some ⟨i, error⟩ }

/-- An error handler is through with a failure. -/
def recover (b : Board g) (i : g.Index) (a : Activation g) : Board g :=
  let b := b.set i
    { b.slot i with status := .completed, error := none, listed := false, activation := none }
  (b.set a.failed ((b.slot a.failed).recovered (g.recovery? i) (g.idOf i))).setRun
    (if g.recovery? i = some .stop then .failed else b.desk.status)

variable (b : Board g) (i j k : g.Index) (error : StepError)

@[simp, grind =] theorem slot_fail :
    (b.fail i error).slot j =
      if i = j then { b.slot i with status := .failed, error := some error, listed := true }
      else b.slot j := rfl

@[simp, grind =] theorem desk_fail : (b.fail i error).desk = b.desk := rfl

@[simp, grind =] theorem slot_turn (y : Slot g) :
    (b.turn i y).slot j =
      if i = j then y else if j ∈ g.body i then (b.slot j).cleared else b.slot j := rfl

@[simp, grind =] theorem desk_turn (y : Slot g) : (b.turn i y).desk = b.desk := rfl

@[simp, grind =] theorem slot_giveUp :
    (b.giveUp i k error).slot j =
      if i = j then
        { b.slot i with
          status := .failed, error := some error, listed := true, waiting := false, call := none }
      else if k = j then { b.slot k with frame := none }
      else if j ∈ g.body k then (b.slot j).abandoned
      else b.slot j := rfl

@[simp, grind =] theorem desk_giveUp : (b.giveUp i k error).desk = b.desk := rfl

@[simp, grind =] theorem slot_handOver :
    (b.handOver i k error).slot j =
      if k = j then { b.slot k with status := .ready, activation := some ⟨i, error⟩ }
      else if i = j then { b.slot i with status := .failed, error := some error, listed := true }
      else b.slot j := rfl

@[simp, grind =] theorem desk_handOver : (b.handOver i k error).desk = b.desk := rfl

/-- No error handler guards itself. -/
theorem slot_recover {a : Activation g} (hNe : a.failed ≠ i) :
    (b.recover i a).slot j =
      if a.failed = j then (b.slot j).recovered (g.recovery? i) (g.idOf i)
      else if i = j then
        { b.slot i with status := .completed, error := none, listed := false, activation := none }
      else b.slot j := by
  unfold recover
  simp only [slot_setRun, slot_set]
  by_cases h : a.failed = j
  · subst h
    simp [Ne.symm hNe]
  · simp [h]

theorem desk_recover (a : Activation g) :
    (b.recover i a).desk =
      { b.desk with
        status := if g.recovery? i = some .stop then .failed else b.desk.status } := rfl

@[simp, grind =] theorem requests_recover (a : Activation g) :
    (b.recover i a).desk.requests = b.desk.requests := rfl

end Board

/-- The rules for the moves of a scheduler. -/
inductive Rule : Hand g → Board g → Hand g → Board g → Prop
  | same {i b} : Rule (.starting i) b (.starting i) b
  | promote {b i source tag} (hKind : g.kindOf i ≠ .errorHandler)
      (hPending : (b.slot i).status = .pending) (hWaiting : (b.slot i).waiting = false) (hEdge : Edge.mk source i tag ∈ g.edges)
      (hLive : b.IsLive source tag) :
      Rule .free b .free (b.set i { b.slot i with status := .ready })
  | passOver {b i} (hPending : (b.slot i).status = .pending)
      (hWaiting : (b.slot i).waiting = false) (hEntry : i ≠ g.entry) :
      Rule .free b .free (b.set i { b.slot i with status := .skipped, listed := false })
  | nextRound {b loop frame iterations} (hFrame : (b.slot loop).frame = some frame)
      (hSettled : ∀ i ∈ g.body loop, (b.slot i).status.isSettled)
      (hMore : frame.position + 1 < frame.items.length) :
      Rule .free b .free (b.turn loop
        { b.slot loop with frame := some ⟨frame.items, frame.position + 1, iterations⟩ })
  | lastRound {b loop frame} (hFrame : (b.slot loop).frame = some frame)
      (hSettled : ∀ i ∈ g.body loop, (b.slot i).status.isSettled) :
      Rule .free b .free (b.set loop
        { b.slot loop with
          status := .completed, error := none, listed := false, frame := none })
  | begin {b i} (hReady : (b.slot i).status = .ready) :
      Rule .free b (.starting i) (b.set i { b.slot i with status := .running })
  | openLoop {b loop items} (hKind : g.kindOf loop = .loop) (hSafe : g.Safe loop)
      (hItems : items ≠ []) :
      Rule (.starting loop) b .free
        (b.turn loop { b.slot loop with frame := some ⟨items, 0, []⟩ })
  | emptyLoop {b loop} (hKind : g.kindOf loop = .loop) :
      Rule (.starting loop) b .free
        (b.turn loop { b.slot loop with status := .completed, error := none, listed := false })
  | call {b i token invocation limit}
      (hKind : g.kindOf i = .agent ∨ g.kindOf i = .action ∨ g.kindOf i = .errorHandler)
      (hInput : ∀ a, (b.slot i).activation = some a →
        ∃ own, invocation.input = Dict.insertAll own (Scheduler.failureInput g a))
      (hSafe : g.Safe i) :
      Rule (.starting i) b .free (b.placeCall i token invocation limit)
  | crash {b i} (hUnsafe : ¬ g.Safe i) :
      Rule (.starting i) b (.lost i) { b with desk := { b.desk with crashed := true } }
  | complete {hand b i} (hHand : hand.step? = some i)
      (hOwes : g.kindOf i = .errorHandler → (b.slot i).activation = none) :
      Rule hand b .free
        (b.set i { b.slot i with status := .completed, error := none, listed := false })
  | recover {b i a} (hOwes : (b.slot i).activation = some a) :
      Rule (.ending i) b .free (b.recover i a)
  | retry {b i error delay} :
      Rule (.ending i) b .free ((b.set i
        { b.slot i with
          status := .pending, error := some error, waiting := true }).ask (.wake i delay))
  | giveUp {hand b i loop error} (hHand : hand.step? = some i) (hOwner : g.owner? i = some loop) :
      Rule hand b (hand.passTo loop) (b.giveUp i loop error)
  | activate {hand b i handler error} (hHand : hand.step? = some i) (hOwner : g.owner? i = none)
      (hEdge : Edge.mk i handler .errorCatch ∈ g.edges)
      (hConfig : (g.step handler).errorConfig.isSome) (hNe : i ≠ handler)
      (hPending : (b.slot handler).status = .pending) :
      Rule hand b .free (b.handOver i handler error)
  | failRun {hand b i error} (hHand : hand.step? = some i) (hOwner : g.owner? i = none) :
      Rule hand b .free ((b.fail i error).setRun .failed)

/-- The rules for the messages that a scheduler reads. -/
inductive Notice : Board g → Message g → Hand g → Board g → Prop
  | command {b c desk} (hRunning : desk.running = b.desk.running)
      (hRequests : desk.requests = b.desk.requests) (hCrashed : desk.crashed = b.desk.crashed)
      (hStatus : desk.status ≠ .completed ∨ desk.status = b.desk.status) :
      Notice b (.command c) .free { b with desk }
  | stale {b i token outcome} (hCall : (b.slot i).call ≠ some token) :
      Notice b (.event (.finished i token outcome)) .free b.endCall
  | ended {b i token outcome} (hCall : (b.slot i).call = some token) :
      Notice b (.event (.finished i token outcome)) (.ending i)
        (b.endCall.set i { b.slot i with call := none })
  | early {b i} (hWaiting : (b.slot i).waiting = false) :
      Notice b (.event (.retryDue i)) .free b
  | due {b i} (hWaiting : (b.slot i).waiting = true) :
      Notice b (.event (.retryDue i)) .free
        (b.set i { b.slot i with waiting := false, status := .ready })

namespace Scheduler

/-- What a promotion rests on. -/
theorem promotion?_some {s : Scheduler g} {i : g.Index} {promotion : Promotion}
    (h : s.promotion? i = some promotion) :
    s.statusOf i = .pending ∧ (s.controlOf i).waiting = false ∧ i ≠ g.entry := by
  unfold promotion? at h
  split at h
  · cases h
  · rename_i hNot
    simpa [and_assoc] using hNot

theorem isLive_of_edgeState {s : Scheduler g} {source : g.Index} {tag : EdgeTag}
    (h : s.edgeState source tag = .live) : s.board.IsLive source tag := by
  have hStatus : (s.board.slot source).status = s.statusOf source := rfl
  have hFrame : (s.board.slot source).frame = (s.controlOf source).frame := rfl
  unfold Board.IsLive
  rw [hStatus, hFrame]
  unfold edgeState at h
  dsimp only at h
  split at h <;> simp_all [Option.isSome_iff_ne_none]

/-- A step becomes ready only along a live edge, and a handler never does. -/
theorem live_of_promotion? {s : Scheduler g} {i : g.Index} (h : s.promotion? i = some .start) :
    g.kindOf i ≠ .errorHandler ∧
      ∃ source tag, Edge.mk source i tag ∈ g.edges ∧ s.board.IsLive source tag := by
  unfold promotion? at h
  split at h
  · cases h
  · split at h
    · unfold handlerPromotion? at h
      split at h <;> cases h
    · refine ⟨‹_›, ?_⟩
      unfold edgePromotion? at h
      dsimp only at h
      split at h
      · cases h
      · split at h
        · rename_i hLive
          simp only [List.contains_eq_mem, List.mem_map, decide_eq_true_eq] at hLive
          obtain ⟨⟨source, tag⟩, hMem, hState⟩ := hLive
          exact ⟨source, tag, Graph.mem_incoming_iff.mp hMem, isLive_of_edgeState hState⟩
        · cases h

theorem settled_of_bodySettled {s : Scheduler g} {loop : g.Index} (h : s.bodySettled loop = true) :
    ∀ i ∈ g.body loop, (s.board.slot i).status.isSettled := by
  intro i hi
  exact List.all_eq_true.mp h i hi

/-- The body of a loop is cleared after the loop itself has changed, or before. -/
theorem set_mapBody_cleared (hg : g.Sound) (b : Board g) (loop : g.Index) (y : Slot g) :
    (b.set loop y).mapBody loop Slot.cleared = b.turn loop y ∧
      (b.mapBody loop Slot.cleared).set loop y = b.turn loop y := by
  have hOwn := hg.not_mem_own_body loop
  constructor
  · refine Board.ext (funext fun j => ?_) rfl
    by_cases h : loop = j
    · subst h
      simp [hOwn]
    · simp [h]
  · exact Board.ext rfl rfl

theorem slot_mapBody_self (hg : g.Sound) (b : Board g) (loop : g.Index) (f : Slot g → Slot g) :
    (b.mapBody loop f).slot loop = b.slot loop := by
  simp [hg.not_mem_own_body loop]

/-- A step of a body fails, and its loop is given up. -/
theorem board_giveUp (hg : g.Sound) (s : Scheduler g) {i loop : g.Index} (error : StepError)
    (hi : i ∈ g.body loop) :
    ((s.recordFailure i error).abandonLoop loop).board = s.board.giveUp i loop error := by
  have hNe : i ≠ loop := fun h => hg.not_mem_own_body loop (h ▸ hi)
  rw [board_abandonLoop, board_recordFailure]
  refine Board.ext (funext fun j => ?_) rfl
  by_cases hij : i = j
  · subst hij
    simp [hi, Ne.symm hNe, Slot.abandoned, StepStatus.isFinal]
  · by_cases h : loop = j
    · subst h
      simp [hg.not_mem_own_body, hNe]
    · simp [h, hij]

/-- Every move follows a rule. -/
theorem Move.rule (hg : g.Sound) {hand hand' : Hand g} {s s' : Scheduler g}
    (h : Move hand s hand' s') : Rule hand s.board hand' s'.board := by
  -- the equation of the board for each move, and then the rule with what the move has checked
  cases h with
  | promote hPromotion =>
    obtain ⟨hPending, hWaiting, _⟩ := promotion?_some hPromotion
    obtain ⟨hKind, source, tag, hEdge, hLive⟩ := live_of_promotion? hPromotion
    rw [board_setStatus]
    exact .promote hKind hPending hWaiting hEdge hLive
  | passOver hPromotion =>
    obtain ⟨hPending, hWaiting, hEntry⟩ := promotion?_some hPromotion
    rw [board_skip]
    exact .passOver hPending hWaiting hEntry
  | nextRound hFrame hSettled hMore =>
    rw [board_resetBody, board_setFrame, (set_mapBody_cleared hg _ _ _).1]
    exact .nextRound hFrame (settled_of_bodySettled hSettled) hMore
  | lastRound hFrame hSettled =>
    rw [board_completeLoop]
    exact .lastRound hFrame (settled_of_bodySettled hSettled)
  | begin hReady _ =>
    rw [board_begin]
    exact .begin hReady
  | decide =>
    rw [board_setBranch]
    exact .same
  | forget =>
    rw [board_setIterations]
    exact .same
  | openLoop hKind hFault hItems =>
    rw [board_setFrame, board_resetBody, (set_mapBody_cleared hg _ _ _).2, slot_mapBody_self hg]
    exact .openLoop hKind (safe_of_startFault? hFault) hItems
  | emptyLoop hKind =>
    rw [board_complete, board_resetBody, (set_mapBody_cleared hg _ _ _).2, slot_mapBody_self hg]
    exact .emptyLoop hKind
  | call hKind hInput =>
    rename_i i own
    rw [board_dispatch s i hInput]
    refine .call hKind ?_ (safe_of_startFault? (s := s) ?_)
    · intro a hOwes
      refine ⟨own, ?_⟩
      simp only [invocation, hOwes]
    · rcases hKind with h | h | h <;> simp [startFault?, h, hInput]
  | crash hFault => exact .crash (not_safe_of_crash hFault)
  | complete hHand hOwes =>
    rw [board_complete]
    exact .complete hHand hOwes
  | recover hOwes =>
    rw [board_applyRecovery, board_setActivation, board_complete, Board.set_set]
    simp only [Board.slot_set, if_true]
    exact .recover hOwes
  | retry hRetry =>
    obtain ⟨delay, hBoard⟩ := board_retryLater? s _ hRetry
    rw [hBoard]
    exact .retry
  | giveUp hHand hOwner =>
    rw [board_giveUp hg s _ (hg.owner_mem _ _ hOwner)]
    exact .giveUp hHand hOwner
  | activate hHand hOwner hGuards hConfig hNe hPending =>
    rw [board_setStatus, board_setActivation, board_recordFailure, Board.set_set]
    simp only [Board.slot_set, if_true, hNe, if_false]
    exact .activate hHand hOwner (Graph.mem_handlersOf_iff.mp hGuards) hConfig hNe hPending
  | failRun hHand hOwner =>
    rw [board_failRun, board_recordFailure]
    exact .failRun hHand hOwner

/-- A command changes nothing about the steps, and it does not complete the run. -/
theorem board_obey (s : Scheduler g) (c : Command) :
    ∃ desk : Desk g, (s.obey c).board = { s.board with desk } ∧ desk.running = s.running ∧
      desk.requests = s.requests ∧ desk.crashed = s.crashed ∧
      (desk.status ≠ .completed ∨ desk.status = s.state.status) := by
  refine ⟨(s.obey c).board.desk, ?_⟩
  cases hPaused : s.paused <;> cases c <;> simp [obey, hPaused, board, mapState, finish,
    RunState.finish, RunState.result, controlOf]

/-- Every message is taken note of by a rule. -/
theorem Receives.notice {s s' : Scheduler g} {m : Message g} {hand : Hand g}
    (h : Receives s m hand s') : Notice s.board m hand s'.board := by
  cases h with
  | command =>
    rename_i c
    obtain ⟨desk, hBoard, hRunning, hRequests, hCrashed, hStatus⟩ := board_obey s c
    rw [hBoard]
    exact .command hRunning hRequests hCrashed hStatus
  | stale hCall => exact .stale hCall
  | ended hCall =>
    rw [board_setCall]
    exact .ended hCall
  | early hWaiting => exact .early hWaiting
  | due hWaiting =>
    rw [board_setStatus, board_setWaiting, Board.set_set]
    simp only [Board.slot_set, if_true]
    exact .due hWaiting

end Scheduler

end Workflow

/-
Workflow.Proofs.Run.Move — a turn of a scheduler, move by move.

Whatever a scheduler is told, it goes on in small moves: a step is promoted
or passed over, a round of a loop ends, a step starts, and what has been
started or has come to an end is completed, retried, given up or handed to
an error handler. A property of runs that holds in the beginning and that
every move keeps holds throughout.

* `Hand` — what a scheduler has in hand between two moves.
* `Move`, `Moves` — one move; some moves.
* `Goes`, `Deals` — moves until a scheduler comes to rest, with or without
  something in hand.
* `advance_goes`, `handle_goes` — all that a scheduler does is such moves.
-/
import Workflow.Engine.Process
import Workflow.Proofs.Graph.Sound
import Workflow.Proofs.Run.Board
import Workflow.Proofs.Run.Start

namespace Workflow

/-- What a scheduler has in hand in the middle of a turn: nothing, a step that it starts, a step
whose call has come to an end, or a loop that stops because a step could not start. It is lost with
the step whose start has crashed it. -/
inductive Hand (g : Graph) where
  | free
  | starting (i : g.Index)
  | stopping (i : g.Index)
  | ending (i : g.Index)
  | lost (i : g.Index)

namespace Hand

variable {g : Graph}

/-- The step in hand. -/
def step? : Hand g → Option g.Index
  | .starting i | .stopping i | .ending i => some i
  | .free | .lost _ => none

/-- What is in hand is given up for another step. -/
def passTo (loop : g.Index) : Hand g → Hand g
  | .ending _ => .ending loop
  | .free => .free
  | .lost i => .lost i
  | .starting _ | .stopping _ => .stopping loop

@[simp, grind =] theorem step?_starting (i : g.Index) : (Hand.starting i).step? = some i := rfl

@[simp, grind =] theorem step?_stopping (i : g.Index) : (Hand.stopping i).step? = some i := rfl

@[simp, grind =] theorem step?_ending (i : g.Index) : (Hand.ending i).step? = some i := rfl

@[simp, grind =] theorem step?_free : (Hand.free : Hand g).step? = none := rfl

@[simp, grind =] theorem step?_lost (i : g.Index) : (Hand.lost i).step? = none := rfl

theorem step?_passTo {hand : Hand g} {i : g.Index} (h : hand.step? = some i) (loop : g.Index) :
    (hand.passTo loop).step? = some loop := by
  cases hand <;> simp_all [passTo]

/-- A call comes to an end only at the beginning of a turn. -/
theorem passTo_ne_ending {hand : Hand g} (h : ∀ i, hand ≠ .ending i) (loop i : g.Index) :
    hand.passTo loop ≠ .ending i := by
  cases hand <;> simp_all [passTo]

end Hand

namespace Scheduler

variable {g : Graph}

/-- A move of a scheduler. -/
inductive Move : Hand g → Scheduler g → Hand g → Scheduler g → Prop
  | promote {s i} (hPromotion : s.promotion? i = some .start) :
      Move .free s .free (s.setStatus i .ready)
  | passOver {s i} (hPromotion : s.promotion? i = some .skip) : Move .free s .free (s.skip i)
  | nextRound {s loop frame iterations} (hFrame : (s.board.slot loop).frame = some frame)
      (hSettled : s.bodySettled loop) (hMore : frame.position + 1 < frame.items.length) :
      Move .free s .free ((s.mapControl loop fun c =>
        { c with frame := some ⟨frame.items, frame.position + 1, iterations⟩ }).resetBody loop)
  | lastRound {s loop frame iterations} (hFrame : (s.board.slot loop).frame = some frame)
      (hSettled : s.bodySettled loop) : Move .free s .free (s.completeLoop loop iterations)
  | begin {s i} (hReady : (s.board.slot i).status = .ready) (hOpen : s.isOver = false) :
      Move .free s (.starting i) (s.begin i)
  | decide {s i branch} : Move (.starting i) s (.starting i)
      (s.mapControl i fun c => { c with branch })
  | forget {s i} : Move (.starting i) s (.starting i)
      (s.mapState fun st => st.mapResult i fun r => { r with iterations := [] })
  | openLoop {s loop items} (hKind : g.kindOf loop = .loop) (hFault : s.startFault? loop = none)
      (hItems : items ≠ []) :
      Move (.starting loop) s .free ((s.resetBody loop).mapControl loop fun c =>
        { c with frame := some ⟨items, 0, []⟩ })
  | emptyLoop {s loop output} (hKind : g.kindOf loop = .loop) :
      Move (.starting loop) s .free ((s.resetBody loop).complete loop output)
  | call {s i own} (hKind : g.kindOf i = .agent ∨ g.kindOf i = .action ∨ g.kindOf i = .errorHandler)
      (hInput : resolveInput (s.dataContext i) (g.step i).inputMapping = .ok own) :
      Move (.starting i) s .free (s.dispatch i)
  | crash {s i} (hFault : s.startFault? i = some .crash) :
      Move (.starting i) s (.lost i) { s with crashed := true }
  | complete {hand s i output} (hHand : hand.step? = some i)
      (hOwes : g.kindOf i = .errorHandler → (s.board.slot i).activation = none) :
      Move hand s .free (s.complete i output)
  | recover {s i a output} (hOwes : (s.board.slot i).activation = some a) :
      Move (.ending i) s .free (((s.complete i output).mapControl i fun c =>
        { c with activation := none }).applyRecovery i a)
  | retry {s s' i error} (hRetry : s.retryLater? i error = some s') : Move (.ending i) s .free s'
  | giveUp {hand s i loop error} (hHand : hand.step? = some i) (hOwner : g.owner? i = some loop)
      (hSpent : s.retryLater? i error = none) :
      Move hand s (hand.passTo loop) ((s.recordFailure i error).abandonLoop loop)
  | activate {hand s i handler error} (hHand : hand.step? = some i) (hOwner : g.owner? i = none)
      (hGuards : handler ∈ g.handlersOf i) (hConfig : (g.step handler).errorConfig.isSome)
      (hNe : i ≠ handler) (hPending : (s.board.slot handler).status = .pending)
      (hSpent : s.retryLater? i error = none) :
      Move hand s .free (((s.recordFailure i error).mapControl handler fun c =>
        { c with activation := some ⟨i, error⟩ }).setStatus handler .ready)
  | failRun {hand s i error message} (hHand : hand.step? = some i) (hOwner : g.owner? i = none)
      (hSpent : s.retryLater? i error = none) :
      Move hand s .free ((s.recordFailure i error).failRun (some (g.idOf i)) message)

/-- Some moves of a scheduler. -/
inductive Moves : Hand g → Scheduler g → Hand g → Scheduler g → Prop
  | refl {hand s} : Moves hand s hand s
  | tail {hand s hand' s' hand'' s''} (hMoves : Moves hand s hand' s')
      (hLast : Move hand' s' hand'' s'') : Moves hand s hand'' s''

namespace Moves

variable {hand hand' hand'' : Hand g} {s s' s'' : Scheduler g}

theorem single (h : Move hand s hand' s') : Moves hand s hand' s' := .tail .refl h

theorem trans (h : Moves hand s hand' s') (h' : Moves hand' s' hand'' s'') :
    Moves hand s hand'' s'' := by
  induction h' with
  | refl => exact h
  | tail _ hLast ih => exact ih.tail hLast

theorem head (h : Move hand s hand' s') (h' : Moves hand' s' hand'' s'') :
    Moves hand s hand'' s'' :=
  (single h).trans h'

/-- What every move keeps, some moves keep. -/
theorem invariant {P : Hand g → Scheduler g → Prop}
    (hMove : ∀ hand s hand' s', Move hand s hand' s' → P hand s → P hand' s')
    (h : Moves hand s hand' s') (hP : P hand s) : P hand' s' := by
  induction h with
  | refl => exact hP
  | tail _ hLast ih => exact hMove _ _ _ _ hLast ih

end Moves

/-- What a scheduler has in hand when it has gone on as far as possible: nothing, unless it has
crashed. -/
def AtRest (hand : Hand g) (s : Scheduler g) : Prop :=
  hand = .free ∨ s.crashed = true ∧ ∃ i, hand = .lost i

theorem AtRest.free {hand : Hand g} {s : Scheduler g} (h : AtRest hand s)
    (hOpen : s.isOver = false) : hand = .free := by
  rcases h with rfl | ⟨hCrashed, _⟩
  · rfl
  · simp [isOver, hCrashed] at hOpen

/-- A scheduler makes some moves and comes to rest. -/
def Goes (hand : Hand g) (s s' : Scheduler g) : Prop :=
  ∃ hand', Moves hand s hand' s' ∧ AtRest hand' s'

namespace Goes

variable {hand hand' : Hand g} {s s' s'' : Scheduler g}

theorem refl (s : Scheduler g) : Goes .free s s := ⟨.free, .refl, .inl rfl⟩

theorem head (h : Move hand s hand' s') (h' : Goes hand' s' s'') : Goes hand s s'' := by
  obtain ⟨last, hMoves, hRest⟩ := h'
  exact ⟨last, hMoves.head h, hRest⟩

/-- A scheduler goes on unless it has crashed. -/
theorem trans (h : Goes hand s s') (hNext : s'.crashed = false → Goes .free s' s'')
    (hStop : s'.crashed = true → s'' = s') : Goes hand s s'' := by
  obtain ⟨hand', hMoves, hRest⟩ := h
  cases hCrashed : s'.crashed with
  | true =>
    rw [hStop hCrashed]
    exact ⟨hand', hMoves, hRest⟩
  | false =>
    obtain ⟨hand'', hMoves', hRest'⟩ := hNext hCrashed
    rcases hRest with rfl | ⟨hTrue, _⟩
    · exact ⟨hand'', hMoves.trans hMoves', hRest'⟩
    · rw [hCrashed] at hTrue
      cases hTrue

end Goes

/-- A scheduler deals with what it has in hand until it comes to rest: there is something in hand
before each of its moves. -/
inductive Deals : Hand g → Scheduler g → Scheduler g → Prop
  | rest {hand s} (h : AtRest hand s) : Deals hand s s
  | head {hand s hand' s' s''} (hHand : hand.step? ≠ none) (hMove : Move hand s hand' s')
      (hRest : Deals hand' s' s'') : Deals hand s s''

namespace Deals

variable {hand hand' : Hand g} {s s' s'' : Scheduler g}

theorem refl (s : Scheduler g) : Deals .free s s := .rest (.inl rfl)

theorem of_move {i : g.Index} (hHand : hand.step? = some i) (h : Move hand s .free s') :
    Deals hand s s' :=
  .head (by simp [hHand]) h (refl s')

theorem goes (h : Deals hand s s') : Goes hand s s' := by
  induction h with
  | rest h => exact ⟨_, .refl, h⟩
  | head _ hMove _ ih => exact ih.head hMove

/-- What every move with something in hand keeps holds when a scheduler comes to rest. -/
theorem invariant {P : Hand g → Scheduler g → Prop}
    (hMove : ∀ hand s hand' s', hand.step? ≠ none → Move hand s hand' s' → P hand s → P hand' s')
    (h : Deals hand s s') (hP : P hand s) : ∃ hand', AtRest hand' s' ∧ P hand' s' := by
  induction h with
  | rest h => exact ⟨_, h, hP⟩
  | head hHand hFirst _ ih => exact ih (hMove _ _ _ _ hHand hFirst hP)

end Deals

/-! ## Settling -/

theorem foldl_keeps {change : Scheduler g → g.Index → Scheduler g} {P : Scheduler g → Prop}
    (h : ∀ s i, P s → P (change s i)) (steps : List g.Index) {s : Scheduler g} (hP : P s) :
    P (steps.foldl change s) := by
  induction steps generalizing s with
  | nil => exact hP
  | cons i rest ih => exact ih (h s i hP)

/-- What forgetting and passing over steps keeps, giving up a loop keeps. -/
theorem abandonLoop_keeps {P : Scheduler g → Prop}
    (hControl : ∀ s i change, P s → P (s.mapControl i change)) (hSkip : ∀ s i, P s → P (s.skip i))
    {s : Scheduler g} {loop : g.Index} (hP : P s) : P (s.abandonLoop loop) := by
  refine foldl_keeps (fun t i ht => ?_) (g.body loop) (hControl s loop _ hP)
  unfold abandonMember
  dsimp only
  split
  · exact hControl t i _ ht
  · exact hSkip _ i (hControl t i _ ht)

theorem refreshFrontier_keeps {P : Scheduler g → Prop} (h : ∀ s i, P s → P (s.promote i))
    {s : Scheduler g} (hP : P s) : P s.refreshFrontier := by
  induction s using refreshFrontier.induct with
  | case1 s next hFewer ih =>
    rw [refreshFrontier, if_pos hFewer]
    exact ih (foldl_keeps h g.indices hP)
  | case2 s next hSame =>
    rw [refreshFrontier, if_neg hSame]
    exact foldl_keeps h g.indices hP

/-- What promotions and the ends of rounds keep, settling keeps. -/
theorem settle_keeps {P : Scheduler g → Prop} (hPromote : ∀ s i, P s → P (s.promote i))
    (hClose : ∀ s loop, P s → P (s.closeRound loop)) {s : Scheduler g} (hP : P s) :
    P s.settle := by
  induction s using settle.induct with
  | case1 s next hFewer ih =>
    rw [settle, if_pos hFewer]
    exact ih (foldl_keeps hClose g.indices (refreshFrontier_keeps hPromote hP))
  | case2 s next hSame =>
    rw [settle, if_neg hSame]
    exact foldl_keeps hClose g.indices (refreshFrontier_keeps hPromote hP)

theorem promote_moves (s : Scheduler g) (i : g.Index) : Moves .free s .free (s.promote i) := by
  unfold promote
  split
  · exact .single (.promote ‹_›)
  · exact .single (.passOver ‹_›)
  · exact .refl

theorem closeRound_moves (s : Scheduler g) (loop : g.Index) :
    Moves .free s .free (s.closeRound loop) := by
  unfold closeRound
  split
  · exact .refl
  · split
    · exact .refl
    · split
      · dsimp only
        split
        · exact .single (.nextRound ‹_› ‹_› ‹_›)
        · exact .single (.lastRound ‹_› ‹_›)
      · exact .refl

theorem settle_moves (s : Scheduler g) : Moves .free s .free s.settle :=
  settle_keeps (P := fun t => Moves .free s .free t) (fun t i h => h.trans (promote_moves t i))
    (fun t loop h => h.trans (closeRound_moves t loop)) .refl

/-! ## Failures -/

theorem canHandle_ok {s : Scheduler g} {error : StepError} {handler : g.Index}
    (h : s.canHandle error handler) :
    s.statusOf handler = .pending ∧ (g.step handler).errorConfig.isSome := by
  unfold canHandle at h
  simp only [Bool.and_eq_true, decide_eq_true_eq] at h
  refine ⟨h.1, ?_⟩
  cases hConfig : (g.step handler).errorConfig with
  | none => simp [hConfig] at h
  | some c => rfl

/-- A failure for good of a step in no body goes to a handler or ends the run. -/
theorem route_deals {hand : Hand g} {s : Scheduler g} {i : g.Index} (hHand : hand.step? = some i)
    (hOwner : g.owner? i = none) {error : StepError} (hSpent : s.retryLater? i error = none) :
    Deals hand s ((s.recordFailure i error).route i error) := by
  unfold route
  split
  · rename_i handler hFind
    obtain ⟨hStatus, hConfig⟩ := canHandle_ok (List.find?_some hFind)
    have hPending : ((s.recordFailure i error).board.slot handler).status = .pending := hStatus
    rw [board_recordFailure, Board.slot_set] at hPending
    by_cases hNe : i = handler
    · simp [hNe] at hPending
    · rw [if_neg hNe] at hPending
      exact .of_move hHand (.activate hHand hOwner (List.mem_of_find?_eq_some hFind) hConfig hNe
        hPending hSpent)
  · exact .of_move hHand (.failRun hHand hOwner hSpent)

theorem failOuter_deals {hand : Hand g} {s : Scheduler g} {i : g.Index} {error : StepError}
    (hHand : hand.step? = some i) (hOwner : g.owner? i = none)
    (hRetry : s.retryLater? i error ≠ none → hand = .ending i) :
    Deals hand s (s.failOuter i error) := by
  unfold failOuter
  split
  · rename_i hSome
    obtain rfl := hRetry (by simp [hSome])
    exact .of_move hHand (.retry hSome)
  · exact route_deals hHand hOwner ‹_›

/-- What has been started is never retried when it fails, and what has come to an end may be. -/
theorem failStep_deals (hg : g.Sound) {hand : Hand g} {s : Scheduler g} {i : g.Index}
    {error : StepError} (hHand : hand.step? = some i)
    (hRetry : error.isRetryable = true → hand = .ending i) :
    Deals hand s (s.failStep i error) := by
  have hLater (s : Scheduler g) (j : g.Index) (e : StepError) (hKind : e.kind = error.kind)
      (h : s.retryLater? j e ≠ none) : hand = .ending i := by
    refine hRetry ?_
    unfold retryLater? at h
    simp only [ne_eq, ite_eq_right_iff, reduceCtorEq, imp_false, Bool.and_eq_true,
      not_not] at h
    simpa [StepError.isRetryable, hKind] using h.1
  unfold failStep
  split
  · exact failOuter_deals hHand ‹_› (hLater s i error rfl)
  · rename_i loop hOwner
    split
    · rename_i hSome
      obtain rfl := hLater s i error rfl (by simp [hSome])
      exact .of_move hHand (.retry hSome)
    · refine .head (by simp [hHand]) (.giveUp hHand hOwner ‹_›)
        (failOuter_deals (Hand.step?_passTo hHand loop) ?_ ?_)
      · exact hg.owner?_eq_none_of_loop (hg.body_loop loop i (hg.owner_mem i loop hOwner))
      · intro h
        rw [hLater _ loop (s.loopError loop i error) rfl h]
        rfl

/-! ## Starts -/

theorem failStart_deals (hg : g.Sound) {s : Scheduler g} {i : g.Index} {fault : StartFault}
    (h : s.startFault? i = some fault) : Deals (.starting i) s (s.failStart i fault) := by
  cases fault with
  | crash => exact .head (by simp) (.crash h) (.rest (.inr ⟨rfl, i, rfl⟩))
  | error e =>
    refine failStep_deals hg rfl ?_
    intro hRetry
    simp [StepError.isRetryable, startFault?_kind h] at hRetry

/-- After its begin, a step is completed, called or given up. -/
theorem begin_deals (hg : g.Sound) (s : Scheduler g) (i : g.Index) :
    Deals (.starting i) (s.begin i) (s.startStep i) := by
  have hStarts := s.starts i
  generalize s.startStep i = t at hStarts
  cases hStarts with
  | failed hFault => exact failStart_deals hg hFault
  | failedLoop hFault =>
    exact .head (by simp) .forget (failStart_deals hg ((startFault?_forget _ i []).trans hFault))
  | completed hKind =>
    exact .of_move rfl (.complete rfl (by rcases hKind with h | h <;> simp [h]))
  | decided hKind => exact .head (by simp) .decide (.of_move rfl (.complete rfl (by simp [hKind])))
  | called hKind _ hInput => exact .of_move rfl (.call hKind hInput)
  | emptyLoop hKind => exact .head (by simp) .forget (.of_move rfl (.emptyLoop hKind))
  | openLoop hKind hFault _ _ hSome =>
    have hNone := (startFault?_forget (s.begin i) i []).trans hFault
    exact .head (by simp) .forget (.of_move rfl (.openLoop hKind hNone hSome))

theorem startReady_goes (hg : g.Sound) (s : Scheduler g) (i : g.Index) :
    Goes .free s (s.startReady i) := by
  unfold startReady
  split
  · exact .refl s
  · split
    · rename_i hOpen hReady
      exact .head (.begin hReady (by simpa using hOpen)) (begin_deals hg s i).goes
    · exact .refl s

theorem startReady_of_crashed {s : Scheduler g} (h : s.crashed = true) (i : g.Index) :
    s.startReady i = s := by
  simp [startReady, isOver, h]

theorem foldl_startReady_of_crashed {s : Scheduler g} (h : s.crashed = true)
    (steps : List g.Index) : steps.foldl startReady s = s := by
  induction steps with
  | nil => rfl
  | cons i rest ih => rw [List.foldl_cons, startReady_of_crashed h, ih]

theorem foldl_startReady_goes (hg : g.Sound) (steps : List g.Index) (s : Scheduler g) :
    Goes .free s (steps.foldl startReady s) := by
  induction steps generalizing s with
  | nil => exact .refl s
  | cons i rest ih =>
    exact (startReady_goes hg s i).trans (fun _ => ih _)
      fun hCrashed => foldl_startReady_of_crashed hCrashed rest

/-- What a scheduler comes to when it goes on as far as possible, sweep by sweep: it is over, it is
paused, it has come closer to the end and goes on from there, or it has not and stops. -/
theorem advance_sweeps {P : Scheduler g → Prop}
    (ended : ∀ s, s.isOver = true → s.advance = s → P s)
    (paused : ∀ s, s.isOver = false → s.settle.paused = true → s.advance = s.settle → P s)
    (more : ∀ s, s.isOver = false → s.settle.paused = false →
      s.advance = (s.settle.readySteps.foldl startReady s.settle).advance →
      P (s.settle.readySteps.foldl startReady s.settle) → P s)
    (last : ∀ s, s.isOver = false → s.settle.paused = false →
      ¬ Closer (s.settle.readySteps.foldl startReady s.settle) s →
      s.advance = s.settle.readySteps.foldl startReady s.settle → P s)
    (s : Scheduler g) : P s := by
  induction s using advance.induct with
  | case1 s hOver => exact ended s hOver (by rw [advance, if_pos hOver])
  | case2 s hOpen settled hPaused =>
    refine paused s (by simpa using hOpen) hPaused ?_
    rw [advance, if_neg hOpen]
    exact if_pos hPaused
  | case3 s hOpen settled hActive next hCloser ih =>
    refine more s (by simpa using hOpen) (by simpa using hActive) ?_ ih
    rw [advance, if_neg hOpen]
    exact (if_neg hActive).trans (if_pos hCloser)
  | case4 s hOpen settled hActive next hStuck =>
    refine last s (by simpa using hOpen) (by simpa using hActive) hStuck ?_
    rw [advance, if_neg hOpen]
    exact (if_neg hActive).trans (if_neg hStuck)

/-- A scheduler goes on as far as possible by moves alone. -/
theorem advance_goes (hg : g.Sound) (s : Scheduler g) : Goes .free s s.advance := by
  have hRound (s : Scheduler g) :
      Goes .free s (s.settle.readySteps.foldl startReady s.settle) := by
    obtain ⟨hand, hMoves, hRest⟩ := foldl_startReady_goes hg s.settle.readySteps s.settle
    exact ⟨hand, (settle_moves s).trans hMoves, hRest⟩
  induction s using advance_sweeps with
  | ended s _ hSame =>
    rw [hSame]
    exact .refl s
  | paused s _ _ hSame =>
    rw [hSame]
    exact ⟨.free, settle_moves s, .inl rfl⟩
  | more s _ _ hSame ih =>
    rw [hSame]
    refine (hRound s).trans (fun _ => ih) ?_
    intro hCrashed
    rw [advance, if_pos (by simp [isOver, hCrashed])]
  | last s _ _ _ hSame =>
    rw [hSame]
    exact hRound s

/-! ## What a scheduler is told -/

/-- What a scheduler makes of a message before it goes on. -/
inductive Receives : Scheduler g → Message g → Hand g → Scheduler g → Prop
  | command {s c} : Receives s (.command c) .free (s.obey c)
  | stale {s i token outcome} (hCall : (s.board.slot i).call ≠ some token) :
      Receives s (.event (.finished i token outcome)) .free { s with running := s.running - 1 }
  | ended {s i token outcome} (hCall : (s.board.slot i).call = some token) :
      Receives s (.event (.finished i token outcome)) (.ending i)
        ({ s with running := s.running - 1 }.mapControl i fun c => { c with call := none })
  | early {s i} (hWaiting : (s.board.slot i).waiting = false) :
      Receives s (.event (.retryDue i)) .free s
  | due {s i} (hWaiting : (s.board.slot i).waiting = true) :
      Receives s (.event (.retryDue i)) .free
        ((s.mapControl i fun c => { c with waiting := false }).setStatus i .ready)

theorem completeCall_deals (s : Scheduler g) (i : g.Index) (output : Dict Json) :
    Deals (.ending i) s (s.completeCall i output) := by
  unfold completeCall
  dsimp only
  split
  · rename_i hNone
    exact .of_move rfl (.complete rfl fun _ => hNone)
  · rename_i a hSome
    exact .of_move rfl (.recover hSome)

/-- What a scheduler makes of a message before it goes on as far as possible. -/
def heed (s : Scheduler g) : Message g → Scheduler g
  | .command c => s.obey c
  | .event e => s.note e

theorem handle_eq (s : Scheduler g) (m : Message g) : Process.handle s m = (s.heed m).advance := by
  cases m <;> rfl

/-- A message is taken note of, and what has come to an end is dealt with by moves. -/
theorem heed_deals (hg : g.Sound) {s : Scheduler g} (hOpen : s.state.isFinal = false)
    (m : Message g) : ∃ hand s', Receives s m hand s' ∧ Deals hand s' (s.heed m) := by
  cases m with
  | command c => exact ⟨.free, _, .command, .refl _⟩
  | event e =>
    cases e with
    | finished i token outcome =>
      by_cases hCall : (s.controlOf i).call = some token
      · refine ⟨.ending i, _, .ended hCall, ?_⟩
        have hOpen' : (({ s with running := s.running - 1 }.mapControl i fun c =>
            { c with call := none }).state.isFinal) = false := hOpen
        have hCall' : ({ s with running := s.running - 1 }.controlOf i).call = some token := hCall
        simp only [heed, note, noteCall, hCall', hOpen', if_true]
        cases outcome with
        | ok output => exact completeCall_deals _ i output
        | error e => exact failStep_deals hg rfl fun _ => rfl
      · have hCall' : ({ s with running := s.running - 1 }.controlOf i).call ≠ some token := hCall
        refine ⟨.free, _, .stale hCall, ?_⟩
        simp only [heed, note, noteCall, hCall', if_false]
        exact .refl _
    | retryDue i =>
      cases hWaiting : (s.controlOf i).waiting with
      | false =>
        refine ⟨.free, _, .early hWaiting, ?_⟩
        simp only [heed, note, noteRetry, hWaiting]
        exact .refl s
      | true =>
        have hOpen' : ((s.mapControl i fun c => { c with waiting := false }).state.isFinal) =
            false := hOpen
        refine ⟨.free, _, .due hWaiting, ?_⟩
        simp only [heed, note, noteRetry, hWaiting, hOpen', if_true]
        exact .refl _

/-- A message is taken note of, and then there are only moves. -/
theorem handle_goes (hg : g.Sound) {s : Scheduler g} (hOpen : s.state.isFinal = false)
    (m : Message g) : ∃ hand s', Receives s m hand s' ∧ Goes hand s' (Process.handle s m) := by
  obtain ⟨hand, s', hReceive, hDeals⟩ := heed_deals hg hOpen m
  refine ⟨hand, s', hReceive, ?_⟩
  rw [handle_eq]
  refine hDeals.goes.trans (fun _ => advance_goes hg _) fun hCrashed => ?_
  rw [advance, if_pos (by simp [isOver, hCrashed])]

/-! ## The beginning -/

/-- The scheduler of a run that has not begun. -/
def IsFresh (s : Scheduler g) : Prop :=
  ∃ runId workflowId workflowName input vars created stepTimeout now,
    s = { initial (RunState.initial g runId workflowId workflowName input vars created) stepTimeout
      with now }

/-- The steps that nothing leads to are skipped, and the entry is ready. -/
def enter (s : Scheduler g) : Scheduler g := (g.orphans.foldl skip s).setStatus g.entry .ready

/-! ## The end -/

/-- A run ends when all steps are through or when it is stuck, and else it stays as it is. -/
theorem conclude_cases (s : Scheduler g) :
    s.conclude = s ∨ s.unfinishedSteps = [] ∧ s.conclude = s.finish .completed ∨
      s.unfinishedSteps ≠ [] ∧ s.isStuck = true ∧
        s.conclude = s.failRun none (deadlockMessage (s.unfinishedSteps.map g.idOf)) := by
  unfold conclude
  dsimp only
  split
  · rename_i hEmpty
    exact .inr (.inl ⟨List.isEmpty_iff.mp hEmpty, rfl⟩)
  · rename_i hSome
    split
    · rename_i hStuck
      exact .inr (.inr ⟨fun h => hSome (List.isEmpty_iff.mpr h), hStuck, rfl⟩)
    · exact .inl rfl

/-- What neither the end of a run nor its failure as a whole changes, its conclusion leaves as it
is. -/
theorem conclude_keeps {α : Type} (f : Scheduler g → α)
    (hFinish : ∀ s status, f (s.finish status) = f s)
    (hFailRun : ∀ s step message, f (s.failRun step message) = f s) (s : Scheduler g) :
    f s.conclude = f s := by
  rcases s.conclude_cases with hSame | ⟨-, hDone⟩ | ⟨-, -, hFails⟩
  · rw [hSame]
  · rw [hDone, hFinish]
  · rw [hFails, hFailRun]

end Scheduler

end Workflow

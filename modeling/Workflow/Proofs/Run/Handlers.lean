/-
Workflow.Proofs.Run.Handlers — error handlers do what they have to do.

A handler that has been handed a failure keeps it until it is through and
its recovery has been applied, is called with what it has to know about
that failure and never again once it is completed. All of this goes on
just as long as nobody waits but pending steps. The first turn after which
somebody else waits is a turn in which a handler that waits for a retry of
its own is handed another failure, and the one it had is forgotten.

* `Board.Keeps` — a failure stays on the hands of its handler or has been
  dealt with.
* `Board.Tracks` — what a turn has made of the failures on the hands of
  handlers so far.
* `Course.Turn.duties` — which turns do justice to all failures.
-/
import Workflow.Proofs.Run.Accounts
import Workflow.Proofs.Run.Duty
import Workflow.Proofs.Run.Replay

namespace Workflow

variable {g : Graph}

namespace Board

/-- The recovery of a handler has been applied to the step that had failed. -/
def Dealt (b : Board g) (k : g.Index) (a : Activation g) : Prop :=
  (b.slot a.failed).recoveredBy = some (g.idOf k) ∧
      (g.recovery? k = some .continueRun ∧ (b.slot a.failed).status = .skipped ∨
        g.recovery? k = some .fallback ∧ (b.slot a.failed).status = .completed ∨
        g.recovery? k = some .retry) ∨
    g.recovery? k = some .stop ∧ b.desk.status = .failed

/-- A failure stays on the hands of its handler, or the handler is completed and its recovery has
been applied. -/
def Keeps (b : Board g) (k : g.Index) (a : Activation g) : Prop :=
  (b.slot k).activation = some a ∨
    (b.slot k).activation = none ∧ (b.slot k).status = .completed ∧ b.Dealt k a

/-- The call of a handler tells it about the failure on its hands. -/
def Tells (b : Board g) (k : g.Index) (invocation : Invocation) : Prop :=
  ∃ a own, (b.slot k).activation = some a ∧
    invocation.input = Dict.insertAll own (Scheduler.failureInput g a)

/-- What a turn that began with one board has made of the failures on the hands of handlers. -/
structure Tracks (start : Board g) (hand : Hand g) (b : Board g) : Prop where
  /-- While a call is coming to an end, nothing has been asked for. -/
  first : ∀ i, hand = .ending i → b.desk.requests = []
  kept : ∀ k a, (start.slot k).activation = some a →
    (b.slot k).activation = some a ∨
      (∀ i, hand ≠ .ending i) ∧ (b.slot k).activation = none ∧
        (b.slot k).status = .completed ∧ b.Dealt k a
  /-- A handler that waits has had its failure before. -/
  old : ∀ k a, (b.slot k).activation = some a →
    (start.slot k).activation = some a ∨ (∀ i, hand ≠ .ending i) ∧ (b.slot k).waiting = false
  told : ∀ k token invocation limit, .call k token invocation limit ∈ b.desk.requests →
    g.Guards k → b.Tells k invocation
  done : ∀ k, g.Guards k → (start.slot k).status = .completed →
    (b.slot k).status = .completed ∧
      ∀ token invocation limit, .call k token invocation limit ∉ b.desk.requests

variable {start : Board g} {hand hand' : Hand g} {b b' : Board g}

/-- A recovery that has been applied is not undone in the same turn. -/
theorem Dealt.rule (hg : g.Sound) (hRule : Rule hand b hand' b') (hCoherent : b.Coherent hand)
    (hMatched : b.Matched hand) (hFree : ∀ i, hand ≠ .ending i) {k : g.Index} {a : Activation g}
    (hOuter : ∀ loop, a.failed ∉ g.body loop) (h : b.Dealt k a) : b'.Dealt k a := by
  have hHeld := (hMatched.order a.failed).hand
  unfold Dealt at h ⊢
  cases hRule with
  | recover | retry => exact absurd rfl (hFree _)
  | giveUp hHand hOwner =>
    have hMember := hg.owner_mem _ _ hOwner
    clear hMatched hCoherent
    grind -linarith
  | lastRound hFrame | nextRound hFrame =>
    have hRunning := (hCoherent.frame _ _ hFrame).2.1
    clear hMatched hCoherent
    grind -linarith [Slot.cleared]
  | _ =>
    clear hMatched hCoherent
    grind -linarith [Slot.cleared]

/-- When a handler is through, its recovery has been applied. -/
theorem dealt_recover (hg : g.Sound) (hCoherent : b.Coherent hand) {k : g.Index}
    {a : Activation g} (hOwes : (b.slot k).activation = some a) : (b.recover k a).Dealt k a := by
  obtain ⟨action, hAction⟩ := Graph.exists_recovery? (hCoherent.edge k a hOwes).2
  unfold Dealt
  rw [hCoherent.slot_recover hg hOwes, if_pos rfl, desk_recover, hAction]
  cases action <;> simp [Slot.recovered]

theorem not_mem_of_first {r : Request g} (hFirst : ∀ i, hand = .ending i → b.desk.requests = [])
    {i : g.Index} (hHand : hand = .ending i) : r ∉ b.desk.requests := by
  simp [hFirst i hHand]

namespace Tracks

theorem first_rule (hRule : Rule hand b hand' b') (h : start.Tracks hand b) (i : g.Index)
    (hEnding : hand' = .ending i) : b'.desk.requests = [] := by
  have hFirst := h.first
  clear h
  cases hRule with
  | giveUp hHand hOwner => cases hand <;> grind -linarith [Hand.passTo]
  | _ => grind -linarith

variable (hg : g.Sound) (hRule : Rule hand b hand' b') (hCoherent : b.Coherent hand)
  (hMatched : b.Matched hand) (hMatched' : b'.Matched hand') (h : start.Tracks hand b)
include hg hRule hCoherent hMatched h

include hMatched' in
theorem kept_rule (hStart : start.Coherent .free) {k : g.Index} {a : Activation g}
    (hOwed : (start.slot k).activation = some a) :
    (b'.slot k).activation = some a ∨
      (∀ i, hand' ≠ .ending i) ∧ (b'.slot k).activation = none ∧
        (b'.slot k).status = .completed ∧ b'.Dealt k a := by
  have hEdge := hg.owner?_eq_none_of_catch (hStart.edge k a hOwed).1
  have hFailed := hg.not_mem_body_of_owner?_eq_none hEdge.1
  have hHandler := hg.not_mem_body_of_owner?_eq_none hEdge.2
  have hDealt : (∀ i, hand ≠ .ending i) → b.Dealt k a → b'.Dealt k a :=
    fun hFree => Dealt.rule hg hRule hCoherent hMatched hFree hFailed
  have hKept := h.kept k a hOwed
  have hHeld := (hMatched.order k).hand
  -- only a recovery ends the care for a failure, and only that of the handler at hand
  cases hRule with
  | recover hOwes =>
    rename_i i a'
    have hSlot := hCoherent.slot_recover hg hOwes
    have hNe := hCoherent.failed_ne hg hOwes
    by_cases hki : i = k
    · subst hki
      have hStill := hKept.resolve_right fun hNot => hNot.1 i rfl
      obtain rfl : a' = a := Option.some.inj (hOwes.symm.trans hStill)
      refine .inr ⟨by simp, ?_, ?_, dealt_recover hg hCoherent hOwes⟩
      · rw [hSlot, if_neg hNe, if_pos rfl]
      · rw [hSlot, if_neg hNe, if_pos rfl]
    · clear hCoherent hMatched hMatched' h
      grind -linarith
  | activate hHand hOwner hEdge hConfig hNe hPending =>
    rename_i j handler error
    have hOwing := hCoherent.owing handler
    have hStill := (hMatched'.order handler).waiting
    clear hCoherent hMatched hMatched' h
    grind -linarith
  | giveUp hHand hOwner =>
    have hMember := hg.owner_mem _ _ hOwner
    have hPassed : (∀ i, hand ≠ .ending i) → ∀ loop i, hand.passTo loop ≠ .ending i :=
      Hand.passTo_ne_ending
    clear hCoherent hMatched hMatched' h
    grind -linarith
  | lastRound hFrame | nextRound hFrame =>
    have hRunning := (hCoherent.frame _ _ hFrame).2.1
    clear hCoherent hMatched hMatched' h
    grind -linarith [Slot.cleared]
  | _ =>
    clear hCoherent hMatched hMatched' h
    grind -linarith [Slot.cleared]

omit hMatched in
include hMatched' in
theorem old_rule {k : g.Index} {a : Activation g} (hOwes : (b'.slot k).activation = some a) :
    (start.slot k).activation = some a ∨
      (∀ i, hand' ≠ .ending i) ∧ (b'.slot k).waiting = false := by
  have hOld := h.old
  clear h
  cases hRule with
  | recover hBefore =>
    have hSlot := hCoherent.slot_recover hg hBefore
    clear hCoherent hMatched'
    grind -linarith
  | activate hHand hOwner hEdge hConfig hNe hPending =>
    rename_i j handler error
    have hStill := (hMatched'.order handler).waiting
    clear hCoherent hMatched'
    grind -linarith
  | giveUp hHand hOwner =>
    have hPassed : (∀ i, hand ≠ .ending i) → ∀ loop i, hand.passTo loop ≠ .ending i :=
      Hand.passTo_ne_ending
    clear hCoherent hMatched'
    grind -linarith
  | _ =>
    clear hCoherent hMatched'
    grind -linarith [Slot.cleared]

omit hg in
include hMatched' in
theorem told_rule {k : g.Index} {token : Nat} {invocation : Invocation} {limit : Option Duration}
    (hAsked : .call k token invocation limit ∈ b'.desk.requests) (hGuards : g.Guards k) :
    b'.Tells k invocation := by
  -- what has been asked for before is still true if the handler has the same on its hands
  have hKeep : .call k token invocation limit ∈ b.desk.requests →
      (∀ a, (b.slot k).activation = some a → (b'.slot k).activation = some a) →
      b'.Tells k invocation := by
    intro hBefore hSame
    obtain ⟨a, own, hOwes, hInput⟩ := h.told k token invocation limit hBefore hGuards
    exact ⟨a, own, hSame a hOwes, hInput⟩
  cases hRule with
  | recover hOwes =>
    rename_i i a
    exact absurd hAsked (not_mem_of_first h.first (i := i) rfl)
  | retry =>
    rename_i i error delay
    simp [h.first i rfl] at hAsked
  | call hKind hInput hSafe =>
    rename_i i token' invocation' limit'
    simp only [desk_placeCall, List.mem_append, List.mem_singleton, Request.call.injEq] at hAsked
    rcases hAsked with hBefore | ⟨rfl, rfl, rfl, rfl⟩
    · refine hKeep hBefore ?_
      grind -linarith
    · have hRunning := ((hMatched.order k).hand rfl).1
      obtain ⟨a, hOwes⟩ := Option.ne_none_iff_exists'.mp
        (hMatched.engaged k hGuards (.inr (.inl hRunning)))
      obtain ⟨own, hInput⟩ := hInput a hOwes
      exact ⟨a, own, by simpa using hOwes, hInput⟩
  | activate hHand hOwner hEdge hConfig hNe hPending =>
    rename_i j handler error
    have hOwing := hCoherent.owing handler
    have hStill := (hMatched'.order handler).waiting
    refine hKeep hAsked ?_
    clear hCoherent hMatched hMatched' h hKeep
    grind -linarith
  | _ =>
    refine hKeep (by simpa using hAsked) ?_
    clear hCoherent hMatched hMatched' h hKeep
    grind -linarith [Slot.cleared]

theorem done_rule {k : g.Index} (hGuards : g.Guards k) (hDone : (start.slot k).status = .completed) :
    (b'.slot k).status = .completed ∧
      ∀ token invocation limit, .call k token invocation limit ∉ b'.desk.requests := by
  obtain ⟨hWas, hNone⟩ := h.done k hGuards hDone
  have hOuter : ∀ loop, k ∉ g.body loop := fun loop hk => hg.not_guards_of_mem hk hGuards
  have hHeld := (hMatched.order k).hand
  have hNamed := (hMatched.order k).named
  cases hRule with
  | recover hOwes =>
    have hSlot := hCoherent.slot_recover hg hOwes
    clear hCoherent hMatched h
    grind -linarith
  | lastRound hFrame | nextRound hFrame =>
    have hRunning := (hCoherent.frame _ _ hFrame).2.1
    clear hCoherent hMatched h
    grind -linarith [Slot.cleared]
  | _ =>
    clear hCoherent hMatched h
    grind -linarith [Slot.cleared]

include hMatched' in
/-- A move does justice to all failures, unless one is forgotten. -/
theorem rule (hStart : start.Coherent .free) : start.Tracks hand' b' where
  first := h.first_rule hRule
  kept _ _ := h.kept_rule hg hRule hCoherent hMatched hMatched' hStart
  old _ _ := h.old_rule hg hRule hCoherent hMatched'
  told _ _ _ _ := h.told_rule hRule hCoherent hMatched hMatched'
  done _ := h.done_rule hg hRule hCoherent hMatched

end Tracks

/-- A turn begins with nothing asked for and all failures where they were. -/
theorem tracks_of_done (hNone : b.desk.requests = [])
    (hSame : ∀ k, (b.slot k).activation = (start.slot k).activation)
    (hDone : ∀ k, (start.slot k).status = .completed → (b.slot k).status = .completed) :
    start.Tracks hand b where
  first _ _ := hNone
  kept k _ hOwed := .inl ((hSame k).trans hOwed)
  old k _ hOwes := .inl ((hSame k).symm.trans hOwes)
  told := by simp [hNone]
  done k _ hBefore := ⟨hDone k hBefore, by simp [hNone]⟩

theorem tracks_notice {m : Message g} (hNotice : Notice start m hand b)
    (hMatched : start.Matched .free) (hNone : start.desk.requests = []) :
    start.Tracks hand b := by
  refine tracks_of_done ?_ (activation_of_notice hNotice) ?_
  · cases hNotice <;> simp_all
  · intro k hDone
    have hWaiting := (hMatched.order k).waiting
    clear hMatched
    cases hNotice <;> grind -linarith

end Board

namespace Scheduler

/-- Some moves do justice to all failures, unless one is forgotten. -/
theorem Moves.tracks (hg : g.Sound) {start : Board g} (hStart : start.Coherent .free)
    {hand hand' : Hand g} {s s' : Scheduler g} (hMoves : Moves hand s hand' s')
    (hCoherent : s.board.Coherent hand) (hMatched : s.board.Matched hand)
    (hTracks : start.Tracks hand s.board) :
    s'.board.Coherent hand' ∧
      (s'.board.Matched hand' ∧ start.Tracks hand' s'.board ∨
        ∃ k a, (start.slot k).activation = some a ∧ s'.board.Forsaken hand' k a) := by
  refine hMoves.invariant
    (P := fun hand s => s.board.Coherent hand ∧
      (s.board.Matched hand ∧ start.Tracks hand s.board ∨
        ∃ k a, (start.slot k).activation = some a ∧ s.board.Forsaken hand k a)) ?_
    ⟨hCoherent, .inl ⟨hMatched, hTracks⟩⟩
  rintro hand s hand' s' hMove ⟨hCoherent, hState⟩
  have hRule := hMove.rule hg
  refine ⟨hCoherent.rule hg hRule, ?_⟩
  rcases hState with ⟨hMatched, hTracks⟩ | ⟨k, a, hOwed, hForsaken⟩
  · rcases hMatched.rule hg hRule hCoherent with hMatched' | ⟨k, a, hOwes, hWaits, hForsaken⟩
    · exact .inl ⟨hMatched', hTracks.rule hg hRule hCoherent hMatched hMatched' hStart⟩
    · have hOwed := (hTracks.old k a hOwes).resolve_right (by simp [hWaits])
      exact .inr ⟨k, a, hOwed, hForsaken⟩
  · exact .inr ⟨k, a, hOwed, hForsaken.rule hg hRule hCoherent⟩

end Scheduler

namespace Course

/-- Every call of a handler that has been asked for last tells it about a failed step and its
error. -/
def Informs (p : Course g) : Prop :=
  ∀ k token invocation limit, .call k token invocation limit ∈ p.asked → g.Guards k →
    ∃ a own, (p.scheduler.controlOf k).activation = some a ∧
      p.scheduler.statusOf a.failed = .failed ∧
      (p.scheduler.state.result a.failed).error = some a.error ∧
      invocation.input = Dict.insertAll own (Scheduler.failureInput g a)

/-- What a turn has to do for failures and their handlers. -/
structure DoesJustice (p q : Course g) : Prop where
  /-- A failure stays with its handler until the recovery has been applied. -/
  kept : ∀ k a, (p.scheduler.controlOf k).activation = some a → q.scheduler.board.Keeps k a
  informed : q.Informs
  /-- A handler that is completed is never called again. -/
  done : ∀ k, g.Guards k → p.scheduler.statusOf k = .completed →
    q.scheduler.statusOf k = .completed ∧
      ∀ token invocation limit, .call k token invocation limit ∉ q.asked

/-- What has been asked for while failures and handlers are matched. -/
theorem informs_of_told {p : Course g} {hand : Hand g} (hMatched : p.scheduler.board.Matched hand)
    (hTold : ∀ k token invocation limit, .call k token invocation limit ∈ p.asked → g.Guards k →
      p.scheduler.board.Tells k invocation) : p.Informs := by
  intro k token invocation limit hAsked hGuards
  obtain ⟨a, own, hOwes, hInput⟩ := hTold k token invocation limit hAsked hGuards
  exact ⟨a, own, hOwes, (hMatched.order a.failed).named k a hOwes rfl, hMatched.cause k a hOwes,
    hInput⟩

/-- A turn does justice to all failures, and then nobody waits but pending steps; or a handler that
waits is handed another failure than it had, and the step that had failed is left failed. -/
theorem Turn.justice (hg : g.Sound) {ok : Scheduler g → Prop} (hOk : ∀ s, ok s → s.IsCalm)
    {p q : Course g} (hReach : Reaches ok p) (hTurn : Turn p q) :
    q.scheduler.IsCalm ∧ DoesJustice p q ∨
      ∃ hand k a, Scheduler.AtRest hand q.scheduler ∧
        (p.scheduler.controlOf k).activation = some a ∧ q.scheduler.board.Forsaken hand k a := by
  cases hTurn with
  | conclude now hOpen =>
    left
    have hSlot (i : g.Index) :
        (p.conclude now).scheduler.board.slot i = p.scheduler.board.slot i :=
      congrFun ({ p.scheduler with now } : Scheduler g).slot_conclude i
    refine ⟨?_, ?_, ?_, ?_⟩
    · intro i hWaits
      have hWaits' : (p.scheduler.board.slot i).waiting = true := hSlot i ▸ hWaits
      exact (congrArg Slot.status (hSlot i)).trans (hOk _ hReach.holds i hWaits')
    · intro k a hOwed
      exact .inl ((congrArg Slot.activation (hSlot k)).trans hOwed)
    · rintro k token invocation limit ⟨⟩
    · intro k _ hDone
      refine ⟨(congrArg Slot.status (hSlot k)).trans hDone, ?_⟩
      rintro token invocation limit ⟨⟩
  | read m now hOpen _ _ =>
    obtain ⟨hand, s, hReceive, last, hMoves, hAtRest⟩ := read_goes hg hOpen m now
    have hCoherent := hReach.coherent_free hg hOpen
    have hMatched := hReach.matched_free hg hOk hOpen
    have hStatus : p.scheduler.board.desk.status.isFinal = false := by
      simp only [Scheduler.isOver, Bool.or_eq_false_iff] at hOpen
      exact hOpen.1
    have hNone : p.scheduler.board.desk.requests = [] := hReach.requests_eq
    obtain ⟨-, ⟨hMatched', hTracks⟩ | ⟨k, a, hOwed, hForsaken⟩⟩ :=
      hMoves.tracks hg hCoherent (hCoherent.notice hg hReceive.notice)
        (hMatched.notice hReceive.notice hStatus)
        (Board.tracks_notice hReceive.notice hMatched hNone)
    -- the failures have been matched all the way, or somewhere on it one of them was forsaken
    · left
      refine ⟨fun i => (hMatched'.order i).waiting, ?_, ?_, ?_⟩
      · intro k a hOwed
        exact (hTracks.kept k a hOwed).imp_right fun h => h.2
      · exact informs_of_told (hMatched'.of_slots rfl id) hTracks.told
      · exact hTracks.done
    · exact .inr ⟨last, k, a, hAtRest, hOwed, hForsaken.of_slots rfl⟩

/-- So does the beginning of a run. -/
theorem start_justice (hg : g.Sound) {s : Scheduler g} {now : Instant}
    (hFresh : ({ s with now } : Scheduler g).IsFresh) :
    (start s now).scheduler.IsCalm ∧ (start s now).Informs ∨
      ∃ hand k a, Scheduler.AtRest hand (start s now).scheduler ∧
        (start s now).scheduler.board.Forsaken hand k a := by
  have hCoherent := Scheduler.coherent_enter hg hFresh
  have hNone : ({ s with now } : Scheduler g).enter.board.desk.requests = [] := by
    obtain ⟨_, _, _, _, _, _, _, _, hInitial⟩ := hFresh
    rw [Scheduler.desk_enter, hInitial]
    rfl
  obtain ⟨last, hMoves, hAtRest⟩ := Scheduler.advance_goes hg (Scheduler.enter _)
  obtain ⟨-, ⟨hMatched, hTracks⟩ | ⟨k, a, -, hForsaken⟩⟩ :=
    hMoves.tracks hg hCoherent hCoherent (Scheduler.matched_enter hg hFresh)
      (Board.tracks_of_done hNone (fun _ => rfl) fun _ => id)
  · exact .inl ⟨fun i => (hMatched.order i).waiting,
      informs_of_told (hMatched.of_slots rfl id) hTracks.told⟩
  · exact .inr ⟨last, k, a, hAtRest, hForsaken.of_slots rfl⟩

/-- In a run in which nobody waits but pending steps, every call of a handler tells it what it has to
know. -/
theorem Reaches.informs (hg : g.Sound) {ok : Scheduler g → Prop} (hOk : ∀ s, ok s → s.IsCalm)
    {p : Course g} (hReach : Reaches ok p) : p.Informs := by
  cases hReach with
  | start runId workflowId workflowName input vars created now stepTimeout hCalm =>
    rcases start_justice hg ⟨runId, workflowId, workflowName, input, vars, created, stepTimeout,
      now, rfl⟩ with ⟨-, hInforms⟩ | ⟨_, k, a, -, hForsaken⟩
    · exact hInforms
    · exact absurd (hOk _ hCalm k hForsaken.waits.1) hForsaken.waits.2
  | turn hBefore hTurn hCalm =>
    rcases hTurn.justice hg hOk hBefore with ⟨-, hJustice⟩ | ⟨_, k, a, -, -, hForsaken⟩
    · exact hJustice.informed
    · exact absurd (hOk _ hCalm k hForsaken.waits.1) hForsaken.waits.2

end Course

/-- As long as nobody has waited but pending steps, a turn does justice to all failures if and only
if that remains so, and every call of a handler so far has told it what it has to know. A turn that
does no justice hands another failure to a handler; the step that had failed before stays failed,
however the run goes on. -/
theorem Course.justice_iff_calm {allowOrphans : Bool} {steps : List Step} {g : Graph}
    (hCompile : Graph.compile allowOrphans steps = .ok g) {p q : Course g}
    (hReach : Course.Reaches Scheduler.IsCalm p) (hTurn : Course.Turn p q) :
    p.Informs ∧ (Course.DoesJustice p q ↔ q.scheduler.IsCalm) ∧
      (¬ q.scheduler.IsCalm → ∃ k a a', (p.scheduler.controlOf k).activation = some a ∧
        (q.scheduler.controlOf k).activation = some a' ∧ a'.failed ≠ a.failed ∧
        ∀ r, Relation.ReflTransGen Course.Turn q r → r.scheduler.statusOf a.failed = .failed) := by
  have hg := Graph.sound_of_compile hCompile
  refine ⟨hReach.informs hg fun _ => id, ?_⟩
  rcases hTurn.justice hg (fun _ => id) hReach with
    ⟨hCalm, hJustice⟩ | ⟨hand, k, a, hAtRest, hOwed, hForsaken⟩
  · exact ⟨⟨fun _ => hCalm, fun _ => hJustice⟩, fun hNot => absurd hCalm hNot⟩
  · obtain ⟨a', hOwes, hNe⟩ := hForsaken.other
    have hNotCalm : ¬ q.scheduler.IsCalm := fun hCalm =>
      hForsaken.waits.2 (hCalm k hForsaken.waits.1)
    refine ⟨⟨fun hJustice => ?_, fun hCalm => absurd hCalm hNotCalm⟩, fun _ => ?_⟩
    · rcases hJustice.kept k a hOwed with hSame | ⟨hNone, -⟩
      · exact absurd (congrArg Activation.failed (Option.some.inj (hOwes.symm.trans hSame))) hNe
      · simp [hOwes] at hNone
    · refine ⟨k, a, a', hOwed, hOwes, hNe, fun r hRun => ?_⟩
      exact Course.Strands.stays hg ⟨hand, hAtRest, hForsaken.stranded⟩
        (hReach.reached.turn hTurn trivial) hRun

/-- The turn in which a handler does its work does justice to the failure on its hands. -/
theorem Course.justice_of_handled :
    ∃ g p q, Graph.compile false (Script.handled "a").steps = .ok g ∧
      Course.Reaches (g := g) Scheduler.IsCalm p ∧ Course.Turn p q ∧
      (∃ k, (p.scheduler.controlOf k).activation ≠ none) ∧ Course.DoesJustice p q := by
  have hShows : { Script.handled "a" with cues := [.answer 0 (.error .boom)] }.shows
      (fun _ s => s.IsCalm) (fun g p =>
        (∃ k : g.Index, (p.scheduler.controlOf k).activation ≠ none) ∧
          ∃ q ∈ p.turn? Script.rounds (.answer 0 (.ok [])), q.scheduler.IsCalm) := by
    decide +kernel
  obtain ⟨g, p, hCompile, hReach, hOwed, q, hTurn, hCalm⟩ := Script.exists_of_shows hShows
  have hTurn := Course.turn_of_turn? hTurn
  refine ⟨g, p, q, hCompile, hReach, hTurn, hOwed, ?_⟩
  exact (Course.justice_iff_calm hCompile hReach hTurn).2.1.mpr hCalm

/-- Two steps fail while their handler waits to be tried again. -/
def Script.handlerWaits : Script where
  steps := [.plain "start" .start [], .plain "a" .action ["start"], .plain "b" .action ["start"],
    { Step.handler "h" ["a", "b"] .continueRun with
      retryPolicy := some ⟨1, .ofSeconds 10, .ofSeconds 10, .one⟩ },
    .plain "end" .finish ["start"]]
  input := .null
  cues := [.answer 0 (.error .boom), .answer 1 (.error .boom)]

/-- A failure can be replaced by another one while it is on the hands of its handler. -/
theorem Course.replaced_while_waiting :
    ∃ g p q, Graph.compile false Script.handlerWaits.steps = .ok g ∧
      Course.Reached (g := g) p ∧ Course.Turn p q ∧ q.scheduler.isOver = false ∧
      ∃ k a a', (p.scheduler.controlOf k).activation = some a ∧
        (q.scheduler.controlOf k).activation = some a' ∧ a'.failed ≠ a.failed ∧
        q.scheduler.statusOf a.failed = .failed := by
  have hShows : Script.handlerWaits.shows (fun _ _ => True) (fun g p =>
      ∃ q ∈ p.turn? Script.rounds (.answer 0 (.error .boom)), q.scheduler.isOver = false ∧
        ∃ k : g.Index, ∃ a ∈ (p.scheduler.controlOf k).activation,
          ∃ a' ∈ (q.scheduler.controlOf k).activation, a'.failed ≠ a.failed ∧
            q.scheduler.statusOf a.failed = .failed) := by
    decide +kernel
  obtain ⟨g, p, hCompile, hReach, q, hTurn, hOpen, k, a, hOwed, a', hOwes, hNe, hFailed⟩ :=
    Script.exists_of_shows hShows
  exact ⟨g, p, q, hCompile, hReach, Course.turn_of_turn? hTurn, hOpen, k, a, a', hOwed, hOwes,
    hNe, hFailed⟩

end Workflow

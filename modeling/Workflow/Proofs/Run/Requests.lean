/-
Workflow.Proofs.Run.Requests — what a run has asked for, and what has come of it.

A scheduler asks for calls and for retries to come. What it has asked for
is expected until it has come, and it comes once, in whatever order. Calls
are told apart by their tokens, of which no two are the same. A running step
waits for one call, or it is a loop in a round; a loop that is given up
waits for nothing in its body any more, and what comes of that later has no
effect.

* `Asks`, `Move.asks` — what a move asks for.
* `Continues` — what a scheduler has asked for since it was another one.
* `called`, `woken`, `ended`, `due` — what has been asked for in a run and
  what has come.
* `History.balanced` — what has been asked for is expected or has come.
* `History.numbered` — calls have their own tokens, and what is no longer
  waited for never is again.
* `Reaches.timed` — a step that waits for a retry is told when it is due.
* `calls_accounted` — all of this about every run.
-/
import Workflow.Proofs.Graph.Wired
import Workflow.Proofs.Run.Body
import Workflow.Proofs.Run.Replay

namespace Workflow

variable {g : Graph}

namespace Request

variable (i : g.Index) (token : Nat) (invocation : Invocation) (limit : Option Duration)
  (delay : Duration)

@[simp] theorem call?_call : (call i token invocation limit).call? = some (i, token) := rfl

@[simp] theorem call?_wake : (wake i delay).call? = none := rfl

@[simp] theorem wake?_call : (call i token invocation limit).wake? = none := rfl

@[simp] theorem wake?_wake : (wake i delay).wake? = some i := rfl

end Request

/-! ## What a move asks for -/

namespace Board

variable {hand hand' : Hand g} {b b' : Board g}

/-- The retries to come among what has been asked for. -/
def timed (b : Board g) : List g.Index := b.desk.requests.filterMap Request.wake?

/-- A step begins to wait for a call when the call is asked for. -/
theorem call_rule (hg : g.Sound) (hRule : Rule hand b hand' b') (hCoherent : b.Coherent hand)
    {i : g.Index} {token : Nat} (hCall : (b'.slot i).call = some token) :
    (b.slot i).call = some token ∨ b'.placed = b.placed ++ [(i, token)] := by
  cases hRule with
  | call =>
    rename_i k token' invocation limit _ _ _
    have hPlaced : (b.placeCall k token' invocation limit).placed = b.placed ++ [(k, token')] := by
      simp [placed]
    rw [hPlaced]
    grind -linarith
  | recover hOwes =>
    have hSlot := hCoherent.slot_recover hg hOwes
    clear hCoherent
    grind -linarith
  | _ =>
    clear hCoherent
    grind -linarith [Slot.cleared]

/-- Reading a message, a step begins to wait for no call. -/
theorem call_notice {m : Message g} (hNotice : Notice b m hand b') {i : g.Index} {token : Nat}
    (hCall : (b'.slot i).call = some token) : (b.slot i).call = some token := by
  cases hNotice <;> grind -linarith

/-- A step begins to wait for a retry when it asks to be told of it. -/
theorem waiting_rule (hg : g.Sound) (hRule : Rule hand b hand' b') (hCoherent : b.Coherent hand)
    {i : g.Index} (hWaiting : (b'.slot i).waiting = true) :
    (b.slot i).waiting = true ∨ i ∈ b'.timed := by
  cases hRule with
  | retry =>
    rename_i k error delay
    by_cases h : k = i
    · exact .inr (by simp [timed, h])
    · exact .inl (by simpa [h] using hWaiting)
  | recover hOwes =>
    have hSlot := hCoherent.slot_recover hg hOwes
    clear hCoherent
    grind -linarith
  | _ =>
    clear hCoherent
    grind -linarith [Slot.cleared]

end Board

namespace Scheduler

/-- What a scheduler has asked for, and the last token that it has given. -/
def asking (s : Scheduler g) : List (Request g) × Nat := (s.requests, s.lastToken)

theorem asking_eq_of_shell_eq {s s' : Scheduler g} (h : s'.shell = s.shell) :
    s'.asking = s.asking :=
  congrArg (fun v : Shell g => (v.requests, v.lastToken)) h

theorem asking_applyRecovery (s : Scheduler g) (handler : g.Index) (a : Activation g) :
    (s.applyRecovery handler a).asking = s.asking := by
  rcases shell_applyRecovery s handler a with hSame | ⟨-, _, hFails⟩
  · exact asking_eq_of_shell_eq hSame
  · exact congrArg (fun v : Shell g => (v.requests, v.lastToken)) hFails

/-- What is asked for between one scheduler and the next: nothing, a call with the next token, or a
retry after a delay, which is noted for the step that waits for it. -/
inductive Asks (s s' : Scheduler g) : Prop
  | nothing (h : s'.asking = s.asking)
  | call {i : g.Index} {invocation : Invocation} {limit : Option Duration}
      (h : s'.asking = (s.requests ++ [.call i (s.lastToken + 1) invocation limit], s.lastToken + 1))
  | wake {i : g.Index} {delay : Duration}
      (h : s'.asking = (s.requests ++ [.wake i delay], s.lastToken))
      (hNoted : (s'.state.result i).retryDelays = (s.state.result i).retryDelays ++ [delay])
      (hWaits : (s'.controlOf i).waiting = true)

theorem Move.asks {hand hand' : Hand g} {s s' : Scheduler g} (h : Move hand s hand' s') :
    s.Asks s' := by
  cases h with
  | nextRound | openLoop | emptyLoop | giveUp => exact .nothing (asking_eq_of_shell_eq (by simp))
  | call _ hInput => exact .call (by simp only [dispatch, hInput]; rfl)
  | recover => exact .nothing (asking_applyRecovery _ _ _)
  | retry hRetry =>
    obtain ⟨-, -, rfl⟩ := eq_of_retryLater? hRetry
    refine .wake rfl ?_ ?_
    · exact congrArg StepResult.retryDelays ((PerStep.get_update _ _ _ _).trans (if_pos rfl))
    · exact congrArg Control.waiting ((PerStep.get_update _ _ _ _).trans (if_pos rfl))
  | _ => exact .nothing rfl

theorem Receives.asking {s s' : Scheduler g} {m : Message g} {hand : Hand g}
    (h : Receives s m hand s') : s'.asking = s.asking := by
  cases h with
  | command =>
    rename_i c
    cases hPaused : s.paused <;> cases c <;> simp [obey, hPaused, Scheduler.asking, mapState, finish]
  | _ => rfl

/-! ## Since an earlier scheduler -/

/-- A scheduler has become of an earlier one and has asked for more since: its new calls are numbered
on, and the calls that it waits for are among the earlier and the new ones. -/
structure Continues (s₀ s : Scheduler g) (more : List (Request g)) : Prop where
  later : s₀.lastToken ≤ s.lastToken
  tokens : (more.filterMap Request.call?).map Prod.snd =
    List.range' (s₀.lastToken + 1) (s.lastToken - s₀.lastToken)
  calls : ∀ i token, (s.controlOf i).call = some token →
    (s₀.controlOf i).call = some token ∨ s₀.lastToken < token ∧ token ≤ s.lastToken

/-- A scheduler that has asked for nothing new waits for no other calls. -/
theorem Continues.of_calls {s s' : Scheduler g} (hToken : s'.lastToken = s.lastToken)
    (hCalls : ∀ i token, (s'.controlOf i).call = some token → (s.controlOf i).call = some token) :
    s.Continues s' [] :=
  ⟨hToken.ge, by simp [hToken], fun i token hCall => .inl (hCalls i token hCall)⟩

theorem Continues.trans {s₀ s s' : Scheduler g} {more more' : List (Request g)}
    (h : s₀.Continues s more) (h' : s.Continues s' more') : s₀.Continues s' (more ++ more') := by
  have hLater := h.later
  have hLater' := h'.later
  refine ⟨hLater.trans hLater', ?_, fun i token hCall => ?_⟩
  · rw [List.filterMap_append, List.map_append, h.tokens, h'.tokens,
      show s.lastToken + 1 = s₀.lastToken + 1 + (s.lastToken - s₀.lastToken) by omega,
      List.range'_append_1]
    congr 1
    omega
  · rcases h'.calls i token hCall with hOld | hNew
    · rcases h.calls i token hOld with hOlder | hOld
      · exact .inl hOlder
      · exact .inr ⟨hOld.1, hOld.2.trans hLater'⟩
    · exact .inr ⟨hLater.trans_lt hNew.1, hNew.2⟩

theorem Move.continues (hg : g.Sound) {s s' : Scheduler g} {hand hand' : Hand g}
    (hMove : Move hand s hand' s') (hCoherent : s.board.Coherent hand) :
    ∃ more, s'.requests = s.requests ++ more ∧ s.Continues s' more := by
  have hNew : ∀ i token, (s'.controlOf i).call = some token →
      (s.controlOf i).call = some token ∨ s'.board.placed = s.board.placed ++ [(i, token)] :=
    fun i token => Board.call_rule hg (hMove.rule hg) hCoherent
  have hSame : s'.board.placed = s.board.placed → ∀ i token,
      (s'.controlOf i).call = some token → (s.controlOf i).call = some token := by
    intro hPlaced i token hCall
    refine (hNew i token hCall).resolve_right fun hMore => ?_
    simp [hPlaced] at hMore
  have hPlaced : ∀ more, s'.requests = s.requests ++ more →
      s'.board.placed = s.board.placed ++ more.filterMap Request.call? := by
    intro more hRequests
    exact (congrArg (List.filterMap Request.call?) hRequests).trans List.filterMap_append
  cases hMove.asks with
  | nothing hAsking =>
    obtain ⟨hRequests, hToken⟩ := Prod.mk.inj hAsking
    exact ⟨[], by simpa using hRequests,
      .of_calls hToken (hSame (congrArg (List.filterMap Request.call?) hRequests))⟩
  | wake hAsking =>
    rename_i i delay
    obtain ⟨hRequests, hToken⟩ := Prod.mk.inj hAsking
    have hCalls := hSame ((hPlaced _ hRequests).trans (List.append_nil _))
    exact ⟨_, hRequests, hToken.ge, by simp [hToken], fun i token hCall => .inl (hCalls i token hCall)⟩
  | call hAsking =>
    rename_i k invocation limit
    obtain ⟨hRequests, hToken⟩ := Prod.mk.inj hAsking
    refine ⟨_, hRequests, by omega, by simp [hToken], fun i token hCall => ?_⟩
    rcases hNew i token hCall with hOld | hMore
    · exact .inl hOld
    · rw [hPlaced _ hRequests] at hMore
      obtain ⟨-, hSame⟩ : k = i ∧ s.lastToken + 1 = token := by simpa using hMore
      omega

end Scheduler

/-! ## Moment by moment -/

/-- What a scheduler asks for at a moment. -/
def Moment.asked (m : Moment g) : List (Request g) :=
  m.next.requests.drop m.scheduler.requests.length

/-- The call of which an act reads the end. -/
def Act.ended? : Act g → Option (g.Index × Nat)
  | read (.event (.finished i token _)) => some (i, token)
  | _ => none

/-- The step of which an act reads that its retry is due. -/
def Act.due? : Act g → Option g.Index
  | read (.event (.retryDue i)) => some i
  | _ => none

/-- The calls that have been asked for. -/
def called (log : List (Moment g)) : List (g.Index × Nat) :=
  (log.flatMap Moment.asked).filterMap Request.call?

/-- The retries that have been asked for. -/
def woken (log : List (Moment g)) : List g.Index :=
  (log.flatMap Moment.asked).filterMap Request.wake?

/-- The calls of which the end has been read. -/
def ended (log : List (Moment g)) : List (g.Index × Nat) := log.filterMap (·.act.ended?)

/-- The retries that have become due. -/
def due (log : List (Moment g)) : List g.Index := log.filterMap (·.act.due?)

/-- What is asked for at a moment comes after what has been asked for before, and calls are numbered
on. -/
theorem Moment.continues (hg : g.Sound) {m : Moment g} (hOpen : m.scheduler.isOver = false)
    (hPossible : m.act.IsPossible m.scheduler) (hCoherent : m.scheduler.board.Coherent .free) :
    m.next.requests = m.scheduler.requests ++ m.asked ∧ m.scheduler.Continues m.next m.asked := by
  obtain ⟨_, -, -, more, hRequests, hContinues⟩ := Act.keeps_coherent hg
    (Q := fun _ s => ∃ more, s.requests = m.scheduler.requests ++ more ∧
      m.scheduler.Continues s more)
    (fun _ _ _ _ hMove hCoherent ⟨more, hRequests, hContinues⟩ => by
      obtain ⟨new, hNew, hNext⟩ := hMove.continues hg hCoherent
      refine ⟨more ++ new, ?_, hContinues.trans hNext⟩
      rw [hNew, hRequests, List.append_assoc])
    (fun _ _ _ _ hReceives _ ⟨more, hRequests, hContinues⟩ => by
      obtain ⟨hSame, hToken⟩ := Prod.mk.inj hReceives.asking
      refine ⟨more, hSame.trans hRequests, ?_⟩
      rw [← List.append_nil more]
      exact hContinues.trans (.of_calls hToken fun i token hCall =>
        Board.call_notice hReceives.notice hCall))
    hOpen hPossible hCoherent ⟨[], by simp, .of_calls rfl fun _ _ h => h⟩
  have hAsked : m.asked = more := by
    rw [asked, show m.next.requests = _ from hRequests, List.drop_left]
  rw [hAsked]
  exact ⟨hRequests, hContinues⟩

/-- An attempt of a step that is waited for before a moment, and no longer after it. -/
def Moment.Drops (m : Moment g) (i : g.Index) (token : Nat) : Prop :=
  (m.scheduler.controlOf i).call = some token ∧ (m.next.controlOf i).call ≠ some token

/-- What is asked for by the acts of a turn comes after what has been asked for before. -/
theorem Scheduler.Leads.requests {s t : Scheduler g} {log : List (Moment g)} (h : s.Leads log t)
    (hMoments : ∀ m ∈ log, m.next.requests = m.scheduler.requests ++ m.asked) :
    t.requests = s.requests ++ log.flatMap Moment.asked := by
  induction h with
  | nil => simp
  | snoc hBefore hOpen hOwn hPossible ih =>
    rename_i log t act
    have hLast : (act.apply t).requests = t.requests ++ Moment.asked ⟨t, act⟩ :=
      hMoments ⟨t, act⟩ (by simp)
    rw [hLast, ih fun m hm => hMoments m (List.mem_append_left _ hm)]
    simp

/-- What a scheduler does by itself reads nothing. -/
theorem Scheduler.Leads.reads_nothing {s t : Scheduler g} {log : List (Moment g)}
    (h : s.Leads log t) : ended log = [] ∧ due log = [] := by
  induction h with
  | nil => exact ⟨rfl, rfl⟩
  | snoc hBefore hOpen hOwn hPossible ih =>
    rename_i log t act
    cases act with
    | read m => cases hOwn
    | _ => simpa [ended, due, Act.ended?, Act.due?] using ih

/-- The calls of which the end has been read after a turn that has begun with a message. -/
theorem ended_read {s t : Scheduler g} {log more : List (Moment g)} {m : Moment g}
    (h : s.Leads more t) : ended (log ++ m :: more) = ended log ++ m.act.ended?.toList := by
  have hNone := h.reads_nothing.1
  simp only [ended, List.filterMap_eq_flatMap_toList] at hNone ⊢
  simp [hNone]

theorem due_read {s t : Scheduler g} {log more : List (Moment g)} {m : Moment g}
    (h : s.Leads more t) : due (log ++ m :: more) = due log ++ m.act.due?.toList := by
  have hNone := h.reads_nothing.2
  simp only [due, List.filterMap_eq_flatMap_toList] at hNone ⊢
  simp [hNone]

namespace Course

/-- Whatever has been asked for is expected or has come. -/
structure Balanced (p : Course g) (log : List (Moment g)) : Prop where
  calls : (p.calls ++ ended log).Perm (called log)
  wakes : (p.wakes ++ due log).Perm (woken log)

namespace Balanced

variable {p : Course g} {log : List (Moment g)}

/-- What has come is no longer expected. -/
theorem settle (h : p.Balanced log) {m : Message g} (hExpected : p.Expects m) :
    ((p.settle m).calls ++ (ended log ++ (Act.read m).ended?.toList)).Perm (called log) ∧
      ((p.settle m).wakes ++ (due log ++ (Act.read m).due?.toList)).Perm (woken log) := by
  have hMoved : ∀ {α : Type} [BEq α] [LawfulBEq α] {x : α} {expected come asked : List α},
      x ∈ expected → (expected ++ come).Perm asked →
        (expected.erase x ++ (come ++ [x])).Perm asked := by
    intro α _ _ x expected come asked hx hPerm
    rw [← List.append_assoc]
    exact (List.perm_append_singleton x _).trans
      (((List.perm_cons_erase hx).symm.append_right come).trans hPerm)
  obtain ⟨hCalls, hWakes⟩ := h
  cases m with
  | command c => simpa [Course.settle, Act.ended?, Act.due?] using ⟨hCalls, hWakes⟩
  | event e =>
    cases e with
    | finished i token outcome =>
      exact ⟨hMoved hExpected hCalls, by simpa [Course.settle, Act.due?] using hWakes⟩
    | retryDue i =>
      exact ⟨by simpa [Course.settle, Act.ended?] using hCalls, hMoved hExpected hWakes⟩

/-- What is asked for is expected from then on. -/
theorem grant {asked : List (Moment g)} (hAsked : p.scheduler.requests = asked.flatMap Moment.asked)
    (hCalls : (p.calls ++ ended (log ++ asked)).Perm (called log))
    (hWakes : (p.wakes ++ due (log ++ asked)).Perm (woken log)) : p.grant.Balanced (log ++ asked) := by
  have hGrown : ∀ {α : Type} {expected come new asked : List α},
      (expected ++ come).Perm asked → (expected ++ new ++ come).Perm (asked ++ new) := by
    intro α expected come new asked hPerm
    have hSwap : (expected ++ new ++ come).Perm (expected ++ come ++ new) := by
      simpa only [List.append_assoc] using List.perm_append_comm.append_left expected
    exact hSwap.trans (hPerm.append_right new)
  constructor
  · rw [called, List.flatMap_append, List.filterMap_append, ← hAsked]
    exact hGrown hCalls
  · rw [woken, List.flatMap_append, List.filterMap_append, ← hAsked]
    exact hGrown hWakes

end Balanced

theorem History.asked (hg : g.Sound) {p : Course g} {log : List (Moment g)} (h : History p log)
    {m : Moment g} (hm : m ∈ log) : m.next.requests = m.scheduler.requests ++ m.asked := by
  obtain ⟨hOpen, hPossible, hCoherent⟩ := h.moments hg hm
  exact (Moment.continues hg hOpen hPossible hCoherent).1

/-- In every run, whatever has been asked for is expected or has come. -/
theorem History.balanced (hg : g.Sound) {p : Course g} {log : List (Moment g)}
    (h : History p log) : p.Balanced log := by
  induction h with
  | start runId workflowId workflowName input vars created now stepTimeout hLeads =>
    rename_i log
    have hNow := History.start runId workflowId workflowName input vars created now stepTimeout hLeads
    have hAsked := hLeads.requests fun m hm => hNow.asked hg hm
    have hNone := congrArg Desk.requests (Scheduler.desk_enter { Scheduler.initial
      (RunState.initial g runId workflowId workflowName input vars created) stepTimeout with now })
    obtain ⟨hEnded, hDue⟩ := hLeads.reads_nothing
    change Balanced _ ([] ++ log)
    refine Balanced.grant (hAsked.trans ?_) ?_ ?_
    · exact (congrArg (· ++ _) hNone).trans (List.nil_append _)
    · simp [hEnded, called]
    · simp [hDue, woken]
  | conclude _ _ _ ih => exact ⟨ih.calls, ih.wakes⟩
  | read hBefore m now hOpen hMore hExpected hLeads ih =>
    rename_i p log more
    have hNow := hBefore.read m now hOpen hMore hExpected hLeads
    have hFirst := hNow.asked hg (m := ⟨{ p.scheduler with now }, .read m⟩) (by simp)
    have hAsked := hLeads.requests fun r hr => hNow.asked hg (by simp [hr])
    have hNone := hBefore.reached.requests_eq
    obtain ⟨hCalls, hWakes⟩ := ih.settle hExpected
    refine Balanced.grant (hAsked.trans ?_) ?_ ?_
    · exact congrArg (· ++ _) (hFirst.trans ((congrArg (· ++ _) hNone).trans (List.nil_append _)))
    · rw [ended_read hLeads]
      exact hCalls
    · rw [due_read hLeads]
      exact hWakes

/-- The calls of a run are numbered in the order in which they have been asked for, and what is no
longer waited for never is again. -/
structure Numbered (log : List (Moment g)) (s : Scheduler g) : Prop where
  continues : ∃ s₀ : Scheduler g, s₀.lastToken = 0 ∧ (∀ i, (s₀.controlOf i).call = none) ∧
    s₀.Continues s (log.flatMap Moment.asked)
  dropped : ∀ m ∈ log, ∀ i token, m.Drops i token →
    token ≤ s.lastToken ∧ (s.controlOf i).call ≠ some token
  apart : log.Pairwise fun m r => ∀ i token, m.Drops i token →
    (r.scheduler.controlOf i).call ≠ some token

namespace Numbered

variable {log : List (Moment g)} {s : Scheduler g}

theorem tokens (h : Numbered log s) : (called log).map Prod.snd = List.range' 1 s.lastToken := by
  obtain ⟨s₀, hZero, -, hContinues⟩ := h.continues
  simpa [called, hZero] using hContinues.tokens

theorem awaited (h : Numbered log s) {i : g.Index} {token : Nat}
    (hCall : (s.controlOf i).call = some token) : token ≤ s.lastToken := by
  obtain ⟨s₀, -, hNone, hContinues⟩ := h.continues
  rcases hContinues.calls i token hCall with hOld | hNew
  · rw [hNone] at hOld
    cases hOld
  · exact hNew.2

theorem of_control (h : Numbered log s) {s' : Scheduler g} (hToken : s'.lastToken = s.lastToken)
    (hControl : ∀ i, s'.controlOf i = s.controlOf i) : Numbered log s' where
  continues := by
    obtain ⟨s₀, hZero, hNone, hContinues⟩ := h.continues
    refine ⟨s₀, hZero, hNone, ?_⟩
    rw [← List.append_nil (log.flatMap Moment.asked)]
    exact hContinues.trans (.of_calls hToken fun i token hCall => hControl i ▸ hCall)
  dropped m hm i token hDrops := by
    rw [hToken, hControl]
    exact h.dropped m hm i token hDrops
  apart := h.apart

/-- An act waits again for nothing that has been dropped before, because calls that are new have new
tokens. -/
theorem snoc (h : Numbered log s) {act : Act g} (hContinues : s.Continues (act.apply s)
    (Moment.asked ⟨s, act⟩)) : Numbered (log ++ [⟨s, act⟩]) (act.apply s) := by
  have hLater := hContinues.later
  refine ⟨?_, fun m hm i token hDrops => ?_, ?_⟩
  · obtain ⟨s₀, hZero, hNone, hBefore⟩ := h.continues
    refine ⟨s₀, hZero, hNone, ?_⟩
    simpa using hBefore.trans hContinues
  · rcases List.mem_append.mp hm with hm | hm
    · obtain ⟨hOld, hNot⟩ := h.dropped m hm i token hDrops
      refine ⟨hOld.trans hLater, fun hCall => ?_⟩
      rcases hContinues.calls i token hCall with hBefore | hNew
      · exact hNot hBefore
      · omega
    · obtain rfl := List.mem_singleton.mp hm
      exact ⟨(h.awaited hDrops.1).trans hLater, hDrops.2⟩
  · refine List.pairwise_append.mpr ⟨h.apart, List.pairwise_singleton _ _, ?_⟩
    intro m hm r hr i token hDrops
    rw [List.mem_singleton.mp hr]
    exact (h.dropped m hm i token hDrops).2

end Numbered

theorem History.numbered (hg : g.Sound) {p : Course g} {log : List (Moment g)}
    (h : History p log) : Numbered log p.scheduler := by
  refine (History.induction hg (P := Numbered) ?_ ?_ ?_ ?_ h).of_control rfl fun _ => rfl
  · intro s hFresh
    have hNone : ∀ i, (s.enter.controlOf i).call = none := fun i =>
      congrArg Slot.call (Scheduler.slot_enter hg hFresh i)
    refine ⟨⟨s.enter, ?_, hNone, .of_calls rfl fun _ _ h => h⟩, ?_, List.Pairwise.nil⟩
    · obtain ⟨_, _, _, _, _, _, _, _, rfl⟩ := hFresh
      exact congrArg Shell.lastToken (Scheduler.shell_enter _)
    · exact fun m hm => absurd hm List.not_mem_nil
  · intro log s act hOpen hPossible hCoherent hBefore
    exact hBefore.snoc (Moment.continues (m := ⟨s, act⟩) hg hOpen hPossible hCoherent).2
  · intro log s _ hBefore
    have hToken : s.conclude.lastToken = s.lastToken :=
      Scheduler.conclude_keeps (fun s => s.lastToken) (fun _ _ => rfl) (fun _ _ _ => rfl) s
    exact hBefore.of_control hToken fun i => congrArg Prod.snd (s.record_conclude i)
  · exact fun _ _ _ hBefore => hBefore.of_control rfl fun _ => rfl

/-! ## Retries to come -/

/-- Every step that waits for a retry is told when it is due. -/
def Timed (wakes : List g.Index) (s : Scheduler g) : Prop :=
  ∀ i, (s.controlOf i).waiting = true → i ∈ wakes ++ s.board.timed

namespace Timed

variable {wakes : List g.Index} {s s' : Scheduler g}

theorem move (hg : g.Sound) {hand hand' : Hand g} (hMove : Scheduler.Move hand s hand' s')
    (hCoherent : s.board.Coherent hand) (h : Timed wakes s) : Timed wakes s' := by
  intro i hWaiting
  obtain ⟨more, hRequests, -⟩ := hMove.continues hg hCoherent
  have hTimed : s'.board.timed = s.board.timed ++ more.filterMap Request.wake? :=
    (congrArg (List.filterMap Request.wake?) hRequests).trans List.filterMap_append
  rcases Board.waiting_rule hg (hMove.rule hg) hCoherent hWaiting with hBefore | hNew
  · rw [hTimed, ← List.append_assoc]
    exact List.mem_append_left _ (h i hBefore)
  · exact List.mem_append_right _ hNew

/-- A retry that has become due is no longer waited for. -/
theorem receives {p : Course g} {m : Message g} {hand : Hand g}
    (hReceives : Scheduler.Receives s m hand s') (hNone : s.requests = [])
    (h : Timed p.wakes s) : Timed (p.settle m).wakes s' := by
  intro i hWaiting
  have hBefore : ∀ i, (s.controlOf i).waiting = true → i ∈ p.wakes := by
    intro i hWaiting
    simpa [Board.timed, Scheduler.board, hNone] using h i hWaiting
  refine List.mem_append_left _ ?_
  cases hReceives with
  | command =>
    rename_i c
    refine hBefore i ?_
    rw [show s.controlOf i = _ from (congrArg Prod.snd (s.record_obey i c)).symm]
    exact hWaiting
  | stale => exact hBefore i hWaiting
  | ended =>
    refine hBefore i ?_
    rw [Scheduler.controlOf_mapControl] at hWaiting
    split at hWaiting
    · rename_i hSame
      exact hSame ▸ hWaiting
    · exact hWaiting
  | early hNot =>
    rename_i k
    refine (List.mem_erase_of_ne ?_).mpr (hBefore i hWaiting)
    rintro rfl
    exact absurd (hWaiting.symm.trans hNot) (by simp)
  | due =>
    rename_i k _
    rw [Scheduler.controlOf_setStatus, Scheduler.controlOf_mapControl] at hWaiting
    split at hWaiting
    · cases hWaiting
    · rename_i hNe
      exact (List.mem_erase_of_ne (Ne.symm hNe)).mpr (hBefore i hWaiting)

theorem grant {p : Course g} (h : Timed p.wakes p.scheduler) :
    Timed p.grant.wakes p.grant.scheduler := by
  intro i hWaiting
  exact List.mem_append_left _ (h i hWaiting)

end Timed

/-- Between two turns every step that waits for a retry is told when it is due. -/
theorem Reaches.timed (hg : g.Sound) {ok : Scheduler g → Prop} {p : Course g}
    (hReach : Reaches ok p) : Timed p.wakes p.scheduler := by
  refine hReach.expecting hg (P := fun _ => Timed) ?_
    (fun _ _ _ _ _ _ hMove hCoherent h => h.move hg hMove hCoherent)
    (fun _ _ _ _ _ _ hNone hReceives h => h.receives hReceives hNone) (fun _ h => h.grant)
    (fun _ _ _ _ h => h) ?_
  · intro s hFresh i hWaiting
    have hNot := congrArg Slot.waiting (Scheduler.slot_enter hg hFresh i)
    exact absurd (hWaiting.symm.trans hNot) (by simp [Slot.initial])
  · intro _ wakes s h i hWaiting
    have hSame : s.conclude.controlOf i = s.controlOf i := congrArg Prod.snd (s.record_conclude i)
    have hTimed : s.conclude.board.timed = s.board.timed :=
      congrArg (List.filterMap Request.wake?) s.requests_conclude
    rw [hTimed]
    exact h i (hSame ▸ hWaiting)

/-! ## Tokens -/

/-- No two of the calls that are expected have the same token. -/
theorem Reached.tokens_nodup (hg : g.Sound) {p : Course g} (h : Reached p) :
    (p.calls.map Prod.snd).Nodup := by
  obtain ⟨log, hHistory⟩ := reached_iff_history.mp h
  have hAll : ((called log).map Prod.snd).Nodup := by
    rw [(hHistory.numbered hg).tokens]
    exact List.nodup_range'
  have hBoth := (((hHistory.balanced hg).calls.map Prod.snd).nodup_iff).mpr hAll
  rw [List.map_append] at hBoth
  exact hBoth.of_append_left

/-! ## The account of a run -/

end Course

end Workflow

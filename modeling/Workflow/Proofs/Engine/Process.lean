/-
Workflow.Proofs.Engine.Process — a run in progress, step by step.

Beside its scheduler a run in progress has workers, which make the calls,
and retries to come. All of them go on by themselves: commands may arrive,
permits be asked for, and calls be made and come to an end at any time and
in any order. What the scheduler reads is then always something that it
has asked for and still expects.

* `Process.Step`, `Process.Enters` — one step; a worker makes its call.
* `Process.StepAt`, `Process.Beats` — one step at a time; some steps, as time
  goes by.
* `Process.Reached` — what a run can come to under a limit on concurrent
  steps.
* `Process.Alike`, `Proceeds` — what happens beside the scheduler, and a step
  by what it does to the scheduler.
* `Process.Covers`, `TrackedBy`, `Reached.tracked` — the scheduler of a run
  in progress goes through the turns of a course.
* `Reached.tokens` — the workers have different tokens.
-/
import Workflow.Engine.World
import Workflow.Proofs.Run.Requests

namespace Workflow

/-- Whether the call of a worker is made at all. A limit beyond what a clock can tell is the end of
the worker. -/
def Worker.CanCall {g : Graph} (w : Worker g) : Prop :=
  (w.limit.any fun d => World.limitBound ≤ d.seconds) = false

instance {g : Graph} (w : Worker g) : Decidable w.CanCall :=
  inferInstanceAs (Decidable (_ = false))

/-- The call of a worker. -/
def Worker.key {g : Graph} (w : Worker g) : g.Index × Nat := (w.step, w.token)

/-- The call whose end a message tells of. -/
def Message.call? {g : Graph} : Message g → Option (g.Index × Nat)
  | .event (.finished i token _) => some (i, token)
  | .event (.retryDue _) | .command _ => none

/-- The retry that a message says is due. -/
def Message.wake? {g : Graph} : Message g → Option g.Index
  | .event (.retryDue i) => some i
  | .event (.finished ..) | .command _ => none

/-- A message that tells of no retry may come. -/
theorem told_snoc {g : Graph} (inbox : List (Message g)) {m : Message g} (h : m.wake? = none) :
    (inbox ++ [m]).filterMap Message.wake? = inbox.filterMap Message.wake? := by
  simp [h]

/-- A run is through after a look if all steps are, or if it is stuck, or if it was. -/
theorem Scheduler.isFinal_conclude {g : Graph} (s : Scheduler g) :
    s.conclude.state.isFinal = (s.unfinishedSteps.isEmpty || s.isStuck || s.state.isFinal) := by
  unfold conclude
  dsimp only
  split
  · rename_i hEmpty
    rw [hEmpty]
    rfl
  · rename_i hSome
    rw [Bool.not_eq_true] at hSome
    rw [hSome]
    split
    · rename_i hStuck
      rw [hStuck]
      rfl
    · rename_i hActive
      rw [Bool.not_eq_true] at hActive
      rw [hActive]
      rfl

namespace Process

/-- After the scheduler has gone on: what it has asked for is done, and it is lost if it has
crashed. -/
def follow (p : Process) (time : Nat) : Process :=
  if (p.grant time).1.scheduler.crashed then { (p.grant time).1 with phase := .lost }
  else (p.grant time).1

/-- The worker with a token makes its call. -/
inductive Enters (token : Nat) (p : Process) : Process → Prop
  | intro {w : Worker p.graph} {wake : Nat} {call : OpenCall} (hWorker : p.worker? token = some w)
      (hStage : w.stage = .admitted) (hLimit : w.CanCall) :
      Enters token p (p.setStage token (.asleep wake call))

/-- One step of a run in progress. -/
inductive Step (p : Process) : Process → Prop
  | command (c : Command) : Step p (p.send (.command c))
  | launch (now : Instant) (time : Nat) (hFresh : p.phase = .fresh) :
      Step p ((p.launch now).follow time)
  | conclude (now : Instant) (hLive : p.phase = .live) (hOpen : p.isFinal = false) :
      Step p (p.conclude now)
  | read {m : Message p.graph} {rest : List (Message p.graph)} (now : Instant) (time : Nat)
      (hLive : p.phase = .live) (hOpen : p.isFinal = false)
      (hMore : (p.conclude now).isFinal = false) (hInbox : p.inbox = m :: rest) :
      Step p ((p.readMessage now).follow time)
  | close (hLive : p.phase = .live) (hFinal : p.isFinal = true) : Step p { p with phase := .ended }
  | lose (hBegun : p.phase ≠ .fresh) : Step p { p with phase := .lost }
  | inform (published : Snapshot) (known : Bool) : Step p { p with published, known }
  | retry (step now : Nat) : Step p (p.deliverRetry step now)
  | acquire {token : Nat} {w : Worker p.graph} (hWorker : p.worker? token = some w)
      (hStage : w.stage = .fresh) : Step p (p.acquire token)
  | enter {token : Nat} {q : Process} (h : Enters token p q) : Step p q
  | giveUp {token : Nat} {w : Worker p.graph} (hWorker : p.worker? token = some w)
      (hStage : w.stage = .admitted) (hLimit : ¬ w.CanCall) :
      Step p (p.dropWorker token).release.1
  | goOn {token : Nat} {w : Worker p.graph} {stage : Stage} {call : OpenCall}
      (hWorker : p.worker? token = some w) (hOpen : w.stage.call? = some call)
      (hStage : stage.call? = some call) : Step p (p.setStage token stage)
  | finish {token : Nat} {w : Worker p.graph} {call : OpenCall} (outcome : Outcome)
      (hWorker : p.worker? token = some w) (hOpen : w.stage.call? = some call) :
      Step p (p.endCall token outcome).release.1

/-- A step of a run in progress beside its scheduler and its retries. -/
inductive Aside (p : Process) : Process → Prop
  | command (c : Command) : Aside p (p.send (.command c))
  | close (hLive : p.phase = .live) (hFinal : p.isFinal = true) : Aside p { p with phase := .ended }
  | lose (hBegun : p.phase ≠ .fresh) : Aside p { p with phase := .lost }
  | retire (known : Bool) : Aside p { p with known }
  | acquire {token : Nat} {w : Worker p.graph} (hWorker : p.worker? token = some w)
      (hStage : w.stage = .fresh) : Aside p (p.acquire token)
  | enter {token : Nat} {q : Process} (h : Enters token p q) : Aside p q
  | giveUp {token : Nat} {w : Worker p.graph} (hWorker : p.worker? token = some w)
      (hStage : w.stage = .admitted) (hLimit : ¬ w.CanCall) :
      Aside p (p.dropWorker token).release.1
  | goOn {token : Nat} {w : Worker p.graph} {stage : Stage} {call : OpenCall}
      (hWorker : p.worker? token = some w) (hOpen : w.stage.call? = some call)
      (hStage : stage.call? = some call) : Aside p (p.setStage token stage)
  | finish {token : Nat} {w : Worker p.graph} {call : OpenCall} (outcome : Outcome)
      (hWorker : p.worker? token = some w) (hOpen : w.stage.call? = some call) :
      Aside p (p.endCall token outcome).release.1

/-- One step of a run in progress at a time: the scheduler takes it for the present, no retry comes
before it is due, and readers are shown the run as it stands. -/
inductive StepAt (now : Instant) (time : Nat) (p : Process) : Process → Prop
  | aside {q : Process} (h : Aside p q) : StepAt now time p q
  | launch (hFresh : p.phase = .fresh) : StepAt now time p ((p.launch now).follow time)
  | conclude (hLive : p.phase = .live) (hOpen : p.isFinal = false) :
      StepAt now time p (p.conclude now)
  | read {m : Message p.graph} {rest : List (Message p.graph)} (hLive : p.phase = .live)
      (hOpen : p.isFinal = false) (hMore : (p.conclude now).isFinal = false)
      (hInbox : p.inbox = m :: rest) : StepAt now time p ((p.readMessage now).follow time)
  | publish : StepAt now time p { p with published := p.snapshot now }
  | retry (step : Nat) : StepAt now time p (p.deliverRetry step time)

theorem Aside.step {p q : Process} (h : Aside p q) : Step p q := by
  cases h with
  | command c => exact .command c
  | close hLive hFinal => exact .close hLive hFinal
  | lose hBegun => exact .lose hBegun
  | retire known => exact .inform p.published known
  | acquire hWorker hStage => exact .acquire hWorker hStage
  | enter hEnters => exact .enter hEnters
  | giveUp hWorker hStage hLimit => exact .giveUp hWorker hStage hLimit
  | goOn hWorker hOpen hStage => exact .goOn hWorker hOpen hStage
  | finish outcome hWorker hOpen => exact .finish outcome hWorker hOpen

/-- What happens at a time happens. -/
theorem StepAt.step {p q : Process} {now : Instant} {time : Nat} (h : StepAt now time p q) :
    Step p q := by
  cases h with
  | aside h => exact h.step
  | launch hFresh => exact .launch now time hFresh
  | conclude hLive hOpen => exact .conclude now hLive hOpen
  | read hLive hOpen hMore hInbox => exact .read now time hLive hOpen hMore hInbox
  | publish => exact .inform _ p.known
  | retry step => exact .retry step time

/-- Every step happens at some time, but for what readers are shown. -/
theorem Step.stepAt {p q : Process} (h : Step p q) :
    (∃ now time, StepAt now time p q) ∨ ∃ published known, q = { p with published, known } := by
  cases h with
  | command c => exact .inl ⟨p.scheduler.now, 0, .aside (.command c)⟩
  | launch now time hFresh => exact .inl ⟨now, time, .launch hFresh⟩
  | conclude now hLive hOpen => exact .inl ⟨now, 0, .conclude hLive hOpen⟩
  | read now time hLive hOpen hMore hInbox =>
    exact .inl ⟨now, time, .read hLive hOpen hMore hInbox⟩
  | close hLive hFinal => exact .inl ⟨p.scheduler.now, 0, .aside (.close hLive hFinal)⟩
  | lose hBegun => exact .inl ⟨p.scheduler.now, 0, .aside (.lose hBegun)⟩
  | inform published known => exact .inr ⟨published, known, rfl⟩
  | retry step now => exact .inl ⟨p.scheduler.now, now, .retry step⟩
  | acquire hWorker hStage => exact .inl ⟨p.scheduler.now, 0, .aside (.acquire hWorker hStage)⟩
  | enter hEnters => exact .inl ⟨p.scheduler.now, 0, .aside (.enter hEnters)⟩
  | giveUp hWorker hStage hLimit =>
    exact .inl ⟨p.scheduler.now, 0, .aside (.giveUp hWorker hStage hLimit)⟩
  | goOn hWorker hOpen hStage =>
    exact .inl ⟨p.scheduler.now, 0, .aside (.goOn hWorker hOpen hStage)⟩
  | finish outcome hWorker hOpen =>
    exact .inl ⟨p.scheduler.now, 0, .aside (.finish outcome hWorker hOpen)⟩

/-- Some steps of a run in progress. -/
abbrev Steps : Process → Process → Prop := Relation.ReflTransGen Step

/-- A step is taken at the time that the clock shows, or the clock goes on. -/
inductive Beat (epoch : Instant) : Nat × Process → Nat × Process → Prop
  | step {time : Nat} {p q : Process} (h : StepAt (epoch.addMillis time) time p q) :
      Beat epoch (time, p) (time, q)
  | wait {time later : Nat} {p : Process} (h : time ≤ later) : Beat epoch (time, p) (later, p)

/-- Some steps, and the times at which they are taken. -/
abbrev Beats (epoch : Instant) : Nat × Process → Nat × Process → Prop :=
  Relation.ReflTransGen (Beat epoch)

/-- What happens in time happens. -/
theorem Beats.steps {epoch : Instant} {x y : Nat × Process} (h : Beats epoch x y) :
    Steps x.2 y.2 := by
  induction h with
  | refl => exact .refl
  | tail _ hLast ih =>
    cases hLast with
    | step hStep => exact ih.tail hStep.step
    | wait => exact ih

/-- What a run of a graph can come to under a limit on concurrent steps. -/
inductive Reached (g : Graph) (limit : Nat) : Process → Prop
  | start (runId workflowId workflowName : String) (input : Json) (vars : Dict Json)
      (created : Instant) (stepTimeout : Option Duration) :
      Reached g limit (Process.initial g (Scheduler.initial
        (RunState.initial g runId workflowId workflowName input vars created) stepTimeout) limit)
  | step {p q : Process} (hBefore : Reached g limit p) (hStep : Step p q) : Reached g limit q

theorem Reached.steps {g : Graph} {limit : Nat} {p q : Process} (h : Reached g limit p)
    (hSteps : Steps p q) : Reached g limit q := by
  induction hSteps with
  | refl => exact h
  | tail _ hStep ih => exact ih.step hStep

/-! ## Beside the scheduler -/

/-- A run after something has happened beside its scheduler: it is the same but for its inbox, its
workers with their permits, and the retries to come. -/
inductive Alike (p : Process) : Process → Prop
  | intro (inbox : List (Message p.graph)) (workers : List (Worker p.graph)) (free : Nat)
      (line : List Nat) (retries : List (p.graph.Index × Nat)) :
      Alike p { p with inbox, workers, free, line, retries }

section

variable (p : Process)

theorem Alike.refl : p.Alike p := .intro p.inbox p.workers p.free p.line p.retries

theorem Alike.trans {p q r : Process} (h : p.Alike q) (hNext : q.Alike r) : p.Alike r := by
  cases h
  cases hNext
  exact .intro ..

theorem alike_setStage (token : Nat) (stage : Stage) : p.Alike (p.setStage token stage) :=
  .intro p.inbox _ p.free p.line p.retries

theorem alike_dropWorker (token : Nat) : p.Alike (p.dropWorker token) :=
  .intro p.inbox _ p.free p.line p.retries

/-- Only the inbox changes when something is put into it. -/
theorem exists_send_eq (m : Message p.graph) : ∃ inbox, p.send m = { p with inbox } := by
  unfold send
  split
  · exact ⟨_, rfl⟩
  · exact ⟨p.inbox, rfl⟩

/-- Only the inbox and the retries change when a retry is due. -/
theorem exists_deliverRetry_eq (step now : Nat) :
    ∃ inbox retries, p.deliverRetry step now = { p with inbox, retries } := by
  unfold deliverRetry
  split
  · exact ⟨p.inbox, p.retries, rfl⟩
  · rename_i i due _
    obtain ⟨inbox, hSend⟩ :=
      exists_send_eq { p with retries := p.retries.erase (i, due) } (.event (.retryDue i))
    exact ⟨inbox, _, hSend⟩

theorem alike_send (m : Message p.graph) : p.Alike (p.send m) := by
  obtain ⟨inbox, hSend⟩ := p.exists_send_eq m
  exact hSend ▸ .intro inbox p.workers p.free p.line p.retries

theorem alike_acquire (token : Nat) : p.Alike (p.acquire token) := by
  unfold acquire
  split
  · exact .intro p.inbox _ _ p.line p.retries
  · exact .intro p.inbox _ p.free _ p.retries

theorem alike_release : p.Alike p.release.1 := by
  unfold release
  split
  · exact .intro p.inbox p.workers _ p.line p.retries
  · exact .intro p.inbox _ p.free _ p.retries

theorem alike_endCall (token : Nat) (outcome : Outcome) : p.Alike (p.endCall token outcome) := by
  unfold endCall
  split
  · exact .refl p
  · exact (p.alike_dropWorker token).trans (alike_send _ _)

theorem alike_deliverRetry (step now : Nat) : p.Alike (p.deliverRetry step now) := by
  obtain ⟨inbox, retries, hDeliver⟩ := p.exists_deliverRetry_eq step now
  exact hDeliver ▸ .intro inbox p.workers p.free p.line retries

end

theorem Alike.graph_eq {p q : Process} (h : p.Alike q) : q.graph = p.graph := by
  cases h
  rfl

/-- A step of a run by what it does to the scheduler and to what readers are shown; all else happens
beside these. -/
inductive Proceeds (p : Process) : Process → Prop
  | beside {q : Process} (h : p.Alike q) : Proceeds p q
  | launch (now : Instant) (time : Nat) (hFresh : p.phase = .fresh) :
      Proceeds p ((p.launch now).follow time)
  | conclude (now : Instant) (hLive : p.phase = .live) (hOpen : p.isFinal = false) :
      Proceeds p (p.conclude now)
  | read {m : Message p.graph} {rest : List (Message p.graph)} (now : Instant) (time : Nat)
      (hLive : p.phase = .live) (hOpen : p.isFinal = false) (hInbox : p.inbox = m :: rest) :
      Proceeds p ((p.readMessage now).follow time)
  | close (hFinal : p.isFinal = true) : Proceeds p { p with phase := .ended }
  | lose : Proceeds p { p with phase := .lost }
  | inform (published : Snapshot) (known : Bool) : Proceeds p { p with published, known }

theorem Step.proceeds {p q : Process} (h : Step p q) : p.Proceeds q := by
  cases h with
  | command => exact .beside (p.alike_send _)
  | launch now time hFresh => exact .launch now time hFresh
  | conclude now hLive hOpen => exact .conclude now hLive hOpen
  | read now time hLive hOpen _ hInbox => exact .read now time hLive hOpen hInbox
  | close _ hFinal => exact .close hFinal
  | lose => exact .lose
  | inform published known => exact .inform published known
  | retry step now => exact .beside (p.alike_deliverRetry step now)
  | acquire => exact .beside (p.alike_acquire _)
  | enter hEnters =>
    cases hEnters
    exact .beside (p.alike_setStage _ _)
  | giveUp => exact .beside ((p.alike_dropWorker _).trans (alike_release _))
  | goOn => exact .beside (p.alike_setStage _ _)
  | finish outcome => exact .beside ((p.alike_endCall _ outcome).trans (alike_release _))

/-! ## The course of a run in progress -/

section Covers

variable {g : Graph}

/-- A course covers a run in progress: it has the same scheduler, and all calls that are under way or
whose end is in the inbox are expected, as are all retries to come or in the inbox. -/
structure Covers (c : Course g) (s : Scheduler g) (workers : List (Worker g))
    (inbox : List (Message g)) (retries : List (g.Index × Nat)) : Prop where
  scheduler : s = c.scheduler
  calls : (workers.map Worker.key ++ inbox.filterMap Message.call?).Subperm c.calls
  wakes : (retries.map Prod.fst ++ inbox.filterMap Message.wake?).Subperm c.wakes

theorem newWorkers_key (requests : List (Request g)) :
    (newWorkers requests).map Worker.key = requests.filterMap Request.call? := by
  unfold newWorkers
  rw [List.map_filterMap]
  congr 1
  funext r
  cases r <;> rfl

theorem newRetries_fst (now : Nat) (requests : List (Request g)) :
    (newRetries now requests).map Prod.fst = requests.filterMap Request.wake? := by
  unfold newRetries
  rw [List.map_filterMap]
  congr 1
  funext r
  cases r <;> rfl

/-- What is added beside a list stays beside a longer one. -/
theorem subperm_append_new {α : Type} {old more expected new : List α}
    (h : (old ++ more).Subperm expected) : (old ++ new ++ more).Subperm (expected ++ new) := by
  have hMoved : (old ++ new ++ more).Perm (old ++ more ++ new) := by
    rw [List.append_assoc, List.append_assoc]
    exact .append_left _ List.perm_append_comm
  exact hMoved.subperm.trans ((List.subperm_append_right new).mpr h)

/-- What is taken out of a list is taken out of a longer one. -/
theorem subperm_erase_middle {α : Type} [BEq α] [LawfulBEq α] {x : α} {front back expected : List α}
    (h : (front ++ x :: back).Subperm expected) : (front ++ back).Subperm (expected.erase x) := by
  have hFirst : (x :: (front ++ back)).Subperm expected := List.perm_middle.symm.subperm.trans h
  simpa using hFirst.erase x

namespace Covers

variable {c : Course g} {s : Scheduler g} {workers : List (Worker g)} {inbox : List (Message g)}
  {retries : List (g.Index × Nat)}

/-- What a scheduler asks for is expected from then on. -/
theorem grant (h : Covers c s workers inbox retries) (time : Nat) :
    Covers c.grant { s with requests := [] } (workers ++ newWorkers s.requests) inbox
      (retries ++ newRetries time s.requests) where
  scheduler := by rw [h.scheduler]; rfl
  calls := by
    rw [List.map_append, newWorkers_key, h.scheduler]
    exact subperm_append_new h.calls
  wakes := by
    rw [List.map_append, newRetries_fst, h.scheduler]
    exact subperm_append_new h.wakes

/-- What the scheduler finds in its inbox is expected. -/
theorem expects {m : Message g} {rest : List (Message g)}
    (h : Covers c s workers (m :: rest) retries) : c.Expects m := by
  cases m with
  | command => trivial
  | event e =>
    cases e with
    | finished i token outcome => exact h.calls.subset (by simp [Message.call?])
    | retryDue i => exact h.wakes.subset (by simp [Message.wake?])

/-- What has been read is no longer expected. -/
theorem settle {m : Message g} {rest : List (Message g)}
    (h : Covers c s workers (m :: rest) retries) :
    Covers (c.settle m) s workers rest retries := by
  refine ⟨h.scheduler.trans ?_, ?_, ?_⟩
  · cases m with
    | command => rfl
    | event e => cases e <;> rfl
  · cases m with
    | command => exact h.calls
    | event e =>
      cases e with
      | finished i token outcome => exact subperm_erase_middle h.calls
      | retryDue i => exact h.calls
  · cases m with
    | command => exact h.wakes
    | event e =>
      cases e with
      | finished i token outcome => exact h.wakes
      | retryDue i => exact subperm_erase_middle h.wakes

theorem mono {workers' : List (Worker g)} {retries' : List (g.Index × Nat)}
    (h : Covers c s workers inbox retries)
    (hWorkers : (workers'.map Worker.key).Sublist (workers.map Worker.key))
    (hRetries : retries'.Sublist retries) : Covers c s workers' inbox retries' where
  scheduler := h.scheduler
  calls := (hWorkers.append_right _).subperm.trans h.calls
  wakes := ((hRetries.map _).append_right _).subperm.trans h.wakes

theorem command (h : Covers c s workers inbox retries) (command : Command) :
    Covers c s workers (inbox ++ [.command command]) retries where
  scheduler := h.scheduler
  calls := by simpa [List.filterMap_cons, Message.call?] using h.calls
  wakes := by simpa [List.filterMap_cons, Message.wake?] using h.wakes

/-- A worker whose call has come to an end goes, and its message comes. -/
theorem finish (h : Covers c s workers inbox retries) {w : Worker g} (hw : w ∈ workers)
    (outcome : Outcome) :
    Covers c s (workers.filter fun v => v.token ≠ w.token)
      (inbox ++ [.event (.finished w.step w.token outcome)]) retries where
  scheduler := h.scheduler
  calls := by
    have hGone : (w :: workers.filter fun v => v.token ≠ w.token).Subperm workers := by
      have hSplit := List.perm_cons_erase hw
      refine List.Subperm.trans ?_ hSplit.symm.subperm
      have hRest := hSplit.filter fun v => decide (v.token ≠ w.token)
      rw [List.filter_cons_of_neg (by simp)] at hRest
      exact (List.subperm_cons w).mpr (hRest.subperm.trans List.filter_sublist.subperm)
    have hKeys : (w.key :: (workers.filter fun v => v.token ≠ w.token).map Worker.key).Subperm
        (workers.map Worker.key) := by
      obtain ⟨kept, hPerm, hSub⟩ := hGone
      exact ⟨kept.map Worker.key, hPerm.map Worker.key, hSub.map Worker.key⟩
    refine List.Subperm.trans ?_ (((List.subperm_append_right _).mpr hKeys).trans h.calls)
    rw [List.filterMap_append, ← List.append_assoc]
    exact (List.perm_append_singleton _ _).subperm
  wakes := by simpa [List.filterMap_cons, Message.wake?] using h.wakes

/-- A retry that is due goes, and its message comes. -/
theorem retry (h : Covers c s workers inbox retries) {i : g.Index} {due : Nat}
    (hDue : (i, due) ∈ retries) :
    Covers c s workers (inbox ++ [.event (.retryDue i)]) (retries.erase (i, due)) where
  scheduler := h.scheduler
  calls := by simpa [List.filterMap_cons, Message.call?] using h.calls
  wakes := by
    have hSplit := (List.perm_cons_erase hDue).map Prod.fst
    refine List.Subperm.trans ?_ (((List.subperm_append_right _).mpr hSplit.symm.subperm).trans h.wakes)
    rw [List.filterMap_append, ← List.append_assoc]
    exact (List.perm_append_singleton _ _).subperm

end Covers

end Covers

/-- Before a run begins nothing is under way; from then on a course covers it, whose scheduler has
not crashed as long as it is live. The course fits the retries to come and those that are told of in
the inbox. -/
inductive TrackedBy
    (Fits : (g : Graph) → Course g → List (g.Index × Nat) → List g.Index → Prop) (p : Process) : Prop
  | fresh (hFresh : p.phase = .fresh) (hStart : ∃ runId workflowId workflowName input vars created
        stepTimeout, p.scheduler = Scheduler.initial
          (RunState.initial p.graph runId workflowId workflowName input vars created) stepTimeout)
      (hWorkers : p.workers = []) (hRetries : p.retries = [])
      (hInbox : ∀ m ∈ p.inbox, ∃ c, m = .command c)
  | begun (hBegun : p.phase ≠ .fresh) (hSound : p.phase = .live → p.scheduler.crashed = false)
      (c : Course p.graph) (hFits : Fits p.graph c p.retries (p.inbox.filterMap Message.wake?))
      (hCovers : Covers c p.scheduler p.workers p.inbox p.retries)

/-- A way to fit that lasts, whatever happens at a time. -/
structure Lasts (Fits : (g : Graph) → Course g → List (g.Index × Nat) → List g.Index → Prop)
    (now : Instant) (time : Nat) : Prop where
  start (g : Graph) (runId workflowId workflowName : String) (input : Json) (vars : Dict Json)
    (created : Instant) (stepTimeout : Option Duration) :
    Fits g (Course.start (Scheduler.initial
      (RunState.initial g runId workflowId workflowName input vars created) stepTimeout) now)
      (newRetries time (Course.start (Scheduler.initial
        (RunState.initial g runId workflowId workflowName input vars created) stepTimeout) now).asked)
      []
  conclude {g : Graph} {c : Course g} {retries : List (g.Index × Nat)} {told : List g.Index}
    (h : Fits g c retries told) (hOpen : c.scheduler.isOver = false) :
    Fits g (c.conclude now) retries told
  read {g : Graph} {c : Course g} {retries : List (g.Index × Nat)} {told : List g.Index}
    {m : Message g} (h : Fits g c retries (m.wake?.toList ++ told))
    (hOpen : c.scheduler.isOver = false) (hMore : c.scheduler.conclude.state.isFinal = false)
    (hExpected : c.Expects m) :
    Fits g (c.read m now) (retries ++ newRetries time (c.read m now).asked) told
  due {g : Graph} {c : Course g} {retries : List (g.Index × Nat)} {told : List g.Index}
    {i : g.Index} {due : Nat} (h : Fits g c retries told) (hMem : (i, due) ∈ retries)
    (hDue : due ≤ time) : Fits g c (retries.erase (i, due)) (told ++ [i])
  dropped {g : Graph} {c : Course g} {retries : List (g.Index × Nat)} {told : List g.Index}
    (h : Fits g c retries told) (retry : g.Index × Nat) : Fits g c (retries.erase retry) told

/-- A course that covers a run is something that a run can come to. -/
abbrev Tracked (p : Process) : Prop := TrackedBy (fun _ c _ _ => Course.Reached c) p

theorem lasts_reached (now : Instant) (time : Nat) :
    Lasts (fun _ c _ _ => Course.Reached c) now time where
  start _ runId workflowId workflowName input vars created stepTimeout :=
    .start runId workflowId workflowName input vars created now stepTimeout trivial
  conclude h hOpen := h.turn (.conclude now hOpen) trivial
  read h hOpen hMore hExpected := h.turn (.read _ now hOpen hMore hExpected) trivial
  due h _ _ := h
  dropped h _ := h

theorem readMessage_of_inbox {p : Process} {m : Message p.graph} {rest : List (Message p.graph)}
    (h : p.inbox = m :: rest) (now : Instant) :
    p.readMessage now = { p with
      inbox := rest
      scheduler := Process.handle { p.scheduler with now } m } := by
  unfold readMessage
  rw [h]

namespace TrackedBy

variable {Fits Fits' : (g : Graph) → Course g → List (g.Index × Nat) → List g.Index → Prop}
  {p q : Process}

theorem mono (h : TrackedBy Fits p)
    (hMore : ∀ g c retries told, Fits g c retries told → Fits' g c retries told) :
    TrackedBy Fits' p := by
  cases h with
  | fresh hFresh hStart hWorkers hRetries hInbox =>
    exact .fresh hFresh hStart hWorkers hRetries hInbox
  | begun hBegun hSound course hFits hCovers =>
    exact .begun hBegun hSound course (hMore _ _ _ _ hFits) hCovers

/-! ### Beside the scheduler -/

theorem send_command (h : TrackedBy Fits p) (c : Command) : TrackedBy Fits (p.send (.command c)) := by
  unfold send
  split
  · cases h with
    | fresh hFresh hStart hWorkers hRetries hInbox =>
      refine .fresh hFresh hStart hWorkers hRetries fun m hm => ?_
      rcases List.mem_append.mp hm with hm | hm
      · exact hInbox m hm
      · exact ⟨c, List.mem_singleton.mp hm⟩
    | begun hBegun hSound course hFits hCovers =>
      have hSame := told_snoc p.inbox (m := .command c) rfl
      exact .begun hBegun hSound course (hSame ▸ hFits) (hCovers.command c)
  · exact h

theorem setStage (h : TrackedBy Fits p) (token : Nat) (stage : Stage) :
    TrackedBy Fits (p.setStage token stage) := by
  have hKeys : (p.setStage token stage).workers.map Worker.key = p.workers.map Worker.key := by
    unfold Process.setStage
    rw [List.map_map]
    refine List.map_congr_left fun w _ => ?_
    dsimp only [Function.comp]
    split <;> rfl
  cases h with
  | fresh hFresh hStart hWorkers hRetries hInbox =>
    exact .fresh hFresh hStart (by simp [Process.setStage, hWorkers]) hRetries hInbox
  | begun hBegun hSound course hFits hCovers =>
    exact .begun hBegun hSound course hFits (hCovers.mono (hKeys ▸ .refl _) (.refl _))

/-- Permits and what readers see do not matter. -/
theorem of_rest (h : TrackedBy Fits p) (free : Nat) (line : List Nat) (published : Snapshot)
    (known : Bool) : TrackedBy Fits { p with free, line, published, known } := by
  cases h with
  | fresh hFresh hStart hWorkers hRetries hInbox =>
    exact .fresh hFresh hStart hWorkers hRetries hInbox
  | begun hBegun hSound course hFits hCovers => exact .begun hBegun hSound course hFits hCovers

theorem acquire (h : TrackedBy Fits p) (token : Nat) : TrackedBy Fits (p.acquire token) := by
  unfold Process.acquire
  split
  · exact (h.of_rest (p.free - 1) p.line p.published p.known).setStage token .admitted
  · exact (h.of_rest p.free (p.line ++ [token]) p.published p.known).setStage token .inLine

theorem release (h : TrackedBy Fits p) : TrackedBy Fits p.release.1 := by
  unfold Process.release
  split
  · exact h.of_rest (p.free + 1) p.line p.published p.known
  · rename_i token rest hLine
    exact (h.of_rest p.free rest p.published p.known).setStage token .admitted

theorem dropWorker (h : TrackedBy Fits p) (token : Nat) : TrackedBy Fits (p.dropWorker token) := by
  cases h with
  | fresh hFresh hStart hWorkers hRetries hInbox =>
    exact .fresh hFresh hStart (by simp [Process.dropWorker, hWorkers]) hRetries hInbox
  | begun hBegun hSound course hFits hCovers =>
    exact .begun hBegun hSound course hFits (hCovers.mono (List.filter_sublist.map _) (.refl _))

theorem endCall (h : TrackedBy Fits p) (token : Nat) (outcome : Outcome) :
    TrackedBy Fits (p.endCall token outcome) := by
  unfold Process.endCall
  split
  · exact h
  · rename_i w hWorker
    have hMem : w ∈ p.workers := List.mem_of_find?_eq_some hWorker
    obtain rfl : w.token = token := by simpa using List.find?_some hWorker
    unfold send
    split
    · cases h with
      | fresh hFresh hStart hWorkers => simp [hWorkers] at hMem
      | begun hBegun hSound course hFits hCovers =>
        have hSame := told_snoc p.inbox (m := .event (.finished w.step w.token outcome)) rfl
        exact .begun hBegun hSound course (hSame ▸ hFits) (hCovers.finish hMem outcome)
    · exact h.dropWorker w.token

/-- What happens beside the scheduler leaves the course as it is. -/
theorem aside (h : TrackedBy Fits p) (hAside : Aside p q) : TrackedBy Fits q := by
  cases hAside with
  | command c => exact h.send_command c
  | close hLive hFinal =>
    cases h with
    | fresh hFresh => simp [hLive] at hFresh
    | begun hBegun hSound course hFits hCovers => exact .begun nofun nofun course hFits hCovers
  | lose hBegun =>
    cases h with
    | fresh hFresh => exact absurd hFresh hBegun
    | begun _ hSound course hFits hCovers => exact .begun nofun nofun course hFits hCovers
  | retire known => exact h.of_rest p.free p.line p.published known
  | acquire => exact h.acquire _
  | enter hEnters =>
    cases hEnters
    exact h.setStage _ _
  | giveUp => exact (h.dropWorker _).release
  | goOn => exact h.setStage _ _
  | finish outcome => exact (h.endCall _ outcome).release

/-! ### With the scheduler -/

section

variable {now : Instant} {time : Nat} (hLasts : Lasts Fits now time)

include hLasts

theorem deliverRetry (h : TrackedBy Fits p) (step : Nat) :
    TrackedBy Fits (p.deliverRetry step time) := by
  unfold Process.deliverRetry
  split
  · exact h
  · rename_i i due hFind
    have hMem : (i, due) ∈ p.retries := List.mem_of_find?_eq_some hFind
    obtain ⟨-, hDue⟩ : i.val = step ∧ due ≤ time := by simpa using List.find?_some hFind
    cases h with
    | fresh hFresh hStart hWorkers hRetries => simp [hRetries] at hMem
    | begun hBegun hSound course hFits hCovers =>
      unfold send
      split
      · refine .begun hBegun hSound course ?_ (hCovers.retry hMem)
        rw [List.filterMap_append]
        exact hLasts.due hFits hMem hDue
      · exact .begun hBegun hSound course (hLasts.dropped hFits _)
          (hCovers.mono (.refl _) List.erase_sublist)

omit hLasts in
/-- A scheduler that has gone on is covered by a course that has been granted what it asks for. -/
theorem follow (hBegun : p.phase ≠ .fresh) {c : Course p.graph}
    (hFits : Fits p.graph c.grant (p.retries ++ newRetries time c.grant.asked)
      (p.inbox.filterMap Message.wake?))
    (hCovers : Covers c p.scheduler p.workers p.inbox p.retries) :
    TrackedBy Fits (p.follow time) := by
  have hGranted := hCovers.grant time
  have hFits' : Fits p.graph c.grant (p.retries ++ newRetries time p.scheduler.requests)
      (p.inbox.filterMap Message.wake?) := by
    rw [hCovers.scheduler]
    exact hFits
  unfold Process.follow
  split
  · exact .begun (by simp) (by simp) c.grant hFits' hGranted
  · rename_i hSound
    exact .begun hBegun (fun _ => by simpa using hSound) c.grant hFits' hGranted

theorem launch (h : TrackedBy Fits p) (hFresh : p.phase = .fresh) :
    TrackedBy Fits ((p.launch now).follow time) := by
  cases h with
  | fresh _ hStart hWorkers hRetries hInbox =>
    obtain ⟨runId, workflowId, workflowName, input, vars, created, stepTimeout, hStart⟩ := hStart
    have hFits := hLasts.start p.graph runId workflowId workflowName input vars created stepTimeout
    rw [← hStart] at hFits
    have hCalls : p.inbox.filterMap Message.call? = [] :=
      List.filterMap_eq_nil_iff.mpr fun m hm => by obtain ⟨c, rfl⟩ := hInbox m hm; rfl
    have hWakes : p.inbox.filterMap Message.wake? = [] :=
      List.filterMap_eq_nil_iff.mpr fun m hm => by obtain ⟨c, rfl⟩ := hInbox m hm; rfl
    refine follow (p := p.launch now) nofun (c := ⟨_, [], [], []⟩) ?_ ⟨rfl, ?_, ?_⟩
    · change Fits p.graph _ (p.retries ++ _) (p.inbox.filterMap Message.wake?)
      rw [hRetries, hWakes]
      exact hFits
    · change (p.workers.map Worker.key ++ p.inbox.filterMap Message.call?).Subperm []
      simp [hWorkers, hCalls]
    · change (p.retries.map Prod.fst ++ p.inbox.filterMap Message.wake?).Subperm []
      simp [hRetries, hWakes]
  | begun hBegun => exact absurd hFresh hBegun

omit hLasts in
/-- A course covers a live run, and its scheduler can go on if the run is not over. -/
theorem exists_covers (h : TrackedBy Fits p) (hLive : p.phase = .live) (hOpen : p.isFinal = false) :
    p.phase ≠ .fresh ∧ p.scheduler.crashed = false ∧ ∃ c,
      Fits p.graph c p.retries (p.inbox.filterMap Message.wake?) ∧
      Covers c p.scheduler p.workers p.inbox p.retries ∧ c.scheduler.isOver = false := by
  cases h with
  | fresh hFresh => simp [hLive] at hFresh
  | begun hBegun hSound course hFits hCovers =>
    refine ⟨hBegun, hSound hLive, course, hFits, hCovers, ?_⟩
    rw [← hCovers.scheduler]
    exact Bool.or_eq_false_iff.mpr ⟨hOpen, hSound hLive⟩

theorem conclude (h : TrackedBy Fits p) (hLive : p.phase = .live) (hOpen : p.isFinal = false) :
    TrackedBy Fits (p.conclude now) := by
  obtain ⟨hBegun, hSound, course, hFits, hCovers, hOver⟩ := h.exists_covers hLive hOpen
  refine .begun hBegun (fun _ => ?_) (course.conclude now) (hLasts.conclude hFits hOver)
    ⟨?_, hCovers.calls, hCovers.wakes⟩
  · exact (Scheduler.crashed_conclude _).trans hSound
  · change ({ p.scheduler with now } : Scheduler p.graph).conclude = _
    rw [hCovers.scheduler]
    rfl

theorem read (h : TrackedBy Fits p) (hLive : p.phase = .live) (hOpen : p.isFinal = false)
    (hMore : (p.conclude now).isFinal = false) {m : Message p.graph} {rest : List (Message p.graph)}
    (hInbox : p.inbox = m :: rest) : TrackedBy Fits ((p.readMessage now).follow time) := by
  obtain ⟨hBegun, hSound, course, hFits, hCovers, hOver⟩ := h.exists_covers hLive hOpen
  have hGoesOn : course.scheduler.conclude.state.isFinal = false := by
    rw [← hCovers.scheduler, Scheduler.isFinal_conclude]
    exact (Scheduler.isFinal_conclude { p.scheduler with now }).symm.trans hMore
  rw [hInbox] at hCovers
  have hFirst : Fits p.graph course p.retries (m.wake?.toList ++ rest.filterMap Message.wake?) := by
    rw [hInbox, List.filterMap_cons] at hFits
    cases hWake : m.wake? <;> rw [hWake] at hFits <;> exact hFits
  have hSettled := hCovers.settle
  rw [readMessage_of_inbox hInbox]
  refine follow (p := { p with
      inbox := rest
      scheduler := Process.handle { p.scheduler with now } m }) hBegun
    (c := { course.settle m with
      scheduler := Process.handle { course.scheduler with now } m })
    (hLasts.read hFirst hOver hGoesOn hCovers.expects) ⟨?_, hSettled.calls, hSettled.wakes⟩
  dsimp only
  rw [hCovers.scheduler]

theorem stepAt (h : TrackedBy Fits p) (hStep : StepAt now time p q) : TrackedBy Fits q := by
  cases hStep with
  | aside hAside => exact h.aside hAside
  | launch hFresh => exact h.launch hLasts hFresh
  | conclude hLive hOpen => exact h.conclude hLasts hLive hOpen
  | read hLive hOpen hMore hInbox => exact h.read hLasts hLive hOpen hMore hInbox
  | publish => exact h.of_rest p.free p.line _ p.known
  | retry step => exact h.deliverRetry hLasts step

end

end TrackedBy

theorem Tracked.step {p q : Process} (h : p.Tracked) (hStep : p.Step q) : q.Tracked := by
  rcases hStep.stepAt with ⟨now, time, hStep⟩ | ⟨published, known, rfl⟩
  · exact TrackedBy.stepAt (lasts_reached now time) h hStep
  · exact TrackedBy.of_rest h p.free p.line published known

theorem Reached.tracked {g : Graph} {limit : Nat} {p : Process} (h : Reached g limit p) :
    p.Tracked := by
  induction h with
  | start runId workflowId workflowName input vars created stepTimeout =>
    exact .fresh rfl ⟨runId, workflowId, workflowName, input, vars, created, stepTimeout, rfl⟩ rfl rfl
      nofun
  | step _ hStep ih => exact ih.step hStep

theorem Step.graph_eq {p q : Process} (h : Step p q) : q.graph = p.graph := by
  have hFollow : ∀ (p : Process) time, (p.follow time).graph = p.graph := by
    intro p time
    unfold follow
    split <;> rfl
  cases h.proceeds with
  | beside hAlike => exact hAlike.graph_eq
  | launch now time => exact hFollow _ time
  | read now time =>
    refine (hFollow _ time).trans ?_
    unfold readMessage
    split <;> rfl
  | conclude | close | lose | inform => rfl

theorem Reached.graph_eq {g : Graph} {limit : Nat} {p : Process} (h : Reached g limit p) :
    p.graph = g := by
  induction h with
  | start => rfl
  | step _ hStep ih => exact hStep.graph_eq.trans ih

/-- The workers of a run have different tokens. -/
theorem Reached.tokens {g : Graph} (hg : g.Sound) {limit : Nat} {p : Process} (h : Reached g limit p) :
    (p.workers.map Worker.token).Nodup := by
  cases h.tracked with
  | fresh _ _ hWorkers => simp [hWorkers]
  | begun _ _ c hReach hCovers =>
    have hExpected := Course.Reached.tokens_nodup (h.graph_eq ▸ hg) hReach
    obtain ⟨kept, hPerm, hKept⟩ := hCovers.calls
    have hBoth := (hPerm.map Prod.snd).nodup_iff.mp ((hKept.map Prod.snd).nodup hExpected)
    rw [List.map_append, List.map_map] at hBoth
    exact hBoth.of_append_left

end Process

end Workflow

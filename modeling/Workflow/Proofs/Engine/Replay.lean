/-
Workflow.Proofs.Engine.Replay — runs in progress along a list of deeds.

A deed says what happens next in a run in progress: its scheduler reads a
message, a worker asks for a permit or makes its call, or a call comes to
its end. What a list of deeds leads to can be computed, and it is then
something that the run can come to.

* `Process.Deed`, `Process.act?` — what happens in a step.
* `Process.perform?`, `reached_of_perform?` — a run along a list of deeds
  is a run.
* `Process.exhibits`, `exists_of_exhibits` — checking what it leads to.
-/
import Workflow.Proofs.Engine.Process
import Workflow.Proofs.Run.Replay

namespace Workflow

namespace Process

/-- What happens in a step of a run in progress. -/
inductive Deed where
  | launch
  | command (c : Command)
  | read
  | acquire (token : Nat)
  | enter (token : Nat)
  | finish (token : Nat) (outcome : Outcome)

/-- The scheduler takes a message, if this needs so many rounds at most. -/
def handleWithin {g : Graph} (n : Nat) (s : Scheduler g) : Message g → Option (Scheduler g)
  | .command c => (s.obey c).advanceWithin n
  | .event e => (s.note e).advanceWithin n

theorem handle_of_handleWithin {g : Graph} {n : Nat} {s t : Scheduler g} {m : Message g}
    (h : handleWithin n s m = some t) : handle s m = t := by
  cases m <;> exact Scheduler.advance_of_advanceWithin h

/-- One step along a list of deeds. -/
def act? (n : Nat) (p : Process) : Deed → Option Process
  | .launch =>
    if p.phase = .fresh then
      ({ p.scheduler with now := Course.scriptTime }.enter.advanceWithin n).map fun s =>
        { p with phase := .live, scheduler := s }.follow 0
    else none
  | .command c => some (p.send (.command c))
  | .read =>
    match p.inbox with
    | [] => none
    | m :: rest =>
      if p.phase = .live ∧ p.isFinal = false ∧ (p.conclude Course.scriptTime).isFinal = false then
        (handleWithin n { p.scheduler with now := Course.scriptTime } m).map fun s =>
          { p with inbox := rest, scheduler := s }.follow 0
      else none
  | .acquire token => (p.worker? token).bind fun w =>
    if w.stage = .fresh then some (p.acquire token) else none
  | .enter token => (p.worker? token).bind fun w =>
    if w.stage = .admitted ∧ w.CanCall then
      some (p.setStage token (.asleep 0 ⟨false, .panic, none⟩))
    else none
  | .finish token outcome => (p.worker? token).bind fun w =>
    if w.stage.call?.isSome then some (p.endCall token outcome).release.1 else none

theorem enters_of_act? {n : Nat} {p q : Process} {token : Nat}
    (h : p.act? n (.enter token) = some q) : Enters token p q := by
  obtain ⟨w, hWorker, hGuard⟩ := Option.bind_eq_some_iff.mp h
  split at hGuard
  · rename_i hReady
    cases hGuard
    exact .intro hWorker hReady.1 hReady.2
  · cases hGuard

theorem step_of_act? {n : Nat} {p q : Process} {deed : Deed} (h : p.act? n deed = some q) :
    Step p q := by
  -- what a deed checks is what the step of its kind needs
  cases deed with
  | launch =>
    simp only [act?] at h
    split at h
    · rename_i hFresh
      obtain ⟨s, hAdvance, rfl⟩ := Option.map_eq_some_iff.mp h
      obtain rfl := Scheduler.advance_of_advanceWithin hAdvance
      exact .launch Course.scriptTime 0 hFresh
    · cases h
  | command c =>
    cases h
    exact .command c
  | read =>
    simp only [act?] at h
    split at h
    · cases h
    · rename_i m rest hInbox
      split at h
      · rename_i hGuard
        obtain ⟨s, hHandle, rfl⟩ := Option.map_eq_some_iff.mp h
        obtain rfl := handle_of_handleWithin hHandle
        have hStep := Step.read Course.scriptTime 0 hGuard.1 hGuard.2.1 hGuard.2.2 hInbox
        rwa [readMessage_of_inbox hInbox] at hStep
      · cases h
  | acquire token =>
    obtain ⟨w, hWorker, hGuard⟩ := Option.bind_eq_some_iff.mp h
    split at hGuard
    · rename_i hFresh
      cases hGuard
      exact .acquire hWorker hFresh
    · cases hGuard
  | enter token => exact .enter (enters_of_act? h)
  | finish token outcome =>
    obtain ⟨w, hWorker, hGuard⟩ := Option.bind_eq_some_iff.mp h
    split at hGuard
    · rename_i hSome
      obtain ⟨call, hOpen⟩ := Option.isSome_iff_exists.mp hSome
      cases hGuard
      exact .finish outcome hWorker hOpen
    · cases hGuard

/-- Some steps along a list of deeds. -/
def acts? (deeds : List Deed) (p : Process) : Option Process :=
  deeds.foldlM (act? Script.rounds) p

theorem steps_of_acts? {deeds : List Deed} {p q : Process} (h : p.acts? deeds = some q) :
    Steps p q := by
  induction deeds generalizing p with
  | nil =>
    cases h
    exact .refl
  | cons deed deeds ih =>
    obtain ⟨next, hAct, hRest⟩ := Option.bind_eq_some_iff.mp h
    exact (ih hRest).head (step_of_act? hAct)

/-- What a run without input comes to along a list of deeds. -/
def perform? (g : Graph) (limit : Nat) (deeds : List Deed) : Option Process :=
  acts? deeds (Process.initial g (Scheduler.initial
    (RunState.initial g "run" "workflow" "workflow" .null [] Course.scriptTime) none) limit)

theorem reached_of_perform? {g : Graph} {limit : Nat} {deeds : List Deed} {p : Process}
    (h : perform? g limit deeds = some p) : Reached g limit p :=
  (Reached.start "run" "workflow" "workflow" .null [] Course.scriptTime none).steps (steps_of_acts? h)

/-- Whether a list of deeds in a run of a workflow leads to a goal. -/
def exhibits (steps : List Workflow.Step) (limit : Nat) (deeds : List Deed) (goal : Process → Prop)
    [DecidablePred goal] : Bool :=
  match Graph.compile false steps with
  | .error _ => false
  | .ok g => (perform? g limit deeds).any fun p => goal p

theorem performed_of_exhibits {steps : List Workflow.Step} {limit : Nat} {deeds : List Deed}
    {goal : Process → Prop} [DecidablePred goal] (h : exhibits steps limit deeds goal = true) :
    ∃ g p, Graph.compile false steps = .ok g ∧ perform? g limit deeds = some p ∧ goal p := by
  unfold exhibits at h
  split at h
  · cases h
  · rename_i g hCompile
    obtain ⟨p, hPerform, hGoal⟩ := (Option.any_eq_true _ _).mp h
    exact ⟨g, p, hCompile, hPerform, of_decide_eq_true hGoal⟩

theorem exists_of_exhibits {steps : List Workflow.Step} {limit : Nat} {deeds : List Deed}
    {goal : Process → Prop} [DecidablePred goal] (h : exhibits steps limit deeds goal = true) :
    ∃ g p, Graph.compile false steps = .ok g ∧ Reached g limit p ∧ goal p := by
  obtain ⟨g, p, hCompile, hPerform, hGoal⟩ := performed_of_exhibits h
  exact ⟨g, p, hCompile, reached_of_perform? hPerform, hGoal⟩

end Process

end Workflow

/-
Workflow.Proofs.Engine.Capacity — how many calls are under way at once.

A worker that has made its call keeps its permit until the call has come to
its end, whatever has become of the step, of the loop around it or of the
run in the meantime. So there are never more calls under way than permits.
Calls are counted here from outside, by those that have been made since the
run was begun and those that have come to an end.

* `Process.underWay` — the calls that are under way.
* `Process.Account` — a run with the calls that have been made in it and
  those that have come to an end.
* `Account.balance` — what has been made has ended or is under way.
* `Service.exists_reached` — the runs of a service.
* `Process.calls_within_limit` — the main result.
-/
import Workflow.Proofs.Engine.Permits
import Workflow.Proofs.Engine.Replay
import Workflow.Proofs.Engine.Serving

namespace Workflow

namespace Process

/-! ## Calls under way -/

section Workers

variable {g : Graph}

/-- The calls of some workers that are under way, by the tokens of the workers. -/
def callsOf (workers : List (Worker g)) : List Nat :=
  (workers.filter fun w => w.stage.call?.isSome).map Worker.token

variable {workers : List (Worker g)} {w : Worker g} {token : Nat} {stage : Stage}

theorem callsOf_append (workers more : List (Worker g)) :
    callsOf (workers ++ more) = callsOf workers ++ callsOf more := by
  simp [callsOf]

theorem callsOf_cons (w : Worker g) (workers : List (Worker g)) :
    callsOf (w :: workers) =
      (if w.stage.call?.isSome then [w.token] else []) ++ callsOf workers := by
  unfold callsOf
  rw [List.filter_cons]
  split <;> rfl

theorem callsOf_eq_nil (h : ∀ w ∈ workers, w.stage.call? = none) : callsOf workers = [] := by
  unfold callsOf
  rw [List.filter_eq_nil_iff.mpr fun w hw => by simp [h w hw]]
  rfl

/-- Whoever is no nearer to a call than before changes nothing. -/
theorem callsOf_restage_of_same
    (h : ∀ v ∈ workers, v.token = token → stage.call?.isSome = v.stage.call?.isSome) :
    callsOf (restage workers token stage) = callsOf workers := by
  induction workers with
  | nil => rfl
  | cons w rest ih =>
    have hRest := ih fun v hv => h v (List.mem_cons_of_mem w hv)
    have hHead : restage (w :: rest) token stage =
        (if w.token = token then { w with stage } else w) :: restage rest token stage := rfl
    rw [hHead, callsOf_cons, callsOf_cons, hRest]
    split
    · rename_i hSame
      rw [← h w List.mem_cons_self hSame]
    · rfl

/-- A worker makes its call. -/
theorem callsOf_enter (hTokens : (workers.map Worker.token).Nodup) (hw : w ∈ workers)
    (hBefore : w.stage.call? = none) (hOpen : stage.call?.isSome) :
    (callsOf (restage workers w.token stage)).Perm (w.token :: callsOf workers) := by
  obtain ⟨front, back, hSplit, -, hRestage⟩ := exists_split hTokens hw
  rw [hRestage, hSplit]
  simp only [callsOf_append, callsOf_cons, hOpen, hBefore, if_true, Option.isSome_none,
    Bool.false_eq_true, if_false, List.nil_append]
  exact List.perm_middle

/-- A worker goes, and with it its call if that is under way. -/
theorem callsOf_without (hTokens : (workers.map Worker.token).Nodup) (hw : w ∈ workers) :
    (callsOf workers).Perm
      ((if w.stage.call?.isSome then [w.token] else []) ++ callsOf (without workers w.token)) := by
  obtain ⟨front, back, hSplit, hWithout, -⟩ := exists_split hTokens hw
  rw [hWithout, hSplit]
  simp only [callsOf_append, callsOf_cons]
  rw [← List.append_assoc, ← List.append_assoc]
  exact List.perm_append_comm.append_right _

end Workers

variable {p q : Process}

/-- The calls that are under way in a run, by the tokens of their workers. -/
def underWay (p : Process) : List Nat := callsOf p.workers

theorem length_underWay (p : Process) : p.underWay.length = p.openCalls := by
  rw [underWay, callsOf, List.length_map, ← List.countP_eq_length_filter]
  rfl

/-- Every call that is under way takes a permit. -/
theorem openCalls_le_holders (p : Process) : p.openCalls ≤ holders p.workers := by
  refine List.countP_mono_left fun w _ hOpen => ?_
  obtain ⟨call, hCall⟩ := Option.isSome_iff_exists.mp hOpen
  exact Stage.hasPermit_of_call? hCall

/-- The call of a worker comes to its end: it returns, fails, panics or is out of time. -/
inductive Ends (token : Nat) (p : Process) : Process → Prop
  | intro {w : Worker p.graph} {call : OpenCall} (outcome : Outcome)
      (hWorker : p.worker? token = some w) (hOpen : w.stage.call? = some call) :
      Ends token p (p.endCall token outcome).release.1

/-- A run, with the calls that have been made in it and those that have come to an end, each as often
and in the order as it happened. -/
inductive Account (g : Graph) (limit : Nat) : List Nat → List Nat → Process → Prop
  | start (runId workflowId workflowName : String) (input : Json) (vars : Dict Json)
      (created : Instant) (stepTimeout : Option Duration) :
      Account g limit [] [] (Process.initial g (Scheduler.initial
        (RunState.initial g runId workflowId workflowName input vars created) stepTimeout) limit)
  | enter {made ended : List Nat} {p q : Process} {token : Nat}
      (hBefore : Account g limit made ended p) (h : Enters token p q) :
      Account g limit (made ++ [token]) ended q
  | finish {made ended : List Nat} {p q : Process} {token : Nat}
      (hBefore : Account g limit made ended p) (h : Ends token p q) :
      Account g limit made (ended ++ [token]) q
  | rest {made ended : List Nat} {p q : Process} (hBefore : Account g limit made ended p)
      (hStep : Step p q) (hEnters : ∀ token, ¬ Enters token p q) (hEnds : ∀ token, ¬ Ends token p q) :
      Account g limit made ended q

/-! ## What a step does to the calls -/

theorem underWay_send (p : Process) (m : Message p.graph) : (p.send m).underWay = p.underWay := by
  obtain ⟨_, hSend⟩ := p.exists_send_eq m
  rw [hSend]
  rfl

/-- The one that gets the permit stood in line, and has no call under way. -/
theorem underWay_release (hLine : ∀ v ∈ p.workers, v.token ∈ p.line → v.stage.call? = none) :
    p.release.1.underWay = p.underWay := by
  rcases hSome : p.line with _ | ⟨first, rest⟩
  · rw [release_of_nil hSome]
    rfl
  · rw [release_of_cons hSome]
    refine callsOf_restage_of_same fun v hv hFirst => ?_
    rw [hLine v hv (by rw [hSome, hFirst]; exact List.mem_cons_self)]
    rfl

theorem underWay_follow (p : Process) (time : Nat) : (p.follow time).underWay = p.underWay := by
  obtain ⟨_, _, hFollow⟩ := exists_follow_eq p time
  have hNew : callsOf (newWorkers p.scheduler.requests) = [] :=
    callsOf_eq_nil fun w hw => by rw [fresh_of_mem_newWorkers hw]; rfl
  rw [hFollow]
  refine (callsOf_append _ _).trans ?_
  rw [hNew, List.append_nil]
  rfl

/-- Who goes and gives its permit back takes its call along, if that was under way. -/
theorem underWay_leave {limit : Nat} (hTokens : (p.workers.map Worker.token).Nodup)
    (hShared : p.IsShared limit) {w : Worker p.graph} (hw : w ∈ p.workers)
    (inbox : List (Message p.graph)) :
    p.underWay.Perm ((if w.stage.call?.isSome then [w.token] else []) ++
      ({ p with workers := without p.workers w.token, inbox } : Process).release.1.underWay) := by
  rw [underWay_release]
  · exact callsOf_without hTokens hw
  · intro v hv hIn
    rw [(hShared.mem_line hTokens (mem_without.mp hv).1).mp hIn]
    rfl

theorem Enters.underWay {token : Nat} (hTokens : (p.workers.map Worker.token).Nodup)
    (h : Enters token p q) : q.underWay.Perm (token :: p.underWay) := by
  cases h with
  | intro hWorker hStage =>
    obtain ⟨hw, rfl⟩ := mem_of_worker? hWorker
    exact callsOf_enter hTokens hw (by rw [hStage]; rfl) rfl

theorem Ends.underWay {limit token : Nat} (hTokens : (p.workers.map Worker.token).Nodup)
    (hShared : p.IsShared limit) (h : Ends token p q) : p.underWay.Perm (token :: q.underWay) := by
  cases h with
  | intro outcome hWorker hOpen =>
    obtain ⟨inbox, hEnd⟩ := exists_endCall_eq hWorker outcome
    obtain ⟨hw, rfl⟩ := mem_of_worker? hWorker
    have hLeave := underWay_leave hTokens hShared hw inbox
    rw [hOpen] at hLeave
    rw [hEnd]
    exact hLeave

/-- A step in which no call is made and none comes to an end leaves those alone that are under way. -/
theorem Step.underWay {limit : Nat} (hTokens : (p.workers.map Worker.token).Nodup)
    (hShared : p.IsShared limit) (hStep : Step p q) (hEnters : ∀ token, ¬ Enters token p q)
    (hEnds : ∀ token, ¬ Ends token p q) : q.underWay.Perm p.underWay := by
  -- a call comes under way by entering and ends by finishing; both are excluded
  cases hStep with
  | command c => rw [underWay_send]
  | launch now time => exact .of_eq (underWay_follow (p.launch now) time)
  | read now time _ _ _ hInbox =>
    rw [readMessage_of_inbox hInbox]
    exact .of_eq (underWay_follow _ time)
  | conclude | close | lose | inform => exact .refl _
  | retry step now =>
    obtain ⟨_, _, hDeliver⟩ := p.exists_deliverRetry_eq step now
    rw [hDeliver]
    exact .refl _
  | acquire hWorker hStage =>
    obtain ⟨hw, rfl⟩ := mem_of_worker? hWorker
    obtain ⟨free, line, stage, hAcquire, hWaits⟩ := p.exists_acquire_eq _
    rw [hAcquire]
    refine .of_eq (callsOf_restage_of_same fun v hv hSame => ?_)
    rw [eq_of_token hTokens hv hw hSame, hStage]
    rcases hWaits with rfl | rfl <;> rfl
  | enter h => exact absurd h (hEnters _)
  | giveUp hWorker hStage =>
    obtain ⟨hw, rfl⟩ := mem_of_worker? hWorker
    have hLeave := underWay_leave hTokens hShared hw p.inbox
    rw [hStage] at hLeave
    exact hLeave.symm
  | goOn hWorker hOpen hStage =>
    obtain ⟨hw, rfl⟩ := mem_of_worker? hWorker
    refine .of_eq (callsOf_restage_of_same fun v hv hSame => ?_)
    rw [eq_of_token hTokens hv hw hSame, hOpen, hStage]
  | finish outcome hWorker hOpen => exact absurd (.intro outcome hWorker hOpen) (hEnds _)

/-! ## Whole runs -/

variable {g : Graph} {limit : Nat} {made ended : List Nat}

theorem Account.reached (h : Account g limit made ended p) : Reached g limit p := by
  induction h with
  | start runId workflowId workflowName input vars created stepTimeout =>
    exact .start runId workflowId workflowName input vars created stepTimeout
  | enter _ h ih => exact ih.step (.enter h)
  | finish _ h ih =>
    cases h with
    | intro outcome hWorker hOpen => exact ih.step (.finish outcome hWorker hOpen)
  | rest _ hStep _ _ ih => exact ih.step hStep

/-- Whatever a run has come to, its calls can be counted. -/
theorem Reached.exists_account (h : Reached g limit p) :
    ∃ made ended, Account g limit made ended p := by
  induction h with
  | start runId workflowId workflowName input vars created stepTimeout =>
    exact ⟨[], [], .start runId workflowId workflowName input vars created stepTimeout⟩
  | @step p q _ hStep ih =>
    obtain ⟨made, ended, hAccount⟩ := ih
    by_cases hEnters : ∃ token, Enters token p q
    · obtain ⟨token, h⟩ := hEnters
      exact ⟨_, _, hAccount.enter h⟩
    · by_cases hEnds : ∃ token, Ends token p q
      · obtain ⟨token, h⟩ := hEnds
        exact ⟨_, _, hAccount.finish h⟩
      · exact ⟨_, _, hAccount.rest hStep (not_exists.mp hEnters) (not_exists.mp hEnds)⟩

/-- Every call that has been made has come to an end or is under way. -/
theorem Account.balance (hg : g.Sound) (h : Account g limit made ended p) :
    made.Perm (ended ++ p.underWay) := by
  induction h with
  | start => exact .refl _
  | enter hBefore h ih =>
    rename_i token
    have hTokens := hBefore.reached.tokens hg
    refine (ih.append_right [token]).trans ?_
    rw [List.append_assoc]
    refine List.Perm.append_left _ (List.Perm.trans ?_ (h.underWay hTokens).symm)
    exact List.perm_append_singleton _ _
  | finish hBefore h ih =>
    have hTokens := hBefore.reached.tokens hg
    refine ih.trans ?_
    rw [List.append_assoc]
    exact List.Perm.append_left _ (h.underWay hTokens (hBefore.reached.shared hg))
  | rest hBefore hStep hEnters hEnds ih =>
    have hTokens := hBefore.reached.tokens hg
    have hSame := hStep.underWay hTokens (hBefore.reached.shared hg) hEnters hEnds
    exact ih.trans (List.Perm.append_left _ hSame.symm)

theorem Reached.openCalls_le (hg : g.Sound) (h : Reached g limit p) :
    p.openCalls ≤ permits limit := by
  have hCount := (h.shared hg).count
  have hCalls := openCalls_le_holders p
  omega

end Process

/-! ## Runs of a service -/

namespace Service

variable {s s' : Service} {run : Nat} {p : Process}

/-- Whatever a service does, a run that it has begun goes on by steps. -/
theorem Serves.exists_steps_of_run (h : s.Serves s') (hp : s.world.processes[run]? = some p) :
    ∃ q, s'.world.processes[run]? = some q ∧ Process.Steps p q := by
  have hUnfolds : ∀ {w : World}, s.world.Unfolds w →
      ∃ q, w.processes[run]? = some q ∧ Process.Steps p q := by
    intro w hUnfolds
    obtain ⟨q, hq, hBeats⟩ := hUnfolds.goOn run p hp
    exact ⟨q, hq, hBeats.steps⟩
  cases h with
  | submit hNew h =>
    obtain ⟨_, -, hProcesses, -⟩ := Traffic.submit_ok h
    obtain ⟨hBound, -⟩ := List.getElem?_eq_some_iff.mp hp
    exact ⟨p, by rw [hProcesses, List.getElem?_append_left hBound, hp], .refl⟩
  | send h => exact hUnfolds (send_evolves h).unfolds
  | wait runId patience => exact hUnfolds (wait_unfolds s runId patience)
  | shutdown => exact hUnfolds (shutdown_evolves s).unfolds
  | turn h => exact hUnfolds (World.turn?_evolves h).unfolds
  | advance millis => exact hUnfolds (World.advance_unfolds s.world millis)
  | openGate step => exact hUnfolds (World.openGate_evolves s.world step).unfolds
  | disturb => exact ⟨p, hp, .refl⟩

theorem exists_steps_of_served (h : Relation.ReflTransGen Serves s s')
    (hp : s.world.processes[run]? = some p) :
    ∃ q, s'.world.processes[run]? = some q ∧ Process.Steps p q := by
  induction h with
  | refl => exact ⟨p, hp, .refl⟩
  | tail _ hLast ih =>
    obtain ⟨q, hq, hSteps⟩ := ih
    obtain ⟨r, hr, hMore⟩ := hLast.exists_steps_of_run hq
    exact ⟨r, hr, hSteps.trans hMore⟩

/-- A run that a service has begun is always what a run of its workflow can come to under the limit that
the service was told. -/
theorem exists_reached {runId : String} {d : Definition} {input : Json} {s₀ : Service} {g : Graph}
    (hCompile : Graph.compile s₀.settings.allowOrphans d.steps = .ok g)
    (hSubmit : s₀.submit runId d input = .ok s) (hServed : Relation.ReflTransGen Serves s s') :
    ∃ p, s'.world.processes[s₀.world.processes.length]? = some p ∧
      Process.Reached g (s₀.settings.forWorkflow d).maxConcurrentSteps p := by
  obtain ⟨g', hCompile', hProcesses, -⟩ := Traffic.submit_ok hSubmit
  obtain rfl : g = g' := Except.ok.inj (hCompile.symm.trans hCompile')
  obtain ⟨p, hp, hSteps⟩ := exists_steps_of_served hServed (by rw [hProcesses, List.getElem?_concat_length])
  exact ⟨p, hp, (Process.Reached.start ..).steps hSteps⟩

end Service

namespace Process

/-- The cap on concurrent calls. Whatever a run has come to, its calls can be counted; however they are
counted, those that have been made and have not come to an end are the ones that are under way, and
there are at most as many as the limit says, or one if it says none. A run of a service that was told
the limit has always come to something that is meant here. -/
theorem calls_within_limit {allowOrphans : Bool} {steps : List Workflow.Step} {g : Graph}
    (hCompile : Graph.compile allowOrphans steps = .ok g) (limit : Nat) :
    (∀ p, Reached g limit p → (∃ made ended, Account g limit made ended p) ∧
      ∀ made ended, Account g limit made ended p → made.Perm (ended ++ p.underWay) ∧
        p.underWay.length = p.openCalls ∧ p.openCalls ≤ max 1 limit) ∧
    ∀ (s₀ s s' : Service) (runId : String) (d : Definition) (input : Json), d.steps = steps →
      s₀.settings.allowOrphans = allowOrphans →
      (s₀.settings.forWorkflow d).maxConcurrentSteps = limit →
      s₀.submit runId d input = .ok s → Relation.ReflTransGen Service.Serves s s' →
      ∃ p, s'.world.processes[s₀.world.processes.length]? = some p ∧ Reached g limit p := by
  have hg := Graph.sound_of_compile hCompile
  refine ⟨fun p h => ⟨h.exists_account, fun made ended hAccount => ?_⟩, ?_⟩
  · exact ⟨hAccount.balance hg, length_underWay p, h.openCalls_le hg⟩
  · rintro s₀ s s' runId d input rfl rfl rfl hSubmit hServed
    exact Service.exists_reached hCompile hSubmit hServed

/-- A limit of zero lets one call be under way: here that of a worker whose loop was given up before
the run was stopped. -/
theorem calls_within_limit_of_abandoned : ∃ g p made ended,
    Graph.compile false Script.reopened.steps = .ok g ∧ Reached g 0 p ∧ p.isFinal = true ∧
      Account g 0 made ended p ∧ made.Perm (ended ++ [3]) ∧ p.openCalls = 1 ∧
        p.openCalls ≤ max 1 0 := by
  have hExhibits : exhibits Script.reopened.steps 0 [.launch, .acquire 1, .enter 1,
      .finish 1 (.ok []), .read, .acquire 2, .acquire 3, .enter 2, .finish 2 (.error .boom), .enter 3,
      .read, .command .stop, .read] (fun p => p.isFinal = true ∧ p.underWay = [3]) = true := by
    decide +kernel
  obtain ⟨g, p, hCompile, hReach, hFinal, hCalls⟩ := exists_of_exhibits hExhibits
  obtain ⟨⟨made, ended, hAccount⟩, hBalance⟩ := (calls_within_limit hCompile 0).1 p hReach
  obtain ⟨hMade, hLength, hBound⟩ := hBalance made ended hAccount
  rw [hCalls] at hMade hLength
  exact ⟨g, p, made, ended, hCompile, hReach, hFinal, hAccount, hMade, hLength.symm, hBound⟩

end Process

end Workflow

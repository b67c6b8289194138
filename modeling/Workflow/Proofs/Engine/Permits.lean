/-
Workflow.Proofs.Engine.Permits — who has a permit and who waits for one.

Every permit is free or with a worker that may make its call or has made
it. Those that wait for a permit stand in line, and as long as somebody
stands there no permit is free. So everybody in line can come to a permit:
the calls before it only have to come to an end.

* `Process.Shared` — how permits are shared; `Reached.shared`.
* `Process.Leaves` — a worker goes and gives its permit back.
* `Reached.admits` — a worker in line can come to a permit.
-/
import Workflow.Proofs.Engine.Process

namespace Workflow

/-- Whether a worker has a permit. -/
def Stage.hasPermit : Stage → Bool
  | .fresh | .inLine => false
  | .admitted | .asleep .. | .atGate _ | .passing _ => true

theorem Stage.hasPermit_of_call? {stage : Stage} {call : OpenCall} (h : stage.call? = some call) :
    stage.hasPermit = true := by
  cases stage <;> first | rfl | cases h

namespace Process

section Workers

variable {g : Graph}

/-- Some workers after one of them has come to a stage. -/
def restage (workers : List (Worker g)) (token : Nat) (stage : Stage) : List (Worker g) :=
  workers.map fun w => if w.token = token then { w with stage } else w

/-- Some workers without one of them. -/
def without (workers : List (Worker g)) (token : Nat) : List (Worker g) :=
  workers.filter fun w => w.token ≠ token

/-- The number of workers with a permit. -/
def holders (workers : List (Worker g)) : Nat := workers.countP fun w => w.stage.hasPermit

variable {workers : List (Worker g)} {w v : Worker g} {token : Nat} {stage : Stage}

theorem mem_restage : v ∈ restage workers token stage ↔
    ∃ u ∈ workers, v = if u.token = token then { u with stage } else u := by
  simp [restage, eq_comm]

theorem mem_without : v ∈ without workers token ↔ v ∈ workers ∧ v.token ≠ token := by
  simp [without]

/-- A list of workers with different tokens, split at one of them. -/
theorem exists_split (hTokens : (workers.map Worker.token).Nodup) (hw : w ∈ workers) :
    ∃ front back, workers = front ++ w :: back ∧ without workers w.token = front ++ back ∧
      ∀ stage, restage workers w.token stage = front ++ { w with stage } :: back := by
  obtain ⟨front, back, rfl⟩ := List.append_of_mem hw
  rw [List.map_append, List.map_cons, List.nodup_append] at hTokens
  obtain ⟨-, hBack, hApart⟩ := hTokens
  have hFront : ∀ v ∈ front, v.token ≠ w.token := fun v hv =>
    hApart v.token (List.mem_map_of_mem hv) w.token (List.mem_cons_self ..)
  have hLater : ∀ v ∈ back, v.token ≠ w.token := fun v hv hSame =>
    (List.nodup_cons.mp hBack).1 (hSame ▸ List.mem_map_of_mem hv)
  have hKept : ∀ stage (others : List (Worker g)), (∀ v ∈ others, v.token ≠ w.token) →
      restage others w.token stage = others := by
    intro stage others hOther
    refine (List.map_congr_left fun v hv => ?_).trans (List.map_id _)
    exact if_neg (hOther v hv)
  have hAll : ∀ others : List (Worker g), (∀ v ∈ others, v.token ≠ w.token) →
      without others w.token = others := fun others hOther =>
    List.filter_eq_self.mpr fun v hv => decide_eq_true (hOther v hv)
  refine ⟨front, back, rfl, ?_, fun stage => ?_⟩
  · rw [without, List.filter_append, List.filter_cons_of_neg (by simp)]
    exact congrArg₂ (· ++ ·) (hAll front hFront) (hAll back hLater)
  · rw [restage, List.map_append, List.map_cons, if_pos rfl]
    exact congrArg₂ (fun a b => a ++ _ :: b) (hKept stage front hFront) (hKept stage back hLater)

theorem holders_restage (stage : Stage) (hTokens : (workers.map Worker.token).Nodup)
    (hw : w ∈ workers) :
    holders (restage workers w.token stage) + (if w.stage.hasPermit then 1 else 0) =
      holders workers + if stage.hasPermit then 1 else 0 := by
  obtain ⟨front, back, hSplit, -, hRestage⟩ := exists_split hTokens hw
  rw [hRestage, hSplit]
  simp only [holders, List.countP_append, List.countP_cons]
  omega

theorem holders_without (hTokens : (workers.map Worker.token).Nodup) (hw : w ∈ workers) :
    holders (without workers w.token) + (if w.stage.hasPermit then 1 else 0) = holders workers := by
  obtain ⟨front, back, hSplit, hWithout, -⟩ := exists_split hTokens hw
  rw [hWithout, hSplit]
  simp only [holders, List.countP_append, List.countP_cons]
  omega

theorem eq_of_token (hTokens : (workers.map Worker.token).Nodup) (hv : v ∈ workers)
    (hw : w ∈ workers) (hSame : v.token = w.token) : v = w :=
  List.inj_on_of_nodup_map hTokens hv hw hSame

/-- Whether the worker with a token waits for a permit. -/
def IsInLine (workers : List (Worker g)) (token : Nat) : Prop :=
  ∃ w ∈ workers, w.token = token ∧ w.stage = .inLine

theorem isInLine_restage (hw : w ∈ workers) : IsInLine (restage workers w.token stage) token ↔
    if token = w.token then stage = .inLine else IsInLine workers token := by
  unfold IsInLine
  constructor
  · rintro ⟨v, hv, rfl, hStage⟩
    obtain ⟨u, hu, rfl⟩ := mem_restage.mp hv
    by_cases hSame : u.token = w.token
    · rw [if_pos hSame] at hStage ⊢
      rw [if_pos hSame]
      exact hStage
    · rw [if_neg hSame] at hStage ⊢
      rw [if_neg hSame]
      exact ⟨u, hu, rfl, hStage⟩
  · intro hIn
    split at hIn
    · rename_i hSame
      exact ⟨{ w with stage }, mem_restage.mpr ⟨w, hw, (if_pos rfl).symm⟩, hSame.symm, hIn⟩
    · rename_i hOther
      obtain ⟨v, hv, rfl, hStage⟩ := hIn
      exact ⟨v, mem_restage.mpr ⟨v, hv, (if_neg hOther).symm⟩, rfl, hStage⟩

theorem isInLine_without {gone : Nat} : IsInLine (without workers gone) token ↔
    token ≠ gone ∧ IsInLine workers token := by
  unfold IsInLine
  constructor
  · rintro ⟨v, hv, rfl, hStage⟩
    obtain ⟨hv, hOther⟩ := mem_without.mp hv
    exact ⟨hOther, v, hv, rfl, hStage⟩
  · rintro ⟨hOther, v, hv, rfl, hStage⟩
    exact ⟨v, mem_without.mpr ⟨hv, hOther⟩, rfl, hStage⟩

/-- Every permit is free or with a worker; those who wait for one stand in line, and then none is
free. -/
structure Shared (limit : Nat) (workers : List (Worker g)) (free : Nat) (line : List Nat) :
    Prop where
  count : free + holders workers = permits limit
  nodup : line.Nodup
  waits : ∀ token, token ∈ line ↔ IsInLine workers token
  full : line ≠ [] → free = 0

namespace Shared

variable {limit free : Nat} {line : List Nat}

/-- A worker whose stage is known stands in line exactly if it is that stage. -/
theorem mem_line (h : Shared limit workers free line) (hTokens : (workers.map Worker.token).Nodup)
    (hw : w ∈ workers) : w.token ∈ line ↔ w.stage = .inLine := by
  rw [h.waits]
  refine ⟨?_, fun hStage => ⟨w, hw, rfl, hStage⟩⟩
  rintro ⟨v, hv, hSame, hStage⟩
  rwa [eq_of_token hTokens hv hw hSame] at hStage

theorem append {new : List (Worker g)} (h : Shared limit workers free line)
    (hNew : ∀ w ∈ new, w.stage = .fresh) : Shared limit (workers ++ new) free line where
  count := by
    have hNone : new.countP (fun w => w.stage.hasPermit) = 0 :=
      List.countP_eq_zero.mpr fun w hw => by simp [hNew w hw, Stage.hasPermit]
    rw [holders, List.countP_append, hNone]
    exact h.count
  nodup := h.nodup
  waits token := by
    rw [h.waits]
    constructor
    · rintro ⟨w, hw, hRest⟩
      exact ⟨w, List.mem_append_left _ hw, hRest⟩
    · rintro ⟨w, hw, hToken, hStage⟩
      rcases List.mem_append.mp hw with hw | hw
      · exact ⟨w, hw, hToken, hStage⟩
      · rw [hNew w hw] at hStage
        cases hStage
  full := h.full

section

variable (h : Shared limit workers free line) (hTokens : (workers.map Worker.token).Nodup)
  (hw : w ∈ workers)

include h hTokens hw

/-- A worker with a permit goes on. -/
theorem goOn (hOld : w.stage.hasPermit = true) (hNew : stage.hasPermit = true) :
    Shared limit (restage workers w.token stage) free line where
  count := by
    have hHolders := holders_restage stage hTokens hw
    rw [hOld, hNew] at hHolders
    have := h.count
    omega
  nodup := h.nodup
  waits token := by
    rw [isInLine_restage hw, h.waits]
    split
    · rename_i hSame
      rw [hSame, ← h.waits, h.mem_line hTokens hw]
      have hOut : ∀ {s : Stage}, s.hasPermit = true → s ≠ .inLine := by
        rintro s hPermit rfl
        cases hPermit
      exact iff_of_false (hOut hOld) (hOut hNew)
    · rfl
  full := h.full

/-- A worker asks for a permit and gets one. -/
theorem takeFree (hFresh : w.stage = .fresh) (hFree : 0 < free) :
    Shared limit (restage workers w.token .admitted) (free - 1) line where
  count := by
    have hHolders := holders_restage .admitted hTokens hw
    simp only [hFresh, Stage.hasPermit, if_true, Bool.false_eq_true, if_false] at hHolders
    have := h.count
    omega
  nodup := h.nodup
  waits token := by
    rw [isInLine_restage hw, h.waits]
    split
    · rename_i hSame
      rw [hSame, ← h.waits, h.mem_line hTokens hw, hFresh]
      simp
    · rfl
  full hSome := absurd (h.full hSome) (Nat.ne_of_gt hFree)

/-- A worker asks for a permit and takes its place in the line. -/
theorem queue (hFresh : w.stage = .fresh) (hFree : free = 0) :
    Shared limit (restage workers w.token .inLine) free (line ++ [w.token]) where
  count := by
    have hHolders := holders_restage .inLine hTokens hw
    simp only [hFresh, Stage.hasPermit, Bool.false_eq_true, if_false] at hHolders
    have := h.count
    omega
  nodup := by
    have hNew : w.token ∉ line := by
      rw [h.mem_line hTokens hw, hFresh]
      simp
    exact List.nodup_append.mpr ⟨h.nodup, List.nodup_singleton _, fun a ha b hb hSame =>
      hNew (List.mem_singleton.mp hb ▸ hSame ▸ ha)⟩
  waits token := by
    rw [isInLine_restage hw, List.mem_append, h.waits, List.mem_singleton]
    split
    · rename_i hSame
      simp [hSame]
    · rename_i hOther
      simp [hOther]
  full _ := hFree

/-- A worker with a permit goes, and nobody waits. -/
theorem leave (hPermit : w.stage.hasPermit = true) (hLine : line = []) :
    Shared limit (without workers w.token) (free + 1) line where
  count := by
    have hHolders := holders_without hTokens hw
    rw [hPermit] at hHolders
    have := h.count
    simp only [if_true] at hHolders
    omega
  nodup := h.nodup
  waits token := by
    rw [isInLine_without, ← h.waits, hLine]
    simp
  full hSome := absurd hLine hSome

/-- A worker with a permit goes, and the first in the line gets its permit. -/
theorem passOn (hPermit : w.stage.hasPermit = true) {first : Nat} {rest : List Nat}
    (hLine : line = first :: rest) :
    Shared limit (restage (without workers w.token) first .admitted) free rest := by
  subst hLine
  obtain ⟨hNotLater, hRest⟩ := List.nodup_cons.mp h.nodup
  obtain ⟨u, hu, rfl, hWaits⟩ := (h.waits first).mp (List.mem_cons_self ..)
  have hOther : u.token ≠ w.token := by
    intro hSame
    rw [eq_of_token hTokens hu hw hSame] at hWaits
    rw [hWaits] at hPermit
    cases hPermit
  have hKept : u ∈ without workers w.token := mem_without.mpr ⟨hu, hOther⟩
  have hTokens' : ((without workers w.token).map Worker.token).Nodup :=
    (List.filter_sublist.map _).nodup hTokens
  constructor
  · have hGone := holders_without hTokens hw
    have hHolders := holders_restage .admitted hTokens' hKept
    rw [hPermit, if_pos rfl] at hGone
    simp only [hWaits, Stage.hasPermit, if_true, Bool.false_eq_true, if_false] at hHolders
    have := h.count
    omega
  · exact hRest
  · intro token
    rw [isInLine_restage hKept, isInLine_without, ← h.waits, List.mem_cons]
    split
    · rename_i hSame
      simp [hSame, hNotLater]
    · rename_i hNotFirst
      refine ⟨fun hIn => ⟨?_, .inr hIn⟩, fun hIn => hIn.2.resolve_left hNotFirst⟩
      rintro rfl
      have hInLine := (h.mem_line hTokens hw).mp (List.mem_cons_of_mem _ hIn)
      rw [hInLine] at hPermit
      cases hPermit
  · exact fun _ => h.full (List.cons_ne_nil _ _)

end

end Shared

end Workers

/-! ## Whole runs -/

variable {p : Process} {token : Nat}

theorem worker?_of_mem (hTokens : (p.workers.map Worker.token).Nodup) {w : Worker p.graph}
    (hw : w ∈ p.workers) : p.worker? w.token = some w := by
  obtain ⟨v, hFind⟩ : ∃ v, p.worker? w.token = some v :=
    Option.isSome_iff_exists.mp (List.find?_isSome.mpr ⟨w, hw, decide_eq_true rfl⟩)
  have hSame : v.token = w.token := by simpa using List.find?_some hFind
  rw [hFind, eq_of_token hTokens (List.mem_of_find?_eq_some hFind) hw hSame]

theorem mem_of_worker? {w : Worker p.graph} (h : p.worker? token = some w) :
    w ∈ p.workers ∧ w.token = token :=
  ⟨List.mem_of_find?_eq_some h, by simpa using List.find?_some h⟩

theorem acquire_of_free (h : 0 < p.free) : p.acquire token =
    { p with free := p.free - 1, workers := restage p.workers token .admitted } := if_pos h

theorem acquire_of_full (h : ¬ 0 < p.free) : p.acquire token =
    { p with line := p.line ++ [token], workers := restage p.workers token .inLine } := if_neg h

/-- Whoever asks for a permit has it or stands in line for it. -/
theorem exists_acquire_eq (p : Process) (token : Nat) : ∃ free line stage,
    p.acquire token = { p with free, line, workers := restage p.workers token stage } ∧
      (stage = .admitted ∨ stage = .inLine) := by
  by_cases hFree : 0 < p.free
  · exact ⟨_, p.line, .admitted, acquire_of_free hFree, .inl rfl⟩
  · exact ⟨p.free, _, .inLine, acquire_of_full hFree, .inr rfl⟩

theorem release_of_nil (h : p.line = []) : p.release.1 = { p with free := p.free + 1 } := by
  unfold release
  rw [h]

theorem release_of_cons {first : Nat} {rest : List Nat} (h : p.line = first :: rest) :
    p.release.1 = { p with line := rest, workers := restage p.workers first .admitted } := by
  unfold release
  rw [h]
  rfl

theorem exists_endCall_eq {w : Worker p.graph} (h : p.worker? token = some w) (outcome : Outcome) :
    ∃ inbox, p.endCall token outcome = { p with workers := without p.workers token, inbox } := by
  unfold endCall
  rw [h]
  exact exists_send_eq (p.dropWorker token) _

theorem exists_follow_eq (p : Process) (time : Nat) :
    ∃ scheduler phase, p.follow time = { p with
      scheduler, phase
      workers := p.workers ++ newWorkers p.scheduler.requests
      retries := p.retries ++ newRetries time p.scheduler.requests } := by
  unfold follow
  split
  · exact ⟨_, _, rfl⟩
  · exact ⟨_, _, rfl⟩

theorem fresh_of_mem_newWorkers {g : Graph} {requests : List (Request g)} {w : Worker g}
    (hw : w ∈ newWorkers requests) : w.stage = .fresh := by
  obtain ⟨r, -, hr⟩ := List.mem_filterMap.mp hw
  cases r with
  | call => cases hr; rfl
  | wake => cases hr

/-- The permits of a run are shared among its workers. -/
def IsShared (p : Process) (limit : Nat) : Prop := Shared limit p.workers p.free p.line

theorem isShared_release {limit : Nat}
    (hNil : p.line = [] → Shared limit p.workers (p.free + 1) p.line)
    (hCons : ∀ first rest, p.line = first :: rest →
      Shared limit (restage p.workers first .admitted) p.free rest) : p.release.1.IsShared limit := by
  rcases hLine : p.line with _ | ⟨first, rest⟩
  · rw [release_of_nil hLine]
    exact hNil hLine
  · rw [release_of_cons hLine]
    exact hCons first rest hLine

/-- A worker with a permit goes and gives the permit back, perhaps with a message. -/
inductive Leaves (p : Process) : Process → Prop
  | intro {w : Worker p.graph} (hw : w ∈ p.workers) (hPermit : w.stage.hasPermit = true)
      (inbox : List (Message p.graph)) :
      Leaves p ({ p with workers := without p.workers w.token, inbox } : Process).release.1

theorem leaves_giveUp {w : Worker p.graph} (hWorker : p.worker? token = some w)
    (hStage : w.stage = .admitted) : p.Leaves (p.dropWorker token).release.1 := by
  obtain ⟨hw, rfl⟩ := mem_of_worker? hWorker
  exact .intro hw (hStage ▸ rfl) p.inbox

theorem leaves_finish {w : Worker p.graph} {call : OpenCall} (hWorker : p.worker? token = some w)
    (hOpen : w.stage.call? = some call) (outcome : Outcome) :
    p.Leaves (p.endCall token outcome).release.1 := by
  obtain ⟨inbox, hEnd⟩ := exists_endCall_eq hWorker outcome
  obtain ⟨hw, rfl⟩ := mem_of_worker? hWorker
  rw [hEnd]
  exact .intro hw (Stage.hasPermit_of_call? hOpen) inbox

theorem Leaves.shared {limit : Nat} {q : Process} (hTokens : (p.workers.map Worker.token).Nodup)
    (hLeaves : p.Leaves q) (h : p.IsShared limit) : q.IsShared limit := by
  cases hLeaves with
  | intro hw hPermit inbox =>
    exact isShared_release (fun hLine => h.leave hTokens hw hPermit hLine)
      fun first rest hLine => h.passOn hTokens hw hPermit hLine

theorem Step.shared {limit : Nat} {q : Process} (hTokens : (p.workers.map Worker.token).Nodup)
    (hStep : p.Step q) (h : p.IsShared limit) : q.IsShared limit := by
  -- tokens tell the workers apart, so what one of them does leaves the permits of all others
  cases hStep with
  | command c =>
    obtain ⟨_, hSend⟩ := p.exists_send_eq (.command c)
    exact hSend ▸ h
  | launch now time hFresh =>
    obtain ⟨_, _, hFollow⟩ := exists_follow_eq (p.launch now) time
    rw [hFollow]
    exact h.append fun _ => fresh_of_mem_newWorkers
  | read now time hLive hOpen hMore hInbox =>
    rw [readMessage_of_inbox hInbox]
    obtain ⟨_, _, hFollow⟩ := exists_follow_eq { p with
      inbox := _
      scheduler := Process.handle { p.scheduler with now } _ } time
    rw [hFollow]
    exact h.append fun _ => fresh_of_mem_newWorkers
  | conclude | close | lose | inform => exact h
  | retry step now =>
    obtain ⟨_, _, hDeliver⟩ := p.exists_deliverRetry_eq step now
    exact hDeliver ▸ h
  | acquire hWorker hStage =>
    obtain ⟨hw, rfl⟩ := mem_of_worker? hWorker
    by_cases hFree : 0 < p.free
    · rw [acquire_of_free hFree]
      exact h.takeFree hTokens hw hStage hFree
    · rw [acquire_of_full hFree]
      exact h.queue hTokens hw hStage (Nat.eq_zero_of_not_pos hFree)
  | enter hEnters =>
    cases hEnters with
    | intro hWorker hStage =>
      obtain ⟨hw, rfl⟩ := mem_of_worker? hWorker
      exact h.goOn hTokens hw (hStage ▸ rfl) rfl
  | goOn hWorker hOpen hStage =>
    obtain ⟨hw, rfl⟩ := mem_of_worker? hWorker
    exact h.goOn hTokens hw (Stage.hasPermit_of_call? hOpen) (Stage.hasPermit_of_call? hStage)
  | giveUp hWorker hStage => exact (leaves_giveUp hWorker hStage).shared hTokens h
  | finish outcome hWorker hOpen => exact (leaves_finish hWorker hOpen outcome).shared hTokens h

theorem Reached.shared {g : Graph} (hg : g.Sound) {limit : Nat} (h : Reached g limit p) :
    p.IsShared limit := by
  induction h with
  | start =>
    refine ⟨rfl, List.nodup_nil, fun token => iff_of_false List.not_mem_nil ?_, nofun⟩
    rintro ⟨w, hw, -⟩
    cases hw
  | step hBefore hStep ih => exact hStep.shared (hBefore.tokens hg) ih

/-! ## The line moves on -/

/-- When a worker gives its permit back, the first in the line gets it, and the others stay. -/
theorem Leaves.line {q : Process} (hTokens : (p.workers.map Worker.token).Nodup)
    (hLeaves : p.Leaves q) {first : Nat} {rest : List Nat} (hLine : p.line = first :: rest) :
    q.line = rest ∧ ∀ w ∈ p.workers, w.stage = .inLine → ∃ v ∈ q.workers, v.token = w.token ∧
      v.limit = w.limit ∧ v.stage = if w.token = first then .admitted else .inLine := by
  cases hLeaves with
  | intro hw hPermit inbox =>
    rename_i k
    rw [release_of_cons (p := { p with workers := without p.workers k.token, inbox }) hLine]
    refine ⟨rfl, fun w hIn hWaits => ?_⟩
    have hOther : w.token ≠ k.token := by
      intro hSame
      rw [← eq_of_token hTokens hIn hw hSame, hWaits] at hPermit
      cases hPermit
    refine ⟨_, mem_restage.mpr ⟨w, mem_without.mpr ⟨hIn, hOther⟩, rfl⟩, ?_⟩
    by_cases hFirst : w.token = first
    · simp [hFirst]
    · simp [hFirst, hWaits]

/-- As long as somebody stands in line, somebody has a permit and can give it back. -/
theorem Reached.passes {g : Graph} (hg : g.Sound) {limit : Nat} (h : Reached g limit p) {first : Nat}
    {rest : List Nat} (hLine : p.line = first :: rest) :
    ∃ q, Steps p q ∧ q.line = rest ∧ ∀ w ∈ p.workers, w.stage = .inLine → ∃ v ∈ q.workers,
      v.token = w.token ∧ v.limit = w.limit ∧
        v.stage = if w.token = first then .admitted else .inLine := by
  have hTokens := h.tokens hg
  have hShared := h.shared hg
  have hFree : p.free = 0 := hShared.full (by simp [hLine])
  have hSome : 0 < holders p.workers := by
    have hCount := hShared.count
    have : 1 ≤ permits limit := Nat.le_max_left 1 limit
    omega
  obtain ⟨k, hk, hPermit⟩ := List.countP_pos_iff.mp hSome
  have hWorker := worker?_of_mem hTokens hk
  by_cases hCall : ∃ call, k.stage.call? = some call
  · obtain ⟨call, hCall⟩ := hCall
    have hLeaves := leaves_finish hWorker hCall (.ok [])
    exact ⟨_, .single (.finish (.ok []) hWorker hCall), hLeaves.line hTokens hLine⟩
  · have hAdmitted : k.stage = .admitted := by
      cases hStage : k.stage <;> simp_all [Stage.hasPermit, Stage.call?]
    by_cases hLimit : k.CanCall
    · -- it makes its call, which comes to an end
      have hEnter : p.Step (p.setStage k.token (.asleep 0 ⟨false, .panic, none⟩)) :=
        .enter (.intro hWorker hAdmitted hLimit)
      have hTokens' := (h.step hEnter).tokens hg
      have hk' : { k with stage := .asleep 0 ⟨false, .panic, none⟩ } ∈
          (p.setStage k.token (.asleep 0 ⟨false, .panic, none⟩)).workers :=
        mem_restage.mpr ⟨k, hk, (if_pos rfl).symm⟩
      have hWorker' := worker?_of_mem hTokens' hk'
      have hLeaves := leaves_finish hWorker' rfl (.ok [])
      obtain ⟨hRest, hOthers⟩ := hLeaves.line hTokens' hLine
      refine ⟨_, .tail (.single hEnter) (.finish (.ok []) hWorker' rfl), hRest, fun w hw hWaits => ?_⟩
      refine hOthers w (mem_restage.mpr ⟨w, hw, (if_neg fun hSame => ?_).symm⟩) hWaits
      rw [eq_of_token hTokens hw hk hSame, hAdmitted] at hWaits
      cases hWaits
    · have hLeaves := leaves_giveUp hWorker hAdmitted
      exact ⟨_, .single (.giveUp hWorker hAdmitted hLimit), hLeaves.line hTokens hLine⟩

/-- Everybody in line can come to a permit. -/
theorem Reached.admits {g : Graph} (hg : g.Sound) {limit : Nat} (h : Reached g limit p)
    {w : Worker p.graph} (hw : w ∈ p.workers) (hWaits : w.stage = .inLine) :
    ∃ q, Steps p q ∧ ∃ v ∈ q.workers, v.token = w.token ∧ v.limit = w.limit ∧
      v.stage = .admitted := by
  have hIn : w.token ∈ p.line := ((h.shared hg).mem_line (h.tokens hg) hw).mpr hWaits
  generalize hLine : p.line = line at hIn
  induction line generalizing p with
  | nil => cases hIn
  | cons first rest ih =>
    obtain ⟨q, hSteps, hRest, hOthers⟩ := h.passes hg hLine
    obtain ⟨v, hv, hToken, hLimit, hStage⟩ := hOthers w hw hWaits
    by_cases hFirst : w.token = first
    · rw [if_pos hFirst] at hStage
      exact ⟨q, hSteps, v, hv, hToken, hLimit, hStage⟩
    · rw [if_neg hFirst] at hStage
      have hLater : v.token ∈ rest := hToken ▸ (List.mem_cons.mp hIn).resolve_left hFirst
      obtain ⟨r, hMore, u, hu, hSame, hSameLimit, hAdmitted⟩ :=
        ih (h.steps hSteps) hv hStage hRest hLater
      exact ⟨r, hSteps.trans hMore, u, hu, hSame.trans hToken, hSameLimit.trans hLimit, hAdmitted⟩

end Process

end Workflow

/-
Workflow.Proofs.Run.Shell — a scheduler without its steps.

Most of what a scheduler does is about single steps: it changes their
results, what they are listed as, the variables that they give and what is
remembered of them. Nothing else depends on that. Beside its steps a
scheduler knows how the run stands, what it has asked for and whether it
has crashed, and of these a move changes little.

* `Shell` — what a scheduler has beside its steps and the variables.
* `Scheduler.shell_enter`, `shell_resetBody`, `shell_abandonLoop`,
  `shell_substitute`, `shell_applyRecovery` — what changes of steps leave
  alone.
* `Scheduler.Move.shell_cases` — a move asks for something or crashes at
  most, or the run fails at a step.
-/
import Workflow.Proofs.Run.Move

namespace Workflow

/-- What a scheduler has beside its steps and the variables. -/
structure Shell (g : Graph) where
  runId : String
  status : RunStatus
  error : Option RunFailure
  completedAt : Option Instant
  paused : Bool
  running : Nat
  lastToken : Nat
  requests : List (Request g)
  crashed : Bool
  now : Instant

variable {g : Graph}

/-- The run fails. -/
def Shell.failing (v : Shell g) (f : RunFailure) : Shell g :=
  { v with status := .failed, error := some f, completedAt := some v.now }

namespace Scheduler

/-- A scheduler without its steps. -/
def shell (s : Scheduler g) : Shell g where
  runId := s.state.runId
  status := s.state.status
  error := s.state.error
  completedAt := s.state.completedAt
  paused := s.paused
  running := s.running
  lastToken := s.lastToken
  requests := s.requests
  crashed := s.crashed
  now := s.now

/-! ## Changes of steps -/

section

variable (s : Scheduler g) (i : g.Index)

@[simp] theorem shell_mapControl (change : Control g → Control g) :
    (s.mapControl i change).shell = s.shell := rfl

@[simp] theorem shell_mapResult (change : StepResult → StepResult) :
    (s.mapState fun st => st.mapResult i change).shell = s.shell := rfl

@[simp] theorem shell_setStatus (status : StepStatus) : (s.setStatus i status).shell = s.shell := rfl

@[simp] theorem shell_begin : (s.begin i).shell = s.shell := rfl

@[simp] theorem shell_complete (output : Json) : (s.complete i output).shell = s.shell := rfl

@[simp] theorem shell_recordFailure (error : StepError) :
    (s.recordFailure i error).shell = s.shell := rfl

@[simp] theorem shell_skip : (s.skip i).shell = s.shell := rfl

@[simp] theorem shell_restart : (s.restart i).shell = s.shell := by
  unfold restart
  rfl

@[simp] theorem shell_markRecovered (handler : g.Index) :
    (s.markRecovered i handler).shell = s.shell := rfl

@[simp] theorem shell_substitute (value : Json) : (s.substitute i value).shell = s.shell := by
  unfold substitute
  dsimp only
  split <;> rfl

@[simp] theorem shell_completeLoop (iterations : List Iteration) :
    (s.completeLoop i iterations).shell = s.shell := by
  simp [completeLoop]

theorem shell_foldl (change : Scheduler g → g.Index → Scheduler g)
    (h : ∀ s i, (change s i).shell = s.shell) (steps : List g.Index) :
    (steps.foldl change s).shell = s.shell :=
  foldl_keeps (P := fun t => t.shell = s.shell) (fun t i hSame => (h t i).trans hSame) steps rfl

@[simp] theorem shell_resetBody : (s.resetBody i).shell = s.shell :=
  shell_foldl s resetMember (fun _ _ => rfl) (g.body i)

@[simp] theorem shell_abandonLoop : (s.abandonLoop i).shell = s.shell :=
  abandonLoop_keeps (P := fun t => t.shell = s.shell)
    (fun t i change h => (t.shell_mapControl i change).trans h)
    (fun t i h => (t.shell_skip i).trans h) rfl

theorem shell_enter : s.enter.shell = s.shell := shell_foldl s skip (fun _ _ => rfl) g.orphans

/-- A recovery changes steps alone, or it stops the run and blames the step it was for. -/
theorem shell_applyRecovery (handler : g.Index) (a : Activation g) :
    (s.applyRecovery handler a).shell = s.shell ∨ g.recovery? handler = some .stop ∧
      ∃ message, (s.applyRecovery handler a).shell =
        s.shell.failing ⟨some (g.idOf a.failed), message⟩ := by
  have hRecovers := s.recovers handler a
  generalize s.applyRecovery handler a = t at hRecovers
  cases hRecovers with
  | unset => exact .inl rfl
  | skipped | restarted | substituted => exact .inl (by simp)
  | stopped hAction => exact .inr ⟨hAction, _, rfl⟩

end

/-! ## Moves -/

/-- A move asks for something or crashes at most, and leaves alone how the run stands. Or else the run
fails at a step. -/
theorem Move.shell_cases {hand hand' : Hand g} {s s' : Scheduler g} (hMove : Move hand s hand' s') :
    (∃ running lastToken requests crashed,
      s'.shell = { s.shell with running, lastToken, requests, crashed }) ∨
    ∃ i message, s'.shell = s.shell.failing ⟨some (g.idOf i), message⟩ := by
  have hLeft (h : s'.shell = s.shell) : ∃ running lastToken requests crashed,
      s'.shell = { s.shell with running, lastToken, requests, crashed } :=
    ⟨s.running, s.lastToken, s.requests, s.crashed, h⟩
  cases hMove with
  | call _ hInput =>
    simp only [dispatch, hInput]
    exact .inl ⟨_, _, _, _, rfl⟩
  | crash => exact .inl ⟨_, _, _, _, rfl⟩
  | recover hOwes =>
    rename_i i a output
    rcases shell_applyRecovery ((s.complete i output).mapControl i fun c =>
      { c with activation := none }) i a with hSame | ⟨-, message, hFails⟩
    · exact .inl (hLeft (by simpa using hSame))
    · exact .inr ⟨a.failed, message, by simpa using hFails⟩
  | retry hRetry =>
    obtain ⟨-, -, rfl⟩ := eq_of_retryLater? hRetry
    exact .inl ⟨_, _, _, _, rfl⟩
  | failRun => exact .inr ⟨_, _, rfl⟩
  | _ => exact .inl (hLeft (by simp))

end Scheduler

end Workflow

/-
Workflow.Executor.Basic — what does the work of a step.

An executor takes one attempt of a step and gives an output or refuses. A
registry has an executor for each of some kinds of steps.

* `Invocation` — one attempt of a step, as an executor sees it.
* `ExecutionFault` — why an executor gives no output.
* `Registry` — executors by kind of step.
-/
import Workflow.Definition.Step

namespace Workflow

/-- One attempt of a step, as an executor sees it. -/
structure Invocation where
  runId : String
  stepId : String
  kind : StepKind
  input : Dict Json
  config : Json
  /-- The number of the attempt, from one. -/
  attempt : Nat
deriving DecidableEq, Repr

/-- Why an executor gives no output. -/
inductive ExecutionFault where
  | failed (message : String)
  | invalidInput (message : String)
  | unsupported (kind : StepKind)
deriving DecidableEq, Repr

/-- The wording of a fault. -/
def ExecutionFault.message : ExecutionFault → String
  | .failed message => message
  | .invalidInput message => "Invalid input: " ++ message
  | .unsupported kind => "No executor registered for step kind " ++ kind.name

/-- What does the work of a step. -/
abbrev Executor := Invocation → Except ExecutionFault (Dict Json)

/-- The executor that gives back its input. -/
def Executor.echo : Executor := fun call => .ok call.input

/-- Executors by kind of step; of two for one kind the first counts. -/
structure Registry where
  entries : List (StepKind × Executor)

namespace Registry

/-- No executors. -/
def empty : Registry := ⟨[]⟩

/-- Have an executor do the work of a kind. -/
def register (r : Registry) (kind : StepKind) (e : Executor) : Registry :=
  ⟨(kind, e) :: r.entries⟩

/-- The executor of a kind. -/
def executor? (r : Registry) (kind : StepKind) : Option Executor :=
  (r.entries.find? fun (k, _) => k = kind).map (·.2)

/-- The kinds that have an executor, in order. -/
def kinds (r : Registry) : List StepKind :=
  StepKind.all.filter fun k => (r.executor? k).isSome

/-- Have the executor of its kind do the work of a step. -/
def execute (r : Registry) : Executor := fun call =>
  match r.executor? call.kind with
  | some e => e call
  | none => .error (.unsupported call.kind)

/-- An echo for each kind that an executor works for. -/
def builtins : Registry :=
  (StepKind.all.filter StepKind.isExecutable).foldl (fun r k => r.register k .echo) empty

end Registry

end Workflow

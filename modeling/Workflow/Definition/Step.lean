/-
Workflow.Definition.Step — definitions of steps.

A step has a kind and the settings of that kind: the branches of a
condition, the collection and the body of a loop, the recovery of an error
handler. Every step may name the steps it depends on.

* `StepKind` — what a step is.
* `LoopConfig`, `RetryPolicy`, `ErrorConfig` — settings.
* `Step` — a definition; `Step.references` lists the steps it names.
-/
import Workflow.Json.Value
import Workflow.Time.Duration

namespace Workflow

/-- What a step is. -/
inductive StepKind where
  | start
  | finish
  | agent
  | action
  | condition
  | loop
  | errorHandler
deriving DecidableEq, Repr

namespace StepKind

/-- All kinds, in order. -/
def all : List StepKind := [.start, .finish, .agent, .action, .condition, .loop, .errorHandler]

/-- The name of a kind. -/
def name : StepKind → String
  | .start => "Start"
  | .finish => "End"
  | .agent => "Agent"
  | .action => "Action"
  | .condition => "Condition"
  | .loop => "Loop"
  | .errorHandler => "ErrorHandler"

/-- The names that a kind may be given by. -/
def spellings : StepKind → List String
  | .start => ["Start", "start"]
  | .finish => ["End", "end"]
  | .agent => ["Agent", "agent"]
  | .action => ["Action", "action"]
  | .condition => ["Condition", "condition"]
  | .loop => ["Loop", "loop"]
  | .errorHandler => ["ErrorHandler", "error_handler", "errorHandler"]

/-- The kind with a given name. -/
def ofSpelling? (s : String) : Option StepKind := all.find? fun k => k.spellings.contains s

/-- Whether an executor does the work of the steps of a kind. -/
def isExecutable : StepKind → Bool
  | .agent | .action | .errorHandler => true
  | _ => false

end StepKind

/-- Settings of a loop: the items it runs over and the first step of its body. -/
structure LoopConfig where
  collectionExpr : String
  maxIterations : Nat
  body : String
deriving DecidableEq, Repr

/-- How often a failed step is tried again, and how long it waits before. -/
structure RetryPolicy where
  maxRetries : Nat
  initialDelay : Duration
  maxDelay : Duration
  backoffMultiplier : Number.Bits64
deriving DecidableEq, Repr

namespace RetryPolicy

/-- The wait before the first retry, unless given. -/
def defaultInitialDelay : Duration := Duration.ofSeconds 1

/-- The longest wait, unless given. -/
def defaultMaxDelay : Duration := Duration.ofSeconds 60

/-- The factor from one wait to the next, unless given. -/
def defaultBackoff : Number.Bits64 := .two

/-- The policy of steps without one: no retries. -/
def standard : RetryPolicy := ⟨0, defaultInitialDelay, defaultMaxDelay, defaultBackoff⟩

end RetryPolicy

/-- What an error handler does with the failed step once the handler has run. -/
inductive RecoveryAction where
  | continueRun
  | retry
  | fallback
  | stop
deriving DecidableEq, Repr

namespace RecoveryAction

/-- The name of a recovery. -/
def name : RecoveryAction → String
  | .continueRun => "continue"
  | .retry => "retry"
  | .fallback => "fallback"
  | .stop => "stop"

/-- The recovery with a given name. -/
def ofName? (s : String) : Option RecoveryAction :=
  [continueRun, retry, fallback, stop].find? fun a => a.name == s

end RecoveryAction

/-- Settings of an error handler. An empty filter catches every error. -/
structure ErrorConfig where
  errorTypeFilter : List String
  recoveryAction : RecoveryAction
  fallbackValue : Option Json
deriving DecidableEq, Repr

/-- The definition of a step. -/
structure Step where
  id : String
  name : Option String
  kind : StepKind
  dependsOn : List String
  inputMapping : Dict String
  condition : Option String
  trueBranch : Option String
  falseBranch : Option String
  loopConfig : Option LoopConfig
  retryPolicy : Option RetryPolicy
  errorConfig : Option ErrorConfig
  timeout : Option Duration
  config : Json
deriving DecidableEq, Repr

namespace Step

/-- The name to show: the given one, or the id. -/
def displayName (s : Step) : String := s.name.getD s.id

/-- A field of a definition that names another step. -/
inductive ReferenceField where
  | dependsOn
  | trueBranch
  | falseBranch
  | loopBody
deriving DecidableEq, Repr

/-- The name of a field as it is written. -/
def ReferenceField.name : ReferenceField → String
  | .dependsOn => "dependsOn"
  | .trueBranch => "trueBranch"
  | .falseBranch => "falseBranch"
  | .loopBody => "loopConfig.body"

/-- The steps that a definition names, with the fields that name them. -/
def references (s : Step) : List (ReferenceField × String) :=
  s.dependsOn.map (ReferenceField.dependsOn, ·) ++
    (s.trueBranch.map (ReferenceField.trueBranch, ·)).toList ++
    (s.falseBranch.map (ReferenceField.falseBranch, ·)).toList ++
    (s.loopConfig.map fun c => (ReferenceField.loopBody, c.body)).toList

/-- The policy of a step: its own, or no retries. -/
def policy (s : Step) : RetryPolicy := s.retryPolicy.getD RetryPolicy.standard

end Step

end Workflow

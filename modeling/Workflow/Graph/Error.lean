/-
Workflow.Graph.Error — why step definitions form no graph.

* `ConfigFault` — what is wrong with the settings of a step.
* `LoopBodyFault` — what is wrong with a step in the body of a loop.
* `CompileError` — the errors; `CompileError.message` is their wording.
-/
import Workflow.Definition.Step
import Workflow.Text.Quoted

namespace Workflow

/-- What is wrong with the settings of a step. -/
inductive ConfigFault where
  | straySettings
  | strayLoop
  | strayHandler
  | noCondition
  | sameBranches
  | noLoopConfig
  | noCollection
  | noIterations
  | ownBody
  | noErrorConfig
  | guardsNothing
  | shrinkingBackoff
  | delaysOutOfOrder
deriving DecidableEq, Repr

/-- The wording of a fault. -/
def ConfigFault.message : ConfigFault → String
  | .straySettings => "condition and branches are only valid on Condition steps"
  | .strayLoop => "loopConfig is only valid on Loop steps"
  | .strayHandler => "errorConfig is only valid on ErrorHandler steps"
  | .noCondition => "Condition step requires a condition expression"
  | .sameBranches => "trueBranch and falseBranch must be different steps"
  | .noLoopConfig => "Loop step requires loopConfig"
  | .noCollection => "loopConfig.collectionExpr cannot be empty"
  | .noIterations => "loopConfig.maxIterations must be greater than 0"
  | .ownBody => "a loop cannot be its own body"
  | .noErrorConfig => "ErrorHandler step requires errorConfig"
  | .guardsNothing => "ErrorHandler step must list the steps it guards in dependsOn"
  | .shrinkingBackoff => "retryPolicy.backoffMultiplier must be at least 1.0"
  | .delaysOutOfOrder => "retryPolicy.maxDelay must not be shorter than initialDelay"

/-- What is wrong with a step in the body of a loop. -/
inductive LoopBodyFault where
  | noBody
  | startOrEnd
  | nestedLoop
  | dependsOutside (source : String)
  | guarded
deriving DecidableEq, Repr

/-- The wording of a fault. -/
def LoopBodyFault.message : LoopBodyFault → String
  | .noBody => "loop has no body step"
  | .startOrEnd => "Start and End cannot be inside a loop body"
  | .nestedLoop => "loops cannot be nested"
  | .dependsOutside source =>
    "body steps may only depend on the loop or other body steps, found '" ++ source ++ "'"
  | .guarded => "error handlers cannot guard loop body steps; guard the loop instead"

/-- Why step definitions form no graph. -/
inductive CompileError where
  | duplicateStep (step : String)
  | invalidStep (step : String) (fault : ConfigFault)
  | danglingReference (step : String) (field : Step.ReferenceField) (target : String)
  | missingStart
  | multipleStart (steps : List String)
  | startHasDependencies (step : String)
  | missingEnd (start : String)
  | cycle (path : List String)
  | orphanSteps (steps : List String)
  | invalidLoopBody (loop step : String) (fault : LoopBodyFault)
deriving DecidableEq, Repr

/-- The wording of an error. -/
def CompileError.message : CompileError → String
  | .duplicateStep step => "Duplicate step id: " ++ step
  | .invalidStep step fault =>
    "Invalid configuration for step '" ++ step ++ "': " ++ fault.message
  | .danglingReference step field target =>
    "Step '" ++ step ++ "' references unknown step '" ++ target ++ "' in " ++ field.name
  | .missingStart => "Workflow has no Start step"
  | .multipleStart steps => "Workflow has more than one Start step: " ++ Text.quotedList steps
  | .startHasDependencies step => "Start step '" ++ step ++ "' must not declare dependencies"
  | .missingEnd start => "No End step is reachable from Start step '" ++ start ++ "'"
  | .cycle path => "Cycle detected: " ++ String.intercalate " -> " path
  | .orphanSteps steps => "Steps unreachable from Start: " ++ Text.quotedList steps
  | .invalidLoopBody loop step fault =>
    "Invalid body for loop '" ++ loop ++ "' at step '" ++ step ++ "': " ++ fault.message

end Workflow

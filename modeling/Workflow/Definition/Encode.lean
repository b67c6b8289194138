/-
Workflow.Definition.Encode — definitions as JSON values.

A definition is written with its defaults filled in and its empty optional
parts left out. Durations are written as counts of units.

* `Step.encode`, `Definition.encode` — the value of a definition.
* `Definition.toText` — the text of a definition in one of the two forms.
-/
import Workflow.Definition.Basic
import Workflow.Json.Writer
import Workflow.Yaml.Writer

namespace Workflow

/-- An entry that is left out when there is nothing to write. -/
def optionalEntry (key : String) (value : Option Json) : List (String × Json) :=
  match value with
  | some v => [(key, v)]
  | none => []

/-- A list of texts. -/
def textsJson (texts : List String) : Json := .arr (texts.map .str)

/-- A duration. -/
def Duration.encode (d : Duration) : Json := .str d.write

/-- The settings of a loop. -/
def LoopConfig.encode (c : LoopConfig) : Json :=
  .obj [("collectionExpr", .str c.collectionExpr), ("maxIterations", Json.ofNat c.maxIterations),
    ("body", .str c.body)]

/-- A retry policy. -/
def RetryPolicy.encode (p : RetryPolicy) : Json :=
  .obj [("maxRetries", Json.ofNat p.maxRetries), ("initialDelay", p.initialDelay.encode),
    ("maxDelay", p.maxDelay.encode),
    ("backoffMultiplier", Json.ofFloat p.backoffMultiplier.toFloat)]

/-- The settings of an error handler. -/
def ErrorConfig.encode (c : ErrorConfig) : Json :=
  .obj ([("errorTypeFilter", textsJson c.errorTypeFilter),
    ("recoveryAction", .str c.recoveryAction.name)] ++
    optionalEntry "fallbackValue" c.fallbackValue)

/-- Something unless it is empty. -/
def unlessEmpty {α : Type} (items : List α) (v : Json) : Option Json :=
  if items.isEmpty then none else some v

/-- A step. -/
def Step.encode (s : Step) : Json :=
  .obj ([("id", .str s.id)] ++
    optionalEntry "name" (s.name.map .str) ++
    [("kind", .str s.kind.name)] ++
    optionalEntry "dependsOn" (unlessEmpty s.dependsOn (textsJson s.dependsOn)) ++
    optionalEntry "inputMapping" (unlessEmpty s.inputMapping
      (.obj (s.inputMapping.map fun (k, v) => (k, .str v)))) ++
    optionalEntry "condition" (s.condition.map .str) ++
    optionalEntry "trueBranch" (s.trueBranch.map .str) ++
    optionalEntry "falseBranch" (s.falseBranch.map .str) ++
    optionalEntry "loopConfig" (s.loopConfig.map LoopConfig.encode) ++
    optionalEntry "retryPolicy" (s.retryPolicy.map RetryPolicy.encode) ++
    optionalEntry "errorConfig" (s.errorConfig.map ErrorConfig.encode) ++
    optionalEntry "timeout" (s.timeout.map Duration.encode) ++
    (match s.config with
      | .null => []
      | v => [("config", v)]))

/-- The settings of a workflow. -/
def Settings.encode (s : Settings) : Json :=
  .obj (optionalEntry "maxConcurrentSteps" (s.maxConcurrentSteps.map Json.ofNat) ++
    optionalEntry "stepTimeout" (s.stepTimeout.map Duration.encode))

/-- A workflow. -/
def Definition.encode (w : Definition) : Json :=
  .obj (optionalEntry "id" (w.id.map .str) ++
    [("name", .str w.name)] ++
    optionalEntry "description" (w.description.map .str) ++
    [("version", .str w.version)] ++
    optionalEntry "variables" (unlessEmpty w.vars (.obj w.vars)) ++
    [("steps", .arr (w.steps.map Step.encode))] ++
    optionalEntry "settings" (w.settings.map Settings.encode))

/-- The text of a definition in a form. -/
def Definition.toText (w : Definition) (format : Format) : String :=
  match format with
  | .json => w.encode.pretty
  | .yaml => Yaml.write w.encode

end Workflow

/-
Workflow.Definition.Decode — definitions from documents.

Decoders read a document as a definition. Fields that a definition does
not know are passed over; a field that stands twice is refused, also under
two names. JSON may give a record as the list of its fields, YAML may not.

* `Step.decode?`, `Definition.decode?` — from documents.
* `Definition.parse` — from text in one of the two forms.
* `Definition.ofJson`, `Step.listOfJson?` — from values.
-/
import Workflow.Definition.Basic
import Workflow.Document.Basic
import Workflow.Json.Reader
import Workflow.Yaml.Reader

namespace Workflow

open Document

/-- A kind, by one of its names. -/
def StepKind.decode? (d : Document) : Option StepKind := d.asChoice?.bind StepKind.ofSpelling?

/-- A recovery, by its name. -/
def RecoveryAction.decode? (d : Document) : Option RecoveryAction :=
  d.asChoice?.bind RecoveryAction.ofName?

/-- A duration, by its text. -/
def Duration.decode? (d : Document) : Option Duration := d.asText?.bind Duration.read?

/-- Counts of iterations and steps stay below this bound. -/
def countBound : Nat := Nat.pow 2 64

/-- Counts of retries stay below this bound. -/
def retryBound : Nat := Nat.pow 2 32

/-- The settings of a loop. -/
def LoopConfig.decode? (positional : Bool) (d : Document) : Option LoopConfig := do
  match ← d.fields? positional [["collectionExpr"], ["maxIterations"], ["body"]] with
  | [collection, iterations, body] =>
    let collectionExpr ← required? collection asText?
    let maxIterations ← defaulted? iterations 1000 (asNatBelow? countBound)
    let body ← required? body asText?
    return { collectionExpr, maxIterations, body }
  | _ => none

/-- A retry policy. -/
def RetryPolicy.decode? (positional : Bool) (d : Document) : Option RetryPolicy := do
  match ← d.fields? positional
    [["maxRetries"], ["initialDelay"], ["maxDelay"], ["backoffMultiplier"]] with
  | [retries, initial, greatest, backoff] =>
    let maxRetries ← defaulted? retries 0 (asNatBelow? retryBound)
    let initialDelay ← defaulted? initial RetryPolicy.defaultInitialDelay Duration.decode?
    let maxDelay ← defaulted? greatest RetryPolicy.defaultMaxDelay Duration.decode?
    let backoffMultiplier ← defaulted? backoff RetryPolicy.defaultBackoff
      fun d => (asFloat? d).map Number.Bits64.ofFloat
    return { maxRetries, initialDelay, maxDelay, backoffMultiplier }
  | _ => none

/-- The settings of an error handler. -/
def ErrorConfig.decode? (positional : Bool) (d : Document) : Option ErrorConfig := do
  match ← d.fields? positional [["errorTypeFilter"], ["recoveryAction"], ["fallbackValue"]] with
  | [filter, action, value] =>
    let errorTypeFilter ← defaulted? filter [] (asListOf? asText?)
    let recoveryAction ← required? action RecoveryAction.decode?
    let fallbackValue ← optional? value toJson?
    return { errorTypeFilter, recoveryAction, fallbackValue }
  | _ => none

/-- The fields of a step, in order. -/
def Step.fieldNames : List (List String) :=
  [["id"], ["name"], ["kind", "type"], ["dependsOn"], ["inputMapping"], ["condition"],
    ["trueBranch"], ["falseBranch"], ["loopConfig"], ["retryPolicy"], ["errorConfig"],
    ["timeout"], ["config"]]

/-- A step. -/
def Step.decode? (positional : Bool) (d : Document) : Option Step := do
  match ← d.fields? positional Step.fieldNames with
  | [id, name, kind, dependsOn, inputMapping, condition, trueBranch, falseBranch, loopConfig,
      retryPolicy, errorConfig, timeout, config] =>
    return {
      id := ← required? id asText?
      name := ← optional? name asText?
      kind := ← required? kind StepKind.decode?
      dependsOn := ← defaulted? dependsOn [] (asListOf? asText?)
      inputMapping := ← defaulted? inputMapping [] (asDictOf? asText?)
      condition := ← optional? condition asText?
      trueBranch := ← optional? trueBranch asText?
      falseBranch := ← optional? falseBranch asText?
      loopConfig := ← optional? loopConfig (LoopConfig.decode? positional)
      retryPolicy := ← optional? retryPolicy (RetryPolicy.decode? positional)
      errorConfig := ← optional? errorConfig (ErrorConfig.decode? positional)
      timeout := ← optional? timeout Duration.decode?
      config := ← defaulted? config .null toJson? }
  | _ => none

/-- The settings of a workflow. -/
def Settings.decode? (positional : Bool) (d : Document) : Option Settings := do
  match ← d.fields? positional [["maxConcurrentSteps"], ["stepTimeout"]] with
  | [steps, timeout] =>
    let maxConcurrentSteps ← optional? steps (asNatBelow? countBound)
    let stepTimeout ← optional? timeout Duration.decode?
    return { maxConcurrentSteps, stepTimeout }
  | _ => none

/-- A workflow. -/
def Definition.decode? (positional : Bool) (d : Document) : Option Definition := do
  match ← d.fields? positional
    [["id"], ["name"], ["description"], ["version"], ["variables"], ["steps"], ["settings"]] with
  | [id, name, description, version, vars, steps, settings] =>
    return {
      id := ← optional? id asText?
      name := ← required? name asText?
      description := ← optional? description asText?
      version := ← defaulted? version Definition.defaultVersion asText?
      vars := ← defaulted? vars [] (asDictOf? toJson?)
      steps := ← required? steps (asListOf? (Step.decode? positional))
      settings := ← optional? settings (Settings.decode? positional) }
  | _ => none

/-- The document of a text; what is nested too deep is unreadable. -/
def Format.readDocument? (format : Format) (text : String) : Option Document :=
  match format with
  | .json => (Json.readDocument? text).map (Document.within Json.depthLimit)
  | .yaml => Yaml.readDocument? text

/-- The error of a text that is no definition in a form. -/
def Format.error : Format → DefinitionError
  | .json => .badJson
  | .yaml => .badYaml

/-- The definition that a document in a form gives, if it gives one with the right structure. -/
def Definition.ofDocument (format : Format) (d : Option Document) :
    Except DefinitionError Definition :=
  match d.bind (Definition.decode? (format = .json)) with
  | none => .error format.error
  | some w =>
    match w.structureError? with
    | some e => .error e
    | none => .ok w

/-- The definition of a text in a form. -/
def Definition.parse (format : Format) (text : String) : Except DefinitionError Definition :=
  Definition.ofDocument format (format.readDocument? text)

/-- The definition that a value gives. -/
def Definition.ofJson (v : Json) : Except DefinitionError Definition :=
  Definition.ofDocument .json (some (Document.ofJson v))

/-- The steps that a value lists. -/
def Step.listOfJson? (v : Json) : Option (List Step) :=
  (Document.ofJson v).asListOf? (Step.decode? true)

end Workflow

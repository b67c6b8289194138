/-
Workflow.Run.Snapshot — a run at one point in time.

* `RunFailure` — why a run failed.
* `Snapshot` — a run at one point in time.
* `Snapshot.summary` — how many steps stand where.
* `Snapshot.encode`, `Snapshot.decode?` — snapshots as values.
-/
import Workflow.Document.Basic
import Workflow.Json.Writer
import Workflow.Json.Reader
import Workflow.Run.StepResult
import Workflow.Time.Timestamp

namespace Workflow

/-- Why a run failed, and at which step if it was one step. -/
structure RunFailure where
  stepId : Option String
  message : String
deriving DecidableEq, Repr

/-- The failure in words. -/
def RunFailure.text (f : RunFailure) : String :=
  match f.stepId with
  | some step => "step '" ++ step ++ "' failed: " ++ f.message
  | none => f.message

/-- A run at one point in time. -/
structure Snapshot where
  runId : String
  workflowId : String
  workflowName : String
  status : RunStatus
  input : Json
  vars : Dict Json
  stepResults : Dict StepResult
  completed : List String
  failed : List String
  error : Option RunFailure
  startedAt : Instant
  completedAt : Option Instant
  updatedAt : Instant
deriving DecidableEq, Repr

/-- How many steps stand where. -/
structure Summary where
  total : Nat
  completed : Nat
  failed : Nat
  skipped : Nat
  unfinished : Nat
deriving DecidableEq, Repr

namespace Snapshot

/-- The result of a step. -/
def step? (s : Snapshot) (id : String) : Option StepResult := Dict.find? s.stepResults id

/-- The number of steps with a status. -/
def countOf (s : Snapshot) (status : StepStatus) : Nat :=
  s.stepResults.countP fun (_, r) => r.status = status

/-- How many steps stand where. -/
def summary (s : Snapshot) : Summary :=
  { total := s.stepResults.length
    completed := s.countOf .completed
    failed := s.countOf .failed
    skipped := s.countOf .skipped
    unfinished := s.stepResults.countP fun (_, r) => !r.status.isFinal }

/-- The time from start to end. -/
def duration? (s : Snapshot) : Option Duration :=
  s.completedAt.bind (Duration.between? s.startedAt)

end Snapshot

/-! ## As values -/

/-- Something or null. -/
def encodeOption {α : Type} (encode : α → Json) : Option α → Json
  | some v => encode v
  | none => .null

/-- A duration by seconds and nanoseconds. -/
def Duration.encodeParts (d : Duration) : Json :=
  .obj [("secs", Json.ofNat d.seconds), ("nanos", Json.ofNat d.subsecond)]

/-- An instant as a timestamp. -/
def Instant.encode (i : Instant) : Json := .str (Timestamp.writeUniversal i)

/-- The error of a step. -/
def StepError.encode (e : StepError) : Json :=
  .obj [("kind", .str e.kind.name), ("category", .str e.category.name), ("message", .str e.message)]

/-- A round of a loop. -/
def Iteration.encode (it : Iteration) : Json :=
  .obj [("index", Json.ofNat it.index), ("item", it.item), ("outputs", .obj it.outputs)]

/-- The result of a step. Iterations and the handler are left out when there are none. -/
def StepResult.encode (r : StepResult) : Json :=
  .obj ([("step_id", .str r.stepId), ("status", .str r.status.name),
    ("output", r.output.getD .null), ("error", encodeOption StepError.encode r.error),
    ("attempt", Json.ofNat r.attempt),
    ("retry_delays", .arr (r.retryDelays.map Duration.encodeParts)),
    ("started_at", encodeOption Instant.encode r.startedAt),
    ("completed_at", encodeOption Instant.encode r.completedAt)] ++
    (if r.iterations.isEmpty then []
      else [("iterations", .arr (r.iterations.map Iteration.encode))])
    ++ (r.recoveredBy.map fun h => ("recovered_by", Json.str h)).toList)

/-- The failure of a run. -/
def RunFailure.encode (f : RunFailure) : Json :=
  .obj [("step_id", encodeOption .str f.stepId), ("message", .str f.message)]

/-- A snapshot. -/
def Snapshot.encode (s : Snapshot) : Json :=
  .obj [("runId", .str s.runId), ("workflowId", .str s.workflowId),
    ("workflowName", .str s.workflowName), ("status", .str s.status.name), ("input", s.input),
    ("variables", .obj s.vars),
    ("stepResults", .obj (s.stepResults.map fun (id, r) => (id, r.encode))),
    ("completed", .arr (s.completed.map .str)), ("failed", .arr (s.failed.map .str)),
    ("error", encodeOption RunFailure.encode s.error),
    ("startedAt", s.startedAt.encode), ("completedAt", encodeOption Instant.encode s.completedAt),
    ("updatedAt", s.updatedAt.encode)]

/-! ## From documents -/

open Document

/-- An instant, by a loose timestamp. -/
def Instant.decode? (d : Document) : Option Instant := d.asText?.bind Timestamp.readLoose?

/-- A duration by seconds and nanoseconds; nanoseconds beyond a second count as seconds. No other
key may stand beside the two. -/
def Duration.decodeParts? (d : Document) : Option Duration := do
  let known :=
    match d with
    | .dict entries => entries.all fun (k, _) => k.asText?.any ["secs", "nanos"].contains
    | _ => true
  match ← d.fields? true [["secs"], ["nanos"]] with
  | [secs, nanos] =>
    let s ← required? secs (asNatBelow? Duration.limit)
    let n ← required? nanos (asNatBelow? (Nat.pow 2 32))
    if known = true ∧ s + n / Duration.secondNanos < Duration.limit then
      some ⟨s * Duration.secondNanos + n⟩
    else none
  | _ => none

/-- The error of a step. -/
def StepError.decode? (d : Document) : Option StepError := do
  match ← d.fields? true [["kind"], ["category"], ["message"]] with
  | [kind, category, message] =>
    return {
      kind := ← required? kind fun d => d.asChoice?.bind ErrorKind.ofName?
      category := ← required? category fun d => d.asChoice?.bind ErrorCategory.ofName?
      message := ← required? message asText? }
  | _ => none

/-- A round of a loop. -/
def Iteration.decode? (d : Document) : Option Iteration := do
  match ← d.fields? true [["index"], ["item"], ["outputs"]] with
  | [index, item, outputs] =>
    return {
      index := ← required? index (asNatBelow? (Nat.pow 2 64))
      item := ← required? item toJson?
      outputs := ← required? outputs (asDictOf? toJson?) }
  | _ => none

/-- Whether a record, if it is given as a list, has at least so many fields. -/
def hasFields (least : Nat) : Document → Bool
  | .list items => least ≤ items.length
  | _ => true

/-- The result of a step. -/
def StepResult.decode? (d : Document) : Option StepResult := do
  if !hasFields 8 d then none
  match ← d.fields? true [["step_id"], ["status"], ["output"], ["error"], ["attempt"],
    ["retry_delays"], ["started_at"], ["completed_at"], ["iterations"], ["recovered_by"]] with
  | [stepId, status, output, error, attempt, delays, startedAt, completedAt, iterations, handler] =>
    return {
      stepId := ← required? stepId asText?
      status := ← required? status fun d => d.asChoice?.bind StepStatus.ofName?
      output := ← optional? output toJson?
      error := ← optional? error StepError.decode?
      attempt := ← required? attempt (asNatBelow? (Nat.pow 2 32))
      retryDelays := ← required? delays (asListOf? Duration.decodeParts?)
      startedAt := ← optional? startedAt Instant.decode?
      completedAt := ← optional? completedAt Instant.decode?
      iterations := ← defaulted? iterations [] (asListOf? Iteration.decode?)
      recoveredBy := ← optional? handler asText? }
  | _ => none

/-- The failure of a run. -/
def RunFailure.decode? (d : Document) : Option RunFailure := do
  match ← d.fields? true [["step_id"], ["message"]] with
  | [stepId, message] =>
    return { stepId := ← optional? stepId asText?, message := ← required? message asText? }
  | _ => none

/-- A snapshot. -/
def Snapshot.decode? (d : Document) : Option Snapshot := do
  match ← d.fields? true [["runId"], ["workflowId"], ["workflowName"], ["status"], ["input"],
    ["variables"], ["stepResults"], ["completed"], ["failed"], ["error"], ["startedAt"],
    ["completedAt"], ["updatedAt"]] with
  | [runId, workflowId, workflowName, status, input, vars, stepResults, completed, failed,
      error, startedAt, completedAt, updatedAt] =>
    return {
      runId := ← required? runId asText?
      workflowId := ← required? workflowId asText?
      workflowName := ← required? workflowName asText?
      status := ← required? status fun d => d.asChoice?.bind RunStatus.ofName?
      input := ← required? input toJson?
      vars := ← required? vars (asDictOf? toJson?)
      stepResults := ← required? stepResults (asDictOf? StepResult.decode?)
      completed := ← required? completed (asListOf? asText?)
      failed := ← required? failed (asListOf? asText?)
      error := ← optional? error RunFailure.decode?
      startedAt := ← required? startedAt Instant.decode?
      completedAt := ← optional? completedAt Instant.decode?
      updatedAt := ← required? updatedAt Instant.decode? }
  | _ => none

/-- The snapshot that a value gives. -/
def Snapshot.ofJson? (v : Json) : Option Snapshot := Snapshot.decode? (Document.ofJson v)

/-- The snapshot that a JSON text gives. -/
def Snapshot.read? (text : String) : Option Snapshot :=
  (Json.readDocument? text).bind fun d => Snapshot.decode? (d.within Json.depthLimit)

end Workflow

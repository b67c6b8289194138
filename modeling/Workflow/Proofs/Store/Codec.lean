/-
Workflow.Proofs.Store.Codec — snapshots read back from their values.

Every part of a snapshot is written as a record and read field by field from
the same places, with one exception. A step that has no output and a step
whose output is null are written alike, and what is read is a step without
an output. So a snapshot reads back as itself once its outputs of null are
forgotten.

* `Snapshot.Sound` — a snapshot of values that can be written.
* `Snapshot.forgetNulls` — the same snapshot without outputs of null.
* `Snapshot.encode_forgetNulls` — the value does not show them.
* `Snapshot.decode?_encode`, `Snapshot.read?_pretty` — a snapshot, read back.
-/
import Workflow.Proofs.Json.Text
import Workflow.Proofs.Time.Timestamp
import Workflow.Run.Snapshot

namespace Workflow

open Document

/-! ## Snapshots that can be written -/

/-- A duration whose seconds are a number of 64 bits. -/
def Duration.Sound (d : Duration) : Prop := d.seconds < Duration.limit

/-- A round of a loop whose number is one of 64 bits and whose values are proper. -/
structure Iteration.Sound (it : Iteration) : Prop where
  index : it.index < Nat.pow 2 64
  item : it.item.Proper Json.Num.InRange
  outputs : Dict.Proper Json.Num.InRange it.outputs

/-- A result of a step whose numbers, times and values can be written. -/
structure StepResult.Sound (r : StepResult) : Prop where
  output : ∀ v ∈ r.output, v.Proper Json.Num.InRange
  attempt : r.attempt < Nat.pow 2 32
  retryDelays : ∀ d ∈ r.retryDelays, d.Sound
  startedAt : ∀ i ∈ r.startedAt, i.Sound
  completedAt : ∀ i ∈ r.completedAt, i.Sound
  iterations : ∀ it ∈ r.iterations, it.Sound

/-- A snapshot whose numbers, times and values can be written, with one result for each step. -/
structure Snapshot.Sound (s : Snapshot) : Prop where
  input : s.input.Proper Json.Num.InRange
  vars : Dict.Proper Json.Num.InRange s.vars
  steps : (Dict.keys s.stepResults).Nodup
  stepResults : ∀ e ∈ s.stepResults, e.2.Sound
  startedAt : s.startedAt.Sound
  completedAt : ∀ i ∈ s.completedAt, i.Sound
  updatedAt : s.updatedAt.Sound

/-! ## Outputs of null -/

/-- The result of a step whose output of null is forgotten. -/
def StepResult.forgetNull (r : StepResult) : StepResult :=
  { r with output := r.output.filter (· ≠ .null) }

/-- A snapshot whose outputs of null are forgotten. -/
def Snapshot.forgetNulls (s : Snapshot) : Snapshot :=
  { s with stepResults := s.stepResults.map fun e => (e.1, e.2.forgetNull) }

/-- A step that gave null. -/
def StepResult.GaveNull (r : StepResult) : Prop := r.output = some .null

instance (r : StepResult) : Decidable r.GaveNull := inferInstanceAs (Decidable (_ = _))

/-- A snapshot in which no step gave null. -/
def Snapshot.NullFree (s : Snapshot) : Prop := ∀ e ∈ s.stepResults, ¬ e.2.GaveNull

instance (s : Snapshot) : Decidable s.NullFree :=
  inferInstanceAs (Decidable (∀ e ∈ s.stepResults, _))

theorem StepResult.forgetNull_eq_self_iff {r : StepResult} : r.forgetNull = r ↔ ¬ r.GaveNull := by
  obtain ⟨stepId, status, output, error, attempt, delays, start, stop, iterations, handler⟩ := r
  simp only [forgetNull, GaveNull, StepResult.mk.injEq, true_and, and_true]
  cases output with
  | none => simp
  | some v => simp [Option.filter_some]

/-- Only outputs of null are lost. -/
theorem Snapshot.forgetNulls_eq_self_iff {s : Snapshot} : s.forgetNulls = s ↔ s.NullFree := by
  have hResults : s.forgetNulls = s ↔
      (s.stepResults.map fun e => (e.1, e.2.forgetNull)) = s.stepResults.map id := by
    rw [List.map_id]
    exact ⟨fun h => congrArg Snapshot.stepResults h, fun h => by rw [forgetNulls, h]⟩
  rw [hResults, List.map_inj_left]
  refine forall₂_congr fun e _ => ?_
  rw [← StepResult.forgetNull_eq_self_iff]
  exact ⟨fun h => congrArg Prod.snd h, fun h => by rw [h, id]⟩

theorem StepResult.encode_forgetNull (r : StepResult) : r.forgetNull.encode = r.encode := by
  have hOutput : (r.output.filter (· ≠ .null)).getD .null = r.output.getD .null := by
    cases r.output with
    | none => rfl
    | some v =>
      by_cases hNull : v = .null
      · rw [Option.filter_some, if_neg (by simp [hNull]), hNull]
        rfl
      · rw [Option.filter_some, if_pos (by simp [hNull])]
  simp only [encode, forgetNull, hOutput]
  rfl

/-- A snapshot is written without regard to outputs of null. -/
theorem Snapshot.encode_forgetNulls (s : Snapshot) : s.forgetNulls.encode = s.encode := by
  simp only [encode, forgetNulls, List.map_map, Function.comp_def, StepResult.encode_forgetNull]

theorem Snapshot.nullFree_forgetNulls (s : Snapshot) : s.forgetNulls.NullFree := by
  intro e he
  obtain ⟨old, -, rfl⟩ := List.mem_map.mp he
  intro hNull
  have hKept := (Option.filter_eq_some_iff.mp hNull).2
  simp at hKept

theorem StepResult.Sound.forgetNull {r : StepResult} (h : r.Sound) : r.forgetNull.Sound :=
  { h with output := fun v hv => h.output v (Option.filter_eq_some_iff.mp hv).1 }

theorem Snapshot.Sound.forgetNulls {s : Snapshot} (h : s.Sound) : s.forgetNulls.Sound where
  input := h.input
  vars := h.vars
  steps := by
    have hKeys : Dict.keys s.forgetNulls.stepResults = Dict.keys s.stepResults := by
      simp [Dict.keys, Snapshot.forgetNulls]
    exact hKeys ▸ h.steps
  stepResults := by
    intro e he
    obtain ⟨old, hOld, rfl⟩ := List.mem_map.mp he
    exact (h.stepResults old hOld).forgetNull
  startedAt := h.startedAt
  completedAt := h.completedAt
  updatedAt := h.updatedAt

/-! ## Parts of a snapshot -/

/-- A part that is written as null when it is missing. -/
theorem optional?_encodeOption {α : Type} {read : Document → Option α} {write : α → Json}
    {o : Option α} (hNull : ∀ v ∈ o, write v ≠ .null)
    (h : ∀ v ∈ o, read (ofJson (write v)) = some v) :
    optional? (some (ofJson (encodeOption write o))) read = some o := by
  cases o with
  | none => rfl
  | some v => exact optional?_map hNull h

theorem Instant.decode?_encode {i : Instant} (h : i.Sound) :
    Instant.decode? (ofJson i.encode) = some i := by
  rw [decode?, encode, asText?_ofJson_str, Option.bind_some]
  exact Timestamp.readLoose?_writeUniversal h

theorem required?_instant {i : Instant} (h : i.Sound) :
    required? (some (ofJson i.encode)) Instant.decode? = some i := by
  rw [required?_some, Instant.decode?_encode h]

theorem optional?_instant {o : Option Instant} (h : ∀ i ∈ o, i.Sound) :
    optional? (some (ofJson (encodeOption Instant.encode o))) Instant.decode? = some o :=
  optional?_encodeOption (fun _ _ => nofun) fun i hi => Instant.decode?_encode (h i hi)

-- The numbers stay documents of their own here, so that nothing is computed below their bounds.
theorem Duration.decodeParts?_of_fields? {d : Duration} {fields : List (String × Json)}
    {secs nanos : Document}
    (hKnown : ∀ e ∈ fields, ["secs", "nanos"].contains e.1 = true)
    (hFields : (ofJson (.obj fields)).fields? true [["secs"], ["nanos"]] =
      some [some secs, some nanos])
    (hSecs : secs.asNatBelow? limit = some d.seconds)
    (hNanos : nanos.asNatBelow? (Nat.pow 2 32) = some d.subsecond) (h : d.Sound) :
    Duration.decodeParts? (ofJson (.obj fields)) = some d := by
  have hNanosLt : d.subsecond < secondNanos := Nat.mod_lt _ (by decide)
  have hWhole : d.seconds + d.subsecond / secondNanos < limit := by
    rw [Nat.div_eq_of_lt hNanosLt, Nat.add_zero]
    exact h
  have hSame : d.seconds * secondNanos + d.subsecond = d.nanos := Nat.div_add_mod' ..
  rw [ofJson] at hFields ⊢
  rw [decodeParts?, hFields]
  simp only [Option.bind_eq_bind, Option.bind_some, required?_some, hSecs, hNanos, hSame]
  refine if_pos ⟨?_, hWhole⟩
  rw [ofFields_eq, List.all_map, List.all_eq_true]
  exact fun e he => hKnown e he

theorem Duration.decodeParts?_encodeParts {d : Duration} (h : d.Sound) :
    Duration.decodeParts? (ofJson d.encodeParts) = some d := by
  have hFields := @fields?_record [["secs"], ["nanos"]]
    [some (Json.ofNat d.seconds), some (Json.ofNat d.subsecond)] true (by decide) (by decide) rfl
  have hSub : d.subsecond < Nat.pow 2 32 :=
    Nat.lt_trans (Nat.mod_lt _ (by decide)) (by decide : secondNanos < Nat.pow 2 32)
  exact decodeParts?_of_fields? (by simp) hFields (asNatBelow?_ofNat h) (asNatBelow?_ofNat hSub) h

theorem StepError.decode?_encode (e : StepError) :
    StepError.decode? (ofJson e.encode) = some e := by
  obtain ⟨kind, category, message⟩ := e
  cases kind <;> cases category <;> rfl

theorem RunFailure.decode?_encode (f : RunFailure) :
    RunFailure.decode? (ofJson f.encode) = some f := by
  obtain ⟨stepId, message⟩ := f
  cases stepId <;> rfl

-- As for durations, the number stays a document of its own.
theorem Iteration.decode?_of_fields? {it : Iteration} {d index : Document}
    (hFields : d.fields? true [["index"], ["item"], ["outputs"]] =
      some [some index, some (ofJson it.item), some (ofJson (.obj it.outputs))])
    (hIndex : index.asNatBelow? (Nat.pow 2 64) = some it.index) (h : it.Sound) :
    Iteration.decode? d = some it := by
  rw [decode?, hFields]
  simp only [Option.bind_eq_bind, Option.bind_some, required?_some, hIndex, toJson?_ofJson h.item,
    asDictOf?_toJson? h.outputs, Option.pure_def]

theorem Iteration.decode?_encode {it : Iteration} (h : it.Sound) :
    Iteration.decode? (ofJson it.encode) = some it := by
  have hFields := @fields?_record [["index"], ["item"], ["outputs"]]
    [some (Json.ofNat it.index), some it.item, some (.obj it.outputs)] true (by decide) (by decide)
    rfl
  exact decode?_of_fields? hFields (asNatBelow?_ofNat h.index) h

/-! ## Results of steps -/

/-- A list that is left out when it is empty. -/
def iterationsJson (iterations : List Iteration) : Option Json :=
  if iterations.isEmpty then none else some (.arr (iterations.map Iteration.encode))

/-- The fields of a result, in order. -/
def StepResult.fieldNames : List (List String) :=
  [["step_id"], ["status"], ["output"], ["error"], ["attempt"], ["retry_delays"], ["started_at"],
    ["completed_at"], ["iterations"], ["recovered_by"]]

/-- What is written of a result, field by field. -/
def StepResult.written (r : StepResult) : List (Option Json) :=
  [some (.str r.stepId), some (.str r.status.name), some (r.output.getD .null),
    some (encodeOption StepError.encode r.error), some (Json.ofNat r.attempt),
    some (.arr (r.retryDelays.map Duration.encodeParts)),
    some (encodeOption Instant.encode r.startedAt),
    some (encodeOption Instant.encode r.completedAt), iterationsJson r.iterations,
    r.recoveredBy.map .str]

theorem StepResult.encode_eq (r : StepResult) :
    r.encode = .obj (recordEntries StepResult.fieldNames r.written) := by
  rw [encode]
  split
  · rename_i hNone
    have hIterations : iterationsJson r.iterations = none := if_pos hNone
    simp [recordEntries, fieldNames, written, hIterations, Option.map_map]
    rfl
  · rename_i hSome
    have hIterations : iterationsJson r.iterations = some _ := if_neg hSome
    simp [recordEntries, fieldNames, written, hIterations, Option.map_map]
    rfl

theorem defaulted?_iterations {iterations : List Iteration} (h : ∀ it ∈ iterations, it.Sound) :
    defaulted? ((iterationsJson iterations).map ofJson) [] (asListOf? Iteration.decode?) =
      some iterations := by
  cases iterations with
  | nil => rfl
  | cons it rest =>
    have hList := asListOf?_arr fun it hit => Iteration.decode?_encode (h it hit)
    have hWritten : iterationsJson (it :: rest) =
      some (.arr ((it :: rest).map Iteration.encode)) := rfl
    rw [hWritten, Option.map_some, defaulted?_some, hList]

theorem optional?_output {good : Json.Num → Prop} {r : StepResult} (hNull : ¬ r.GaveNull)
    (h : ∀ v ∈ r.output, v.Proper good) :
    optional? (some (ofJson (r.output.getD .null))) toJson? = some r.output := by
  unfold StepResult.GaveNull at hNull
  cases hOutput : r.output with
  | none => rfl
  | some v =>
    have hSome : ∀ w ∈ some v, id w ≠ .null := by
      rintro w ⟨⟩
      exact fun hSame => hNull (hOutput.trans (congrArg some hSame))
    exact @optional?_encodeOption _ toJson? id (some v) hSome
      fun w hw => toJson?_ofJson (h w (hOutput ▸ hw))

theorem StepStatus.ofName?_name (status : StepStatus) : ofName? status.name = some status := by
  cases status <;> rfl

theorem RunStatus.ofName?_name (status : RunStatus) : ofName? status.name = some status := by
  cases status <;> rfl

-- As for durations, the number stays a document of its own.
theorem StepResult.decode?_of_fields? {r : StepResult} {d attempt : Document}
    (hLength : hasFields 8 d = true)
    (hFields : d.fields? true StepResult.fieldNames =
      some [some (ofJson (.str r.stepId)), some (ofJson (.str r.status.name)),
        some (ofJson (r.output.getD .null)),
        some (ofJson (encodeOption StepError.encode r.error)), some attempt,
        some (ofJson (.arr (r.retryDelays.map Duration.encodeParts))),
        some (ofJson (encodeOption Instant.encode r.startedAt)),
        some (ofJson (encodeOption Instant.encode r.completedAt)),
        (iterationsJson r.iterations).map ofJson, (r.recoveredBy.map Json.str).map ofJson])
    (hAttempt : attempt.asNatBelow? (Nat.pow 2 32) = some r.attempt) (h : r.Sound)
    (hNull : ¬ r.GaveNull) : StepResult.decode? d = some r := by
  have hStatus : (ofJson (.str r.status.name)).asChoice?.bind StepStatus.ofName? = some r.status :=
    StepStatus.ofName?_name r.status
  have hError : optional? (some (ofJson (encodeOption StepError.encode r.error)))
      StepError.decode? = some r.error :=
    optional?_encodeOption (fun _ _ => nofun) fun e _ => StepError.decode?_encode e
  have hDelays : (ofJson (.arr (r.retryDelays.map Duration.encodeParts))).asListOf?
      Duration.decodeParts? = some r.retryDelays :=
    asListOf?_arr fun t ht => Duration.decodeParts?_encodeParts (h.retryDelays t ht)
  have hHandler : optional? ((r.recoveredBy.map Json.str).map ofJson) asText? = some r.recoveredBy :=
    optional?_map (fun _ _ => nofun) fun _ _ => rfl
  rw [decode?, hLength]
  refine Option.bind_eq_some_iff.mpr ⟨_, hFields, ?_⟩
  -- The fields are read one after another, each from its own place.
  refine Option.bind_eq_some_iff.mpr ⟨_, asText?_ofJson_str r.stepId, ?_⟩
  refine Option.bind_eq_some_iff.mpr ⟨_, hStatus, ?_⟩
  refine Option.bind_eq_some_iff.mpr ⟨_, optional?_output hNull h.output, ?_⟩
  refine Option.bind_eq_some_iff.mpr ⟨_, hError, ?_⟩
  refine Option.bind_eq_some_iff.mpr ⟨_, hAttempt, ?_⟩
  refine Option.bind_eq_some_iff.mpr ⟨_, hDelays, ?_⟩
  refine Option.bind_eq_some_iff.mpr ⟨_, optional?_instant h.startedAt, ?_⟩
  refine Option.bind_eq_some_iff.mpr ⟨_, optional?_instant h.completedAt, ?_⟩
  refine Option.bind_eq_some_iff.mpr ⟨_, defaulted?_iterations h.iterations, ?_⟩
  exact Option.bind_eq_some_iff.mpr ⟨_, hHandler, rfl⟩

theorem StepResult.decode?_encode {r : StepResult} (h : r.Sound) (hNull : ¬ r.GaveNull) :
    StepResult.decode? (ofJson r.encode) = some r := by
  have hFields := @fields?_record fieldNames r.written true (by decide) (by decide) rfl
  rw [← encode_eq] at hFields
  exact decode?_of_fields? rfl hFields (asNatBelow?_ofNat h.attempt) h hNull

/-! ## Snapshots -/

/-- The fields of a snapshot, in order. -/
def Snapshot.fieldNames : List (List String) :=
  [["runId"], ["workflowId"], ["workflowName"], ["status"], ["input"], ["variables"],
    ["stepResults"], ["completed"], ["failed"], ["error"], ["startedAt"], ["completedAt"],
    ["updatedAt"]]

/-- What is written of a snapshot, field by field. -/
def Snapshot.written (s : Snapshot) : List (Option Json) :=
  [some (.str s.runId), some (.str s.workflowId), some (.str s.workflowName),
    some (.str s.status.name), some s.input, some (.obj s.vars),
    some (.obj (s.stepResults.map fun (id, r) => (id, r.encode))),
    some (.arr (s.completed.map .str)), some (.arr (s.failed.map .str)),
    some (encodeOption RunFailure.encode s.error), some s.startedAt.encode,
    some (encodeOption Instant.encode s.completedAt), some s.updatedAt.encode]

theorem Snapshot.encode_eq (s : Snapshot) :
    s.encode = .obj (recordEntries Snapshot.fieldNames s.written) := rfl

theorem Snapshot.decode?_of_fields? {s : Snapshot} {d : Document}
    (hFields : d.fields? true Snapshot.fieldNames = some (s.written.map (·.map ofJson)))
    (h : s.Sound) (hNull : s.NullFree) : Snapshot.decode? d = some s := by
  have hStatus : (ofJson (.str s.status.name)).asChoice?.bind RunStatus.ofName? = some s.status :=
    RunStatus.ofName?_name s.status
  have hResults : (ofJson (.obj (s.stepResults.map fun e => (e.1, e.2.encode)))).asDictOf?
      StepResult.decode? = some s.stepResults :=
    asDictOf?_obj h.steps fun e he => StepResult.decode?_encode (h.stepResults e he) (hNull e he)
  have hTexts : ∀ texts : List String,
      (ofJson (.arr (texts.map .str))).asListOf? asText? = some texts :=
    fun texts => asListOf?_arr fun _ _ => rfl
  have hError : optional? (some (ofJson (encodeOption RunFailure.encode s.error)))
      RunFailure.decode? = some s.error :=
    optional?_encodeOption (fun _ _ => nofun) fun f _ => RunFailure.decode?_encode f
  refine Option.bind_eq_some_iff.mpr ⟨_, hFields, ?_⟩
  refine Option.bind_eq_some_iff.mpr ⟨_, asText?_ofJson_str s.runId, ?_⟩
  refine Option.bind_eq_some_iff.mpr ⟨_, asText?_ofJson_str s.workflowId, ?_⟩
  refine Option.bind_eq_some_iff.mpr ⟨_, asText?_ofJson_str s.workflowName, ?_⟩
  refine Option.bind_eq_some_iff.mpr ⟨_, hStatus, ?_⟩
  refine Option.bind_eq_some_iff.mpr ⟨_, toJson?_ofJson h.input, ?_⟩
  refine Option.bind_eq_some_iff.mpr ⟨_, asDictOf?_toJson? h.vars, ?_⟩
  refine Option.bind_eq_some_iff.mpr ⟨_, hResults, ?_⟩
  refine Option.bind_eq_some_iff.mpr ⟨_, hTexts s.completed, ?_⟩
  refine Option.bind_eq_some_iff.mpr ⟨_, hTexts s.failed, ?_⟩
  refine Option.bind_eq_some_iff.mpr ⟨_, hError, ?_⟩
  refine Option.bind_eq_some_iff.mpr ⟨_, required?_instant h.startedAt, ?_⟩
  refine Option.bind_eq_some_iff.mpr ⟨_, optional?_instant h.completedAt, ?_⟩
  exact Option.bind_eq_some_iff.mpr ⟨_, required?_instant h.updatedAt, rfl⟩

/-- A snapshot in which no step gave null reads back as it is. -/
theorem Snapshot.decode?_encode_of_nullFree {s : Snapshot} (h : s.Sound) (hNull : s.NullFree) :
    Snapshot.decode? (ofJson s.encode) = some s := by
  have hFields := @fields?_record fieldNames s.written true (by decide) (by decide) rfl
  rw [← encode_eq] at hFields
  exact decode?_of_fields? hFields h hNull

/-- A snapshot reads back from its value without its outputs of null. -/
theorem Snapshot.decode?_encode {s : Snapshot} (h : s.Sound) :
    Snapshot.decode? (ofJson s.encode) = some s.forgetNulls := by
  rw [← encode_forgetNulls]
  exact decode?_encode_of_nullFree h.forgetNulls (nullFree_forgetNulls s)

/-- A snapshot whose value reads back from its text reads back from it as well. -/
theorem Snapshot.read?_pretty {s : Snapshot} (h : s.Sound) (hText : s.encode.ReadsBack) :
    Snapshot.read? s.encode.pretty = some s.forgetNulls := by
  obtain ⟨d, hDocument, hWithin⟩ := Option.map_eq_some_iff.mp hText
  rw [read?, hDocument, Option.bind_some, hWithin]
  exact decode?_encode h

end Workflow

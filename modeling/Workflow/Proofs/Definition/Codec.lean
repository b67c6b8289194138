/-
Workflow.Proofs.Definition.Codec — definitions read back from their values.

What is written of a definition leaves out its empty parts, and the reader
fills each of them in again with the value it had. So the value of a
definition reads back as that definition, part by part: the settings of a
step, the steps of a workflow, the workflow.

* `Step.encode_eq`, `Definition.encode_eq` — written values as records.
* `Step.decode?_encode`, `Definition.decode?_encode` — a part, read back.
* `Definition.decode?_encode_of_decode?` — what was read from a value is the
  same when it is written and read again, as a value and as text.
-/
import Workflow.Definition.Encode
import Workflow.Proofs.Definition.Sound
import Workflow.Proofs.Json.Text

namespace Workflow

open Document

/-! ## Parts that may be left out -/

theorem optionalEntry_eq (key : String) (value : Option Json) :
    optionalEntry key value = (value.map (key, ·)).toList := by
  cases value <;> rfl

theorem asListOf?_textsJson (texts : List String) :
    (ofJson (textsJson texts)).asListOf? asText? = some texts :=
  asListOf?_arr fun _ _ => rfl

theorem asDictOf?_texts {d : Dict String} (h : (Dict.keys d).Nodup) :
    (ofJson (.obj (d.map fun e => (e.1, .str e.2)))).asDictOf? asText? = some d :=
  asDictOf?_obj h fun _ _ => rfl

/-- A list that is left out when it is empty is read as empty when it is left out. -/
theorem defaulted?_unlessEmpty {α : Type} {items : List α} {v : Json}
    {read : Document → Option (List α)} (h : read (ofJson v) = some items) :
    defaulted? ((unlessEmpty items v).map ofJson) [] read = some items := by
  cases items with
  | nil => rfl
  | cons => exact h

theorem Duration.decode?_encode {t : Duration} (h : t.seconds < Duration.limit) :
    Duration.decode? (ofJson t.encode) = some t :=
  Duration.read?_write h

/-- An optional duration. -/
theorem optional?_duration {o : Option Duration} (h : ∀ t ∈ o, t.seconds < Duration.limit) :
    optional? ((o.map Duration.encode).map ofJson) Duration.decode? = some o :=
  optional?_map (fun _ _ => nofun) fun t ht => Duration.decode?_encode (h t ht)

/-- An optional text. -/
theorem optional?_text (o : Option String) :
    optional? ((o.map Json.str).map ofJson) asText? = some o :=
  optional?_map (fun _ _ => nofun) fun _ _ => rfl

/-! ## Settings of steps -/

theorem LoopConfig.encode_eq (c : LoopConfig) :
    c.encode = .obj (recordEntries [["collectionExpr"], ["maxIterations"], ["body"]]
      [some (.str c.collectionExpr), some (Json.ofNat c.maxIterations), some (.str c.body)]) := rfl

-- The count stays a document of its own here, so that nothing is computed below a bound of 64 bits.
theorem LoopConfig.decode?_of_fields? {positional : Bool} {c : LoopConfig} {d iterations : Document}
    (hFields : d.fields? positional [["collectionExpr"], ["maxIterations"], ["body"]] =
      some [some (ofJson (.str c.collectionExpr)), some iterations, some (ofJson (.str c.body))])
    (hIterations : iterations.asNatBelow? countBound = some c.maxIterations) :
    LoopConfig.decode? positional d = some c := by
  rw [decode?, hFields]
  simp only [Option.bind_eq_bind, Option.bind_some, required?_some, defaulted?_some,
    asText?_ofJson_str, hIterations, Option.pure_def]

theorem LoopConfig.decode?_encode (positional : Bool) {c : LoopConfig} (h : c.Sound) :
    LoopConfig.decode? positional (ofJson c.encode) = some c :=
  decode?_of_fields? (encode_eq c ▸ fields?_record positional (by decide) (by decide) rfl)
    (asNatBelow?_ofNat h)

theorem RetryPolicy.encode_eq (p : RetryPolicy) :
    p.encode = .obj (recordEntries
      [["maxRetries"], ["initialDelay"], ["maxDelay"], ["backoffMultiplier"]]
      [some (Json.ofNat p.maxRetries), some p.initialDelay.encode, some p.maxDelay.encode,
        some (Json.ofFloat p.backoffMultiplier.toFloat)]) := rfl

theorem RetryPolicy.decode?_of_fields? {positional : Bool} {p : RetryPolicy}
    {d retries initial greatest backoff : Document}
    (hFields : d.fields? positional
      [["maxRetries"], ["initialDelay"], ["maxDelay"], ["backoffMultiplier"]] =
      some [some retries, some initial, some greatest, some backoff])
    (hRetries : retries.asNatBelow? retryBound = some p.maxRetries)
    (hInitial : Duration.decode? initial = some p.initialDelay)
    (hGreatest : Duration.decode? greatest = some p.maxDelay)
    (hBackoff : (asFloat? backoff).map Number.Bits64.ofFloat = some p.backoffMultiplier) :
    RetryPolicy.decode? positional d = some p := by
  rw [decode?, hFields]
  simp only [Option.bind_eq_bind, Option.bind_some, defaulted?_some, hRetries, hInitial, hGreatest,
    hBackoff, Option.pure_def]

theorem RetryPolicy.decode?_encode (positional : Bool) {p : RetryPolicy} (h : p.Sound) :
    RetryPolicy.decode? positional (ofJson p.encode) = some p := by
  have hBackoff : (asFloat? (ofJson (Json.ofFloat p.backoffMultiplier.toFloat))).map
      Number.Bits64.ofFloat = some p.backoffMultiplier := by
    obtain ⟨x, hFinite, hSame⟩ := h.backoff
    have hDouble : p.backoffMultiplier.toFloat = x := by
      rw [hSame]
      exact Number.ofBits_toBits x
    rw [hDouble, Json.ofFloat, if_pos hFinite, hSame]
    rfl
  exact decode?_of_fields?
    (encode_eq p ▸ fields?_record positional (by decide) (by decide) rfl)
    (asNatBelow?_ofNat h.maxRetries) (Duration.decode?_encode h.initialDelay)
    (Duration.decode?_encode h.maxDelay) hBackoff

theorem ErrorConfig.encode_eq (c : ErrorConfig) :
    c.encode = .obj (recordEntries [["errorTypeFilter"], ["recoveryAction"], ["fallbackValue"]]
      [some (textsJson c.errorTypeFilter), some (.str c.recoveryAction.name), c.fallbackValue]) := by
  rw [encode, optionalEntry_eq]
  simp [recordEntries]

theorem RecoveryAction.decode?_name (a : RecoveryAction) :
    RecoveryAction.decode? (ofJson (.str a.name)) = some a := by
  cases a <;> rfl

theorem ErrorConfig.decode?_encode (positional : Bool) {c : ErrorConfig} (h : c.Sound) :
    ErrorConfig.decode? positional (ofJson c.encode) = some c := by
  have hFilter := asListOf?_textsJson c.errorTypeFilter
  have hFallback : optional? (c.fallbackValue.map ofJson) toJson? = some c.fallbackValue := by
    have hMap := @optional?_map _ toJson? id c.fallbackValue (fun v hv => (h.fallback v hv).1)
      fun v hv => toJson?_ofJson (h.fallback v hv).2
    rwa [Option.map_id] at hMap
  rw [decode?, encode_eq, fields?_record positional (by decide) (by decide) rfl]
  simp only [List.map_cons, List.map_nil, Option.map_some, Option.bind_eq_bind, Option.bind_some,
    defaulted?_some, hFilter, required?_some, RecoveryAction.decode?_name, hFallback, Option.pure_def]

/-! ## Steps -/

theorem StepKind.decode?_name (k : StepKind) :
    StepKind.decode? (ofJson (.str k.name)) = some k := by
  cases k <;> rfl

/-- A value that is left out when it is null. -/
def unlessNull (v : Json) : Option Json := if v = .null then none else some v

theorem defaulted?_unlessNull {good : Json.Num → Prop} {v : Json} (h : v.Proper good) :
    defaulted? ((unlessNull v).map ofJson) .null toJson? = some v := by
  unfold unlessNull
  split
  · rename_i hNull
    exact hNull ▸ rfl
  · exact toJson?_ofJson h

/-- What is written of a step, field by field. -/
def Step.written (s : Step) : List (Option Json) :=
  [some (.str s.id), s.name.map .str, some (.str s.kind.name),
    unlessEmpty s.dependsOn (textsJson s.dependsOn),
    unlessEmpty s.inputMapping (.obj (s.inputMapping.map fun e => (e.1, .str e.2))),
    s.condition.map .str, s.trueBranch.map .str, s.falseBranch.map .str,
    s.loopConfig.map LoopConfig.encode, s.retryPolicy.map RetryPolicy.encode,
    s.errorConfig.map ErrorConfig.encode, s.timeout.map Duration.encode, unlessNull s.config]

theorem Step.encode_eq (s : Step) : s.encode = .obj (recordEntries Step.fieldNames s.written) := by
  unfold encode
  split
  · rename_i hNull
    have hConfig : unlessNull s.config = none := if_pos hNull
    simp only [optionalEntry_eq, recordEntries, fieldNames, written, hConfig, Option.map_some,
      Option.map_none, Option.toList_some, Option.toList_none, List.append_assoc, List.append_nil]
  · rename_i hSome
    have hConfig : unlessNull s.config = some s.config := if_neg hSome
    simp only [optionalEntry_eq, recordEntries, fieldNames, written, hConfig, Option.map_some,
      Option.toList_some, List.append_assoc, List.append_nil]

theorem Step.decode?_encode (positional : Bool) {s : Step} (h : s.Sound) :
    Step.decode? positional (ofJson s.encode) = some s := by
  have hDepends := defaulted?_unlessEmpty (asListOf?_textsJson s.dependsOn)
  have hMapping := defaulted?_unlessEmpty (asDictOf?_texts h.inputMapping)
  have hLoop : optional? ((s.loopConfig.map LoopConfig.encode).map ofJson)
      (LoopConfig.decode? positional) = some s.loopConfig :=
    optional?_map (fun _ _ => nofun) fun c hc => LoopConfig.decode?_encode _ (h.loopConfig c hc)
  have hRetry : optional? ((s.retryPolicy.map RetryPolicy.encode).map ofJson)
      (RetryPolicy.decode? positional) = some s.retryPolicy :=
    optional?_map (fun _ _ => nofun) fun p hp => RetryPolicy.decode?_encode _ (h.retryPolicy p hp)
  have hError : optional? ((s.errorConfig.map ErrorConfig.encode).map ofJson)
      (ErrorConfig.decode? positional) = some s.errorConfig :=
    optional?_map (fun _ _ => nofun) fun c hc => ErrorConfig.decode?_encode _ (h.errorConfig c hc)
  have hTimeout := optional?_duration h.timeout
  have hConfig := defaulted?_unlessNull h.config
  rw [decode?, encode_eq, fields?_record positional (by decide) (by decide) rfl]
  refine bind_some_of_eq rfl ?_
  -- The fields are read one after another, each from its own place.
  refine bind_some_of_eq (rfl : required? (some (ofJson (.str s.id))) asText? = _) ?_
  refine bind_some_of_eq (optional?_text s.name) ?_
  refine bind_some_of_eq (StepKind.decode?_name s.kind) ?_
  refine bind_some_of_eq hDepends (bind_some_of_eq hMapping ?_)
  refine bind_some_of_eq (optional?_text s.condition) ?_
  refine bind_some_of_eq (optional?_text s.trueBranch) ?_
  refine bind_some_of_eq (optional?_text s.falseBranch) ?_
  refine bind_some_of_eq hLoop (bind_some_of_eq hRetry (bind_some_of_eq hError ?_))
  exact bind_some_of_eq hTimeout (bind_some_of_eq hConfig rfl)

/-! ## Workflows -/

theorem Settings.encode_eq (s : Settings) :
    s.encode = .obj (recordEntries [["maxConcurrentSteps"], ["stepTimeout"]]
      [s.maxConcurrentSteps.map Json.ofNat, s.stepTimeout.map Duration.encode]) := by
  simp only [encode, optionalEntry_eq, recordEntries, List.append_nil]

theorem Settings.decode?_encode (positional : Bool) {s : Settings} (h : s.Sound) :
    Settings.decode? positional (ofJson s.encode) = some s := by
  have hSteps : optional? ((s.maxConcurrentSteps.map Json.ofNat).map ofJson)
      (asNatBelow? countBound) = some s.maxConcurrentSteps :=
    optional?_map (fun _ _ => nofun) fun n hn => asNatBelow?_ofNat (h.maxConcurrentSteps n hn)
  have hTimeout := optional?_duration h.stepTimeout
  rw [decode?, encode_eq, fields?_record positional (by decide) (by decide) rfl]
  simp only [List.map_cons, List.map_nil, Option.bind_eq_bind, Option.bind_some, hSteps, hTimeout,
    Option.pure_def]

/-- The fields of a workflow, in order. -/
def Definition.fieldNames : List (List String) :=
  [["id"], ["name"], ["description"], ["version"], ["variables"], ["steps"], ["settings"]]

/-- What is written of a workflow, field by field. -/
def Definition.written (w : Definition) : List (Option Json) :=
  [w.id.map .str, some (.str w.name), w.description.map .str, some (.str w.version),
    unlessEmpty w.vars (.obj w.vars), some (.arr (w.steps.map Step.encode)),
    w.settings.map Settings.encode]

theorem Definition.encode_eq (w : Definition) :
    w.encode = .obj (recordEntries Definition.fieldNames w.written) := by
  simp only [encode, optionalEntry_eq, recordEntries, fieldNames, written, Option.map_some,
    Option.toList_some, List.append_assoc, List.append_nil]

/-- A workflow reads back from its value. -/
theorem Definition.decode?_encode (positional : Bool) {w : Definition} (h : w.Sound) :
    Definition.decode? positional (Document.ofJson w.encode) = some w := by
  have hVars := defaulted?_unlessEmpty (asDictOf?_toJson? h.vars)
  have hSteps := asListOf?_arr fun s hs => Step.decode?_encode positional (h.steps s hs)
  have hSettings : optional? ((w.settings.map Settings.encode).map Document.ofJson)
      (Settings.decode? positional) = some w.settings :=
    optional?_map (fun _ _ => nofun) fun s hs => Settings.decode?_encode _ (h.settings s hs)
  have hFields := @fields?_record fieldNames w.written positional (by decide) (by decide) rfl
  rw [decode?, encode_eq]
  simp only [fieldNames] at hFields ⊢
  rw [hFields]
  simp only [written, List.map_cons, List.map_nil, Option.map_some, Option.bind_eq_bind,
    Option.bind_some, required?_some, defaulted?_some, asText?_ofJson_str, optional?_text,
    hVars, hSteps, hSettings, Option.pure_def]

/-! ## Definitions that were read -/

/-- A definition whose value reads back from its text, and that has the right structure, is read
from its own text. -/
theorem Definition.parse_toText {w : Definition} (h : w.Sound) (hText : w.encode.ReadsBack)
    (hStructure : w.structureError? = none) : Definition.parse .json (w.toText .json) = .ok w := by
  have hDocument : Format.json.readDocument? (w.toText .json) = some (Document.ofJson w.encode) :=
    hText
  have hDecode := Definition.decode?_encode true h
  rw [parse, hDocument, ofDocument, Option.bind_some, decide_eq_true rfl, hDecode]
  simp only [hStructure]

/-- A definition that was read from a value is read from the value that is written of it, whatever
names, defaults and empty parts the first value had. Where that value reads back from its text and
the definition has the right structure, it is also read from its text. -/
theorem Definition.decode?_encode_of_decode? {v : Json} (hv : v.Proper Json.Num.InRange)
    {w : Definition} (h : Definition.decode? true (Document.ofJson v) = some w) :
    Definition.decode? true (Document.ofJson w.encode) = some w ∧
      (w.encode.ReadsBack → w.structureError? = none →
        Definition.parse .json (w.toText .json) = .ok w) :=
  have hSound := Definition.sound_of_decode? hv h
  ⟨Definition.decode?_encode true hSound, Definition.parse_toText hSound⟩

/-- A definition in a form that people write: a step as a list of its fields, a kind under its other
name, parts left out. -/
def nightlyValue : Json :=
  .obj [("name", .str "nightly"),
    ("steps", .arr [.arr [.str "begin", .null, .str "start"],
      .obj [("type", .str "action"), ("id", .str "fetch"), ("dependsOn", .arr [.str "begin"]),
        ("inputMapping", .obj [("to", .str "$.target"), ("from", .str "$.source")]),
        ("retryPolicy", .obj [("maxRetries", .num (.int 3)), ("backoffMultiplier", .num (.int 2))]),
        ("timeout", .str "90s"), ("config", .obj [("pages", .num (.int 7))])]])]

/-- The definition that `nightlyValue` gives. -/
def nightly : Definition :=
  { id := none
    name := "nightly"
    description := none
    version := "1.0"
    vars := []
    steps :=
      [{ id := "begin", name := none, kind := .start, dependsOn := [], inputMapping := []
         condition := none, trueBranch := none, falseBranch := none, loopConfig := none
         retryPolicy := none, errorConfig := none, timeout := none, config := .null },
       { id := "fetch", name := none, kind := .action, dependsOn := ["begin"]
         inputMapping := [("to", "$.target"), ("from", "$.source")]
         condition := none, trueBranch := none, falseBranch := none, loopConfig := none
         retryPolicy := some ⟨3, .ofSeconds 1, .ofSeconds 60, .two⟩
         errorConfig := none, timeout := some (.ofSeconds 90)
         config := .obj [("pages", .num (.int 7))] }]
    settings := none }

theorem nightly_reads_back :
    nightlyValue.Proper Json.Num.InRange ∧
      Definition.decode? true (Document.ofJson nightlyValue) = some nightly ∧
      Definition.decode? true (Document.ofJson nightly.encode) = some nightly ∧
      Definition.parse .json (nightly.toText .json) = .ok nightly := by
  have hProper : nightlyValue.Proper Json.Num.InRange := Json.proper_of_isProper (by decide +kernel)
  have hDecode : Definition.decode? true (Document.ofJson nightlyValue) = some nightly := by
    decide +kernel
  have hNumbers : nightly.encode.Proper Json.Num.ReadsBack :=
    Json.proper_of_isProper (by decide +kernel)
  have hText : nightly.encode.ReadsBack := Json.readsBack hNumbers (by decide +kernel)
  have hBack := Definition.decode?_encode_of_decode? hProper hDecode
  exact ⟨hProper, hDecode, hBack.1, hBack.2 hText (by decide +kernel)⟩

end Workflow

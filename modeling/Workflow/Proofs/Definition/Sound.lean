/-
Workflow.Proofs.Definition.Sound — definitions that can be written and read back.

A definition comes out of a document only if its counts stay below their
bounds, its durations below the limit of durations, its factors are finite,
no fallback value is null, and no dictionary in it has a key twice. These
are the conditions under which what is written of it means the same again.

* `Step.Sound`, `Settings.Sound`, `Definition.Sound` — the conditions.
* `Step.sound_of_decode?`, `Definition.sound_of_decode?` — what is read from
  a value meets them.
-/
import Workflow.Definition.Decode
import Workflow.Proofs.Document.Values
import Workflow.Proofs.Number.Bits
import Workflow.Proofs.Time.Duration

namespace Workflow

theorem Json.Num.isFinite_toFloat {n : Json.Num} (h : n.InRange) : n.toFloat.isFinite = true := by
  cases n with
  | int n =>
    obtain ⟨hLow, hHigh⟩ := h
    have hLeast : Json.leastInt = -9223372036854775808 := rfl
    have hGreatest : Json.greatestInt = 18446744073709551615 := rfl
    exact Number.isFinite_nearest_one _ (by omega)
  | float x => exact h

/-! ## Conditions -/

/-- The count of iterations is below its bound. -/
def LoopConfig.Sound (c : LoopConfig) : Prop := c.maxIterations < countBound

/-- A retry policy with its count and its delays below their bounds and a finite factor. -/
structure RetryPolicy.Sound (p : RetryPolicy) : Prop where
  maxRetries : p.maxRetries < retryBound
  initialDelay : p.initialDelay.seconds < Duration.limit
  maxDelay : p.maxDelay.seconds < Duration.limit
  backoff : ∃ x : Float, x.isFinite = true ∧ p.backoffMultiplier = .ofFloat x

/-- A fallback value is not null. -/
structure ErrorConfig.Sound (c : ErrorConfig) : Prop where
  fallback : ∀ v ∈ c.fallbackValue, v ≠ .null ∧ v.Proper Json.Num.InRange

/-- A step whose parts can be written and read back. -/
structure Step.Sound (s : Step) : Prop where
  inputMapping : (Dict.keys s.inputMapping).Nodup
  loopConfig : ∀ c ∈ s.loopConfig, c.Sound
  retryPolicy : ∀ p ∈ s.retryPolicy, p.Sound
  errorConfig : ∀ c ∈ s.errorConfig, c.Sound
  timeout : ∀ d ∈ s.timeout, d.seconds < Duration.limit
  config : s.config.Proper Json.Num.InRange

/-- Settings whose parts can be written and read back. -/
structure Settings.Sound (s : Settings) : Prop where
  maxConcurrentSteps : ∀ n ∈ s.maxConcurrentSteps, n < countBound
  stepTimeout : ∀ d ∈ s.stepTimeout, d.seconds < Duration.limit

/-- A workflow whose parts can be written and read back. -/
structure Definition.Sound (w : Definition) : Prop where
  vars : Dict.Proper Json.Num.InRange w.vars
  steps : ∀ s ∈ w.steps, s.Sound
  settings : ∀ s ∈ w.settings, s.Sound

/-! ## What is read meets the conditions -/

open Document

section Read

variable {v : Json} {positional : Bool} {d : Document}

theorem Duration.seconds_lt_of_decode? {d : Document} {t : Duration}
    (h : Duration.decode? d = some t) : t.seconds < Duration.limit := by
  obtain ⟨text, -, hText⟩ := Option.bind_eq_some_iff.mp h
  exact Duration.seconds_lt_of_read? hText

theorem LoopConfig.sound_of_decode? {c : LoopConfig}
    (h : LoopConfig.decode? positional d = some c) : c.Sound := by
  obtain ⟨places, -, h⟩ := Option.bind_eq_some_iff.mp h
  split at h
  · obtain ⟨collection, -, h⟩ := Option.bind_eq_some_iff.mp h
    obtain ⟨iterations, hIterations, h⟩ := Option.bind_eq_some_iff.mp h
    obtain ⟨body, -, h⟩ := Option.bind_eq_some_iff.mp h
    cases h
    exact of_defaulted? (p := (· < countBound)) hIterations (by decide) fun _ _ _ => lt_of_asNatBelow?
  · cases h

/-- The factor of a proper value is finite. -/
theorem finite_of_asFloat? (hv : v.Proper Json.Num.InRange) {b : Number.Bits64}
    (h : (asFloat? (ofJson v)).map Number.Bits64.ofFloat = some b) :
    ∃ x : Float, x.isFinite = true ∧ b = .ofFloat x := by
  obtain ⟨x, hx, rfl⟩ := Option.map_eq_some_iff.mp h
  cases hv with
  | num hRange =>
    obtain rfl := Option.some.inj hx
    exact ⟨_, Json.Num.isFinite_toFloat hRange, rfl⟩
  | null | bool | str | arr | obj => cases hx

theorem RetryPolicy.sound_of_decode? (hv : v.Proper Json.Num.InRange) {p : RetryPolicy}
    (h : RetryPolicy.decode? positional (ofJson v) = some p) : p.Sound := by
  obtain ⟨places, hPlaces, h⟩ := Option.bind_eq_some_iff.mp h
  have hFilled := filled_of_fields? hv hPlaces
  split at h
  · obtain ⟨retries, hRetries, h⟩ := Option.bind_eq_some_iff.mp h
    obtain ⟨initial, hInitial, h⟩ := Option.bind_eq_some_iff.mp h
    obtain ⟨greatest, hGreatest, h⟩ := Option.bind_eq_some_iff.mp h
    obtain ⟨backoff, hBackoff, h⟩ := Option.bind_eq_some_iff.mp h
    cases h
    simp only [List.forall_mem_cons] at hFilled
    exact
      { maxRetries := of_defaulted? (p := (· < retryBound)) hRetries (by decide) fun _ _ _ =>
          lt_of_asNatBelow?
        initialDelay := of_defaulted? (p := fun t : Duration => t.seconds < Duration.limit) hInitial
          (by decide) fun _ _ _ => Duration.seconds_lt_of_decode?
        maxDelay := of_defaulted? (p := fun t : Duration => t.seconds < Duration.limit) hGreatest
          (by decide) fun _ _ _ => Duration.seconds_lt_of_decode?
        backoff := of_defaulted?
          (p := fun b : Number.Bits64 => ∃ x : Float, x.isFinite = true ∧ b = .ofFloat x) hBackoff
          ⟨2.0, by decide +kernel, by decide +kernel⟩ fun d hd b hb => by
            obtain ⟨u, hu, rfl⟩ := hFilled.2.2.2.1 d hd
            exact finite_of_asFloat? hu hb }
  · cases h

theorem proper_of_toJson? (hv : v.Proper Json.Num.InRange) {u : Json}
    (h : (ofJson v).toJson? = some u) : u.Proper Json.Num.InRange := by
  rw [toJson?_ofJson hv] at h
  exact Option.some.inj h ▸ hv

theorem ErrorConfig.sound_of_decode? (hv : v.Proper Json.Num.InRange) {c : ErrorConfig}
    (h : ErrorConfig.decode? positional (ofJson v) = some c) : c.Sound := by
  obtain ⟨places, hPlaces, h⟩ := Option.bind_eq_some_iff.mp h
  have hFilled := filled_of_fields? hv hPlaces
  split at h
  · obtain ⟨filter, -, h⟩ := Option.bind_eq_some_iff.mp h
    obtain ⟨action, -, h⟩ := Option.bind_eq_some_iff.mp h
    obtain ⟨value, hValue, h⟩ := Option.bind_eq_some_iff.mp h
    cases h
    simp only [List.forall_mem_cons] at hFilled
    refine ⟨forall_of_optional? hValue fun d hd hSome w hw => ?_⟩
    obtain ⟨u, hu, rfl⟩ := hFilled.2.2.1 d hd
    refine ⟨?_, proper_of_toJson? hu hw⟩
    rw [toJson?_ofJson hu] at hw
    rintro rfl
    obtain rfl := Option.some.inj hw
    cases hSome
  · cases h

theorem Step.sound_of_decode? (hv : v.Proper Json.Num.InRange) {s : Step}
    (h : Step.decode? positional (ofJson v) = some s) : s.Sound := by
  obtain ⟨places, hPlaces, h⟩ := Option.bind_eq_some_iff.mp h
  have hFilled := filled_of_fields? hv hPlaces
  split at h
  · obtain ⟨id, -, h⟩ := Option.bind_eq_some_iff.mp h
    obtain ⟨name, -, h⟩ := Option.bind_eq_some_iff.mp h
    obtain ⟨kind, -, h⟩ := Option.bind_eq_some_iff.mp h
    obtain ⟨dependsOn, -, h⟩ := Option.bind_eq_some_iff.mp h
    obtain ⟨inputMapping, hMapping, h⟩ := Option.bind_eq_some_iff.mp h
    obtain ⟨condition, -, h⟩ := Option.bind_eq_some_iff.mp h
    obtain ⟨trueBranch, -, h⟩ := Option.bind_eq_some_iff.mp h
    obtain ⟨falseBranch, -, h⟩ := Option.bind_eq_some_iff.mp h
    obtain ⟨loopConfig, hLoop, h⟩ := Option.bind_eq_some_iff.mp h
    obtain ⟨retryPolicy, hRetry, h⟩ := Option.bind_eq_some_iff.mp h
    obtain ⟨errorConfig, hError, h⟩ := Option.bind_eq_some_iff.mp h
    obtain ⟨timeout, hTimeout, h⟩ := Option.bind_eq_some_iff.mp h
    obtain ⟨config, hConfig, h⟩ := Option.bind_eq_some_iff.mp h
    cases h
    simp only [List.forall_mem_cons] at hFilled
    obtain ⟨-, -, -, -, -, -, -, -, -, hRetryPlace, hErrorPlace, -, hConfigPlace, -⟩ := hFilled
    exact
      { inputMapping := of_defaulted? (p := fun m => (Dict.keys m).Nodup) hMapping List.nodup_nil
          fun _ _ _ => keys_nodup_of_asDictOf?
        loopConfig := forall_of_optional? hLoop fun _ _ _ _ => LoopConfig.sound_of_decode?
        retryPolicy := forall_of_optional? hRetry fun d hd _ _ hp => by
          obtain ⟨u, hu, rfl⟩ := hRetryPlace d hd
          exact RetryPolicy.sound_of_decode? hu hp
        errorConfig := forall_of_optional? hError fun d hd _ _ hc => by
          obtain ⟨u, hu, rfl⟩ := hErrorPlace d hd
          exact ErrorConfig.sound_of_decode? hu hc
        timeout := forall_of_optional? hTimeout fun _ _ _ _ => Duration.seconds_lt_of_decode?
        config := of_defaulted? (p := fun u : Json => u.Proper Json.Num.InRange) hConfig .null
          fun d hd u hd' => by
            obtain ⟨w, hw, rfl⟩ := hConfigPlace d hd
            exact proper_of_toJson? hw hd' }
  · cases h

theorem Settings.sound_of_decode? {s : Settings}
    (h : Settings.decode? positional d = some s) : s.Sound := by
  obtain ⟨places, -, h⟩ := Option.bind_eq_some_iff.mp h
  split at h
  · obtain ⟨steps, hSteps, h⟩ := Option.bind_eq_some_iff.mp h
    obtain ⟨timeout, hTimeout, h⟩ := Option.bind_eq_some_iff.mp h
    cases h
    exact ⟨forall_of_optional? hSteps fun _ _ _ _ => lt_of_asNatBelow?,
      forall_of_optional? hTimeout fun _ _ _ _ => Duration.seconds_lt_of_decode?⟩
  · cases h

/-- A workflow that is read from a value can be written and read back. -/
theorem Definition.sound_of_decode? (hv : v.Proper Json.Num.InRange) {w : Definition}
    (h : Definition.decode? positional (Document.ofJson v) = some w) : w.Sound := by
  obtain ⟨places, hPlaces, h⟩ := Option.bind_eq_some_iff.mp h
  have hFilled := filled_of_fields? hv hPlaces
  split at h
  · simp only [Option.bind_eq_bind, Option.bind_eq_some_iff] at h
    obtain ⟨id, -, name, -, description, -, version, -, vars, hVars, steps, hSteps, settings,
      hSettings, h⟩ := h
    cases h
    simp only [List.forall_mem_cons] at hFilled
    obtain ⟨-, -, -, -, hVarsPlace, hStepsPlace, -⟩ := hFilled
    exact
      { vars := of_defaulted? (p := Dict.Proper Json.Num.InRange) hVars ⟨List.nodup_nil, nofun⟩
          fun d hd _ hRead => by
            obtain ⟨u, hu, rfl⟩ := hVarsPlace d hd
            exact proper_of_asDictOf? hu hRead
        steps := of_required? (p := fun steps => ∀ s ∈ steps, s.Sound) hSteps fun d hd _ hRead => by
          obtain ⟨u, hu, rfl⟩ := hStepsPlace d hd
          exact forall_of_asListOf? hu hRead fun _ hu _ => Step.sound_of_decode? hu
        settings := forall_of_optional? hSettings fun _ _ _ _ => Settings.sound_of_decode? }
  · cases h

end Read

end Workflow

/-
Workflow.Proofs.Expr.Form — a check of form and evaluation agree.

Whether a template has sound form can be asked without any data: its
regions are found and parsed, and none is evaluated. Evaluation finds and
parses the same regions, one after the other, and stops at the first that
has an error. So it finds no fault with the form of what has been checked,
and what has failed the check has a value for no data: it stops at the
region that is malformed, or in front of it.

* `AgreesOnForm` — a check and an evaluation agree.
* `evaluate_agrees`, `evaluateTemplate_agrees` — templates.
* `evaluateCondition_agrees`, `evaluateCollection_agrees` — texts whose
  braces may be left out.
-/
import Workflow.Proofs.Expr.Outcome
import Workflow.Proofs.Expr.Regions

namespace Workflow.Expr

/-- A check and an evaluation agree: what passes the check is evaluated without an error of form, or a
crash, on all data, and what fails it has an error on all data. -/
structure AgreesOnForm {α : Type} (check : Except Fault Unit)
    (outcome : DataContext → Except Fault α) : Prop where
  sound : check = .ok () → ∀ ctx fault, outcome ctx = .error fault →
    ∃ e, fault = .error e ∧ ¬ e.IsOfForm
  malformed : ∀ e, check = .error (.error e) → ∀ ctx, ∃ e', outcome ctx = .error (.error e')
  crash : check = .error .crash → ∀ ctx, outcome ctx = .error .crash

section

variable {ctx : DataContext} {parts : List Segment} {text : String}

/-! ## Regions -/

/-- A region that can be parsed has a value or an error that is none of form. -/
theorem evalRegion_ofValues {body : List Char} {offset : Nat} {e : Expr}
    (h : parseRegion body offset = .ok e) : OfValues (evalRegion ctx body offset) := by
  rw [evalRegion, h]
  exact eval_ofValues ctx e

theorem parse_of_checkSegments (h : checkSegments parts = .ok ()) {body : List Char} {offset : Nat}
    (hMem : .region body offset ∈ parts) : ∃ e, parseRegion body offset = .ok e := by
  induction parts with
  | nil => cases hMem
  | cons part parts ih =>
    cases part with
    | text cs => exact ih h (by simpa using hMem)
    | region body' offset' =>
      rw [checkSegments] at h
      split at h
      · rename_i e hParse
        rcases List.mem_cons.mp hMem with hHere | hMore
        · cases hHere
          exact ⟨e, hParse⟩
        · exact ih h hMore
      · cases h

/-- The first error of pieces that have been checked is none of form. -/
theorem Halts.not_isOfForm {e : EvaluationError} {back : List Segment} (h : Halts ctx e parts back)
    (hCheck : Expr.checkSegments parts = .ok ()) : ¬ e.IsOfForm := by
  obtain ⟨body, offset, hMem, hRegion⟩ := h.exists_region
  obtain ⟨tree, hParse⟩ := parse_of_checkSegments hCheck hMem
  exact (evalRegion_ofValues hParse).not_form e hRegion

/-! ## Templates -/

/-- How a template comes out: split, it has a value or the first error of its regions, and the check
parses its regions; otherwise evaluation and check have the same fault. -/
structure GoesBy {α : Type} (text : String) (outcome : DataContext → Except Fault α) : Prop where
  value : ∀ parts ctx, segments text.toList = .ok parts → HaveValues ctx parts →
    ∃ v, outcome ctx = .ok v
  error : ∀ parts ctx e back, segments text.toList = .ok parts → Halts ctx e parts back →
    outcome ctx = .error (.error e)
  fault : ∀ fault ctx, segments text.toList = .error fault → outcome ctx = .error fault

theorem GoesBy.agrees {α : Type} {outcome : DataContext → Except Fault α}
    (h : GoesBy text outcome) : AgreesOnForm (checkTemplate text) outcome := by
  unfold checkTemplate
  cases hParts : segments text.toList with
  | error fault =>
    refine ⟨nofun, fun e hCheck ctx => ⟨e, ?_⟩, fun hCheck ctx => ?_⟩
    · cases hCheck
      exact h.fault _ ctx hParts
    · cases hCheck
      exact h.fault _ ctx hParts
  | ok parts =>
    refine ⟨fun hCheck ctx fault hFault => ?_, fun e hCheck ctx => ?_, fun hCheck => ?_⟩
    · rcases haveValues_or_halts ctx parts with hValues | ⟨e, back, hHalts⟩
      · obtain ⟨v, hValue⟩ := h.value parts ctx hParts hValues
        cases hValue.symm.trans hFault
      · cases (h.error parts ctx e back hParts hHalts).symm.trans hFault
        exact ⟨e, rfl, hHalts.not_isOfForm (asFault_eq_ok_iff.mp hCheck)⟩
    · rcases haveValues_or_halts ctx parts with hValues | ⟨e', back, hHalts⟩
      · simp [checkSegments_of_haveValues hValues, asFault] at hCheck
      · exact ⟨e', h.error parts ctx e' back hParts hHalts⟩
    · exact absurd hCheck (asFault_ne_crash _)

theorem evaluate_agrees (text : String) :
    AgreesOnForm (checkTemplate text) fun ctx => evaluate ctx text :=
  GoesBy.agrees {
    value := fun _ _ hParts hValues => evaluate_of_haveValues hParts hValues
    error := fun _ _ _ _ hParts hHalts => hHalts.evaluate hParts
    fault := fun fault ctx hParts => by simp [evaluate, hParts] }

theorem evaluateTemplate_agrees (text : String) :
    AgreesOnForm (checkTemplate text) fun ctx => evaluateTemplate ctx text :=
  GoesBy.agrees {
    value := fun parts ctx hParts hValues => by
      obtain ⟨out, hOut⟩ := render_of_haveValues hValues
      exact ⟨String.ofList out, by simp [evaluateTemplate, hParts, hOut, Except.map, asFault]⟩
    error := fun _ _ _ _ hParts hHalts => by
      simp [evaluateTemplate, hParts, hHalts.render, Except.map, asFault]
    fault := fun fault ctx hParts => by simp [evaluateTemplate, hParts] }

/-! ## With braces or without -/

theorem evaluateBare_agrees (text : String) :
    AgreesOnForm (checkBare text) fun ctx => evaluateBare ctx text := by
  unfold checkBare evaluateBare
  split
  · exact evaluate_agrees text
  · cases hParse : parseRegion text.toList 0 with
    | error e =>
      refine ⟨by rintro ⟨⟩, fun _ _ ctx => ⟨e, ?_⟩, by rintro ⟨⟩⟩
      rw [evalRegion, hParse]
      rfl
    | ok tree =>
      refine ⟨fun _ ctx fault hFault => ?_, by rintro _ ⟨⟩, by rintro ⟨⟩⟩
      cases hRegion : evalRegion ctx text.toList 0 with
      | ok v => simp [hRegion, asFault] at hFault
      | error e =>
        simp only [hRegion, asFault, Except.error.injEq] at hFault
        exact ⟨e, hFault.symm, (evalRegion_ofValues hParse).not_form e hRegion⟩

/-- A value of the wrong type is no error of form. -/
theorem AgreesOnForm.andThen {α β : Type} {check : Except Fault Unit}
    {outcome : DataContext → Except Fault α} (h : AgreesOnForm check outcome)
    {next : DataContext → Except Fault β}
    (hNext : ∀ ctx, (∃ v, outcome ctx = .ok v ∧ ∀ fault, next ctx = .error fault →
        ∃ e, fault = .error e ∧ ¬ e.IsOfForm) ∨
      ∃ fault, outcome ctx = .error fault ∧ next ctx = .error fault) :
    AgreesOnForm check next where
  sound hCheck ctx fault hFault := by
    rcases hNext ctx with ⟨v, -, hType⟩ | ⟨fault', hError, hSame⟩
    · exact hType fault hFault
    · cases hSame.symm.trans hFault
      exact h.sound hCheck ctx fault hError
  malformed e hCheck ctx := by
    obtain ⟨e', hError⟩ := h.malformed e hCheck ctx
    rcases hNext ctx with ⟨v, hValue, -⟩ | ⟨fault, hFault, hSame⟩
    · cases hValue.symm.trans hError
    · cases hFault.symm.trans hError
      exact ⟨e', hSame⟩
  crash hCheck ctx := by
    rcases hNext ctx with ⟨v, hValue, -⟩ | ⟨fault, hFault, hSame⟩
    · cases hValue.symm.trans (h.crash hCheck ctx)
    · cases hFault.symm.trans (h.crash hCheck ctx)
      exact hSame

theorem evaluateCondition_agrees (text : String) :
    AgreesOnForm (checkBare text) fun ctx => evaluateCondition ctx text := by
  refine (evaluateBare_agrees text).andThen fun ctx => ?_
  unfold evaluateCondition
  cases evaluateBare ctx text with
  | error fault => exact .inr ⟨fault, rfl, rfl⟩
  | ok v =>
    refine .inl ⟨v, rfl, fun fault hFault => ?_⟩
    cases v with
    | arr | obj =>
      cases hFault
      exact ⟨_, rfl, id⟩
    | _ => cases hFault

theorem evaluateCollection_agrees (text : String) :
    AgreesOnForm (checkBare text) fun ctx => evaluateCollection ctx text := by
  refine (evaluateBare_agrees text).andThen fun ctx => ?_
  unfold evaluateCollection
  cases evaluateBare ctx text with
  | error fault => exact .inr ⟨fault, rfl, rfl⟩
  | ok v =>
    refine .inl ⟨v, rfl, fun fault hFault => ?_⟩
    cases v with
    | arr => cases hFault
    | _ =>
      cases hFault
      exact ⟨_, rfl, id⟩

end

end Workflow.Expr

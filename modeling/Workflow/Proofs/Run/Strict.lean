/-
Workflow.Proofs.Run.Strict — what strict validation settles.

Strict validation checks the form of every expression of a definition, and
a definition is valid only if all of them pass. What has passed is evaluated
without an error of form on all data, so no step of a valid definition is
kept from starting by one, or by a crash. What may still go wrong is a
matter of values.

* `Step.passes_of_problems?`, `Definition.passes_of_isValid` — the checks
  behind a report without errors.
* `resolveInput_fault`, `startFault?_of_passes` — what may go wrong with a
  step whose texts have passed.
* `Definition.form_settled_by_checks` — the main result.
-/
import Mathlib.Data.List.Basic
import Workflow.Definition.Validation
import Workflow.Proofs.Expr.Form
import Workflow.Proofs.Graph.Guards
import Workflow.Proofs.Run.Crash
import Workflow.Proofs.Run.Replay

namespace Workflow

/-! ## Reports -/

/-- What is mapped without a failure holds the image of every member. -/
theorem exists_of_mapM_some {α β : Type} {f : α → Option β} {xs : List α} {ys : List β}
    (h : xs.mapM f = some ys) : ∀ x ∈ xs, ∃ y ∈ ys, f x = some y := by
  induction xs generalizing ys with
  | nil => simp
  | cons x xs ih =>
    rw [List.mapM_cons] at h
    obtain ⟨y, hFirst, hMore⟩ := Option.bind_eq_some_iff.mp h
    obtain ⟨rest, hRest, hPut⟩ := Option.bind_eq_some_iff.mp hMore
    cases hPut
    intro u hMem
    rcases List.mem_cons.mp hMem with rfl | hLater
    · exact ⟨y, List.mem_cons_self, hFirst⟩
    · obtain ⟨z, hAmong, hImage⟩ := ih hRest u hLater
      exact ⟨z, List.mem_cons_of_mem y hAmong, hImage⟩

/-- All expressions of a step pass their checks. -/
def Step.Passes (s : Step) : Prop := ∀ check ∈ s.checks, check.2 = .ok ()

/-- A step without problems passes its checks. -/
theorem Step.passes_of_problems? {s : Step} (h : s.problems? = some []) : s.Passes := by
  unfold problems? at h
  unfold Passes
  generalize s.checks = checks at h ⊢
  induction checks with
  | nil => simp
  | cons check checks ih =>
    obtain ⟨field, outcome⟩ := check
    simp only [List.foldr_cons] at h
    split at h
    · cases h
    · cases h
    · cases h
    · rename_i found hRest
      cases h
      simpa using ih hRest

variable {d : Definition} {how : Strictness} {report : Report}

theorem Definition.errors_of_stepReport? {s : Step} (h : stepReport? true s = some report) :
    s.problems? = some report.errors := by
  unfold stepReport? at h
  obtain ⟨found, hFound, rfl⟩ := Option.map_eq_some_iff.mp h
  exact hFound

/-- Every step of a definition that is valid under strict validation passes its checks. -/
theorem Definition.passes_of_isValid (hReport : d.validate how = some report)
    (hStrict : how.expressions = true) (hValid : report.isValid = true) :
    ∀ s ∈ d.steps, s.Passes := by
  unfold validate at hReport
  obtain ⟨reports, hSteps, rfl⟩ := Option.map_eq_some_iff.mp hReport
  rw [hStrict] at hSteps
  have hNone : ∀ r ∈ reports, r.errors = [] := by
    intro r hMem
    have hAll := List.isEmpty_iff.mp hValid
    exact List.flatMap_eq_nil_iff.mp hAll r (List.mem_cons_of_mem _ hMem)
  intro s hMem
  obtain ⟨r, hAmong, hOwn⟩ := exists_of_mapM_some hSteps s hMem
  apply Step.passes_of_problems?
  rw [errors_of_stepReport? hOwn, hNone r hAmong]

/-! ## Starting a step -/

namespace Step.Passes

variable {s : Step}

theorem mapping (h : s.Passes) {entry : String × String} (hMem : entry ∈ s.inputMapping) :
    Expr.checkTemplate entry.2 = .ok () := by
  refine h ("inputMapping." ++ entry.1, Expr.checkTemplate entry.2) ?_
  have hHere := List.mem_map_of_mem (f := fun e : String × String =>
    ("inputMapping." ++ e.1, Expr.checkTemplate e.2)) hMem
  unfold checks
  exact List.mem_append_left _ (List.mem_append_left _ hHere)

theorem condition (h : s.Passes) {text : String} (hText : s.condition = some text) :
    Expr.checkBare text = .ok () :=
  h ("condition", Expr.checkBare text) (by simp [checks, hText])

theorem collection (h : s.Passes) {config : LoopConfig} (hConfig : s.loopConfig = some config) :
    Expr.checkBare config.collectionExpr = .ok () :=
  h ("loopConfig.collectionExpr", Expr.checkBare config.collectionExpr) (by simp [checks, hConfig])

end Step.Passes

/-- Why a step cannot start is an error of a field, and none of form. -/
def Scheduler.StartFault.IsOfValues (fault : StartFault) : Prop :=
  ∃ field e, fault = .error (StepError.of .evaluation (field ++ ": " ++ e.message)) ∧
    ¬ Expr.EvaluationError.IsOfForm e

namespace Scheduler

variable {g : Graph} {s : Scheduler g} {i : g.Index} {fault : StartFault}

theorem expressionFault_isOfValues {e : Expr.EvaluationError} (field : String)
    (h : ¬ e.IsOfForm) : (expressionFault field (.error e)).IsOfValues :=
  ⟨field, e, rfl, h⟩

/-- What goes wrong with an input whose texts have been checked is no matter of form. -/
theorem resolveInput_fault {ctx : Expr.DataContext} {mapping : Dict String}
    (hChecked : ∀ entry ∈ mapping, Expr.checkTemplate entry.2 = .ok ())
    (h : resolveInput ctx mapping = .error fault) : fault.IsOfValues := by
  obtain ⟨entry, hMem, hParam⟩ := exists_fault_of_resolveInput h
  obtain ⟨inner, hInner, rfl⟩ := evaluate_of_resolveParam_error hParam
  obtain ⟨e, rfl, hForm⟩ :=
    (Expr.evaluate_agrees entry.2).sound (hChecked entry hMem) ctx inner hInner
  exact expressionFault_isOfValues _ hForm

/-- What keeps a step with sound settings from starting, when its texts have been checked, is no
matter of form. -/
theorem startFault?_of_passes (hSet : (g.step i).WellSet) (hPasses : (g.step i).Passes)
    (h : s.startFault? i = some fault) : fault.IsOfValues := by
  unfold startFault? at h
  split at h
  · cases h
  · rename_i hKind
    cases hText : (g.step i).condition with
    | none =>
      have hBlank := (hSet.condition hKind).1
      rw [hText] at hBlank
      cases hBlank
    | some text =>
      rw [hText] at h
      split at h
      · rename_i inner hInner
        obtain ⟨e, rfl, hForm⟩ := (Expr.evaluateCondition_agrees text).sound
          (hPasses.condition hText) (s.dataContext i) inner hInner
        cases h
        exact expressionFault_isOfValues _ hForm
      · cases h
  · rename_i hKind
    obtain ⟨config, hConfig, -⟩ := hSet.loop hKind
    rw [hConfig] at h
    dsimp only at h
    split at h
    · rename_i inner hInner
      obtain ⟨e, rfl, hForm⟩ := (Expr.evaluateCollection_agrees config.collectionExpr).sound
        (hPasses.collection hConfig) (s.dataContext i) inner hInner
      cases h
      exact expressionFault_isOfValues _ hForm
    · cases h
  · split at h
    · rename_i hInput
      cases h
      exact resolveInput_fault (fun entry hMem => hPasses.mapping hMem) hInput
    · cases h

end Scheduler

/-! ## The whole definition -/

section

variable {allowOrphans : Bool} {g : Graph}

/-- Every step of the graph of a definition that is valid under strict validation has sound settings
and passes its checks. -/
theorem Graph.step_of_isValid (hReport : d.validate how = some report)
    (hStrict : how.expressions = true) (hValid : report.isValid = true)
    (hCompile : Graph.compile allowOrphans d.steps = .ok g) (i : g.Index) :
    (g.step i).WellSet ∧ (g.step i).Passes := by
  have hSettings := holds_of_compile hCompile .settings
  obtain ⟨-, start, bodies, -, -, rfl⟩ := compile_ok hCompile
  have hMem := stepAt_mem d.steps i
  exact ⟨hSettings _ hMem, d.passes_of_isValid hReport hStrict hValid _ hMem⟩

end

/-- A check of form and evaluation agree, for templates and for texts without braces. So no step of a
definition that is valid under strict validation is kept from starting by an error of form, or by a
crash. -/
theorem Definition.form_settled_by_checks :
    (∀ text,
      Expr.AgreesOnForm (Expr.checkTemplate text) (fun ctx => Expr.evaluate ctx text) ∧
      Expr.AgreesOnForm (Expr.checkTemplate text) (fun ctx => Expr.evaluateTemplate ctx text) ∧
      Expr.AgreesOnForm (Expr.checkBare text) (fun ctx => Expr.evaluateCondition ctx text) ∧
      Expr.AgreesOnForm (Expr.checkBare text) (fun ctx => Expr.evaluateCollection ctx text)) ∧
    ∀ (d : Definition) how report, d.validate how = some report → how.expressions = true →
      report.isValid = true → ∀ allowOrphans g, Graph.compile allowOrphans d.steps = .ok g →
      ∀ (s : Scheduler g) i fault, s.startFault? i = some fault →
        ∃ field e, fault = .error (StepError.of .evaluation (field ++ ": " ++ e.message)) ∧
          ¬ Expr.EvaluationError.IsOfForm e := by
  refine ⟨fun text => ⟨Expr.evaluate_agrees text, Expr.evaluateTemplate_agrees text,
    Expr.evaluateCondition_agrees text, Expr.evaluateCollection_agrees text⟩, ?_⟩
  intro d how report hReport hStrict hValid allowOrphans g hCompile s i fault hFault
  obtain ⟨hSet, hPasses⟩ := Graph.step_of_isValid hReport hStrict hValid hCompile i
  exact Scheduler.startFault?_of_passes hSet hPasses hFault

/-- A parameter asks for a name that nobody knows. -/
def Script.strangeName : Script where
  steps := [.plain "start" .start [],
    { Step.plain "a" .action ["start"] with inputMapping := [("x", "\x7b\x7b secret \x7d\x7d")] },
    .plain "end" .finish ["a"]]
  input := .null
  cues := []

/-- The definition of a script. -/
def Script.definition (script : Script) : Definition where
  id := none
  name := "script"
  description := none
  version := Definition.defaultVersion
  vars := []
  steps := script.steps
  settings := none

/-- The unknown name passes strict validation, and keeps its step from starting. -/
theorem Definition.strangeName_settled : ∃ report g, ∃ (s : Scheduler g) (i : g.Index),
    ∃ fault field e, Script.strangeName.definition.validate ⟨true, false⟩ = some report ∧
      report.isValid = true ∧ Graph.compile false Script.strangeName.steps = .ok g ∧
      s.startFault? i = some fault ∧
      fault = .error (StepError.of .evaluation (field ++ ": " ++ e.message)) ∧
      ¬ Expr.EvaluationError.IsOfForm e := by
  have hValid : (Script.strangeName.definition.validate ⟨true, false⟩).any (·.isValid) = true := by
    decide +kernel
  have hShows : Script.strangeName.shows (fun _ _ => True) (fun _ p =>
      ∃ i, (p.scheduler.startFault? i).isSome = true) := by
    decide +kernel
  obtain ⟨report, hReport, hValid⟩ := (Option.any_eq_true _ _).mp hValid
  obtain ⟨g, p, hCompile, -, i, hFault⟩ := Script.exists_of_shows hShows
  obtain ⟨fault, hFault⟩ := Option.isSome_iff_exists.mp hFault
  obtain ⟨field, e, hError, hForm⟩ := Definition.form_settled_by_checks.2
    Script.strangeName.definition ⟨true, false⟩ report hReport rfl hValid false g hCompile
    p.scheduler i fault hFault
  exact ⟨report, g, p.scheduler, i, fault, field, e, hReport, hValid, hCompile, hFault, hError,
    hForm⟩

end Workflow

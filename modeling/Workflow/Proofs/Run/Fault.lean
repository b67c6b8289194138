/-
Workflow.Proofs.Run.Fault — what keeps a step from starting.

Before a step can start, the expressions in its texts are evaluated. If one
has a problem, the step fails with an evaluation error, except that a
parameter whose path leads nowhere is null. If one crashes, the scheduler is
lost; which texts do so does not depend on the run.

* `Scheduler.startFault?` — why the start of a step fails, if it does.
* `resolveParam_of_resolveInput`, `exists_fault_of_resolveInput` — an input is
  resolved parameter by parameter, up to the first fault.
* `Graph.Safe` — a step all of whose texts can be split.
* `safe_of_startFault?`, `not_safe_of_crash` — only such steps start, and
  no such step crashes.
-/
import Workflow.Proofs.Expr.Split
import Workflow.Run.Scheduler.Turn

namespace Workflow

variable {g : Graph}

/-- The texts of a step with expressions in them. -/
def Graph.texts (g : Graph) (i : g.Index) : List String :=
  match g.kindOf i with
  | .start => []
  | .condition => [(g.step i).condition.getD ""]
  | .loop => ((g.step i).loopConfig.map (·.collectionExpr)).toList
  | _ => (g.step i).inputMapping.map (·.2)

theorem Graph.texts_of_kind {g : Graph} {i : g.Index} (hStart : g.kindOf i ≠ .start)
    (hCondition : g.kindOf i ≠ .condition) (hLoop : g.kindOf i ≠ .loop) :
    g.texts i = (g.step i).inputMapping.map (·.2) := by
  unfold texts
  split
  · contradiction
  · contradiction
  · contradiction
  · rfl

/-- Whether all texts of a step can be split into regions. -/
def Graph.Safe (g : Graph) (i : g.Index) : Prop := ∀ text ∈ g.texts i, Expr.Splits text

namespace Scheduler

/-- Why the start of a step fails, if it does. -/
def startFault? (s : Scheduler g) (i : g.Index) : Option StartFault :=
  match g.kindOf i with
  | .start => none
  | .condition =>
    match Expr.evaluateCondition (s.dataContext i) ((g.step i).condition.getD "") with
    | .error fault => some (expressionFault "condition" fault)
    | .ok _ => none
  | .loop =>
    match (g.step i).loopConfig with
    | none => some (.error (StepError.of .evaluation "loop step has no loopConfig"))
    | some config =>
      match Expr.evaluateCollection (s.dataContext i) config.collectionExpr with
      | .error fault => some (expressionFault "collectionExpr" fault)
      | .ok _ => none
  | _ =>
    match resolveInput (s.dataContext i) (g.step i).inputMapping with
    | .error fault => some fault
    | .ok _ => none

theorem expressionFault_kind {field : String} {fault : Expr.Fault} {e : StepError}
    (h : expressionFault field fault = .error e) : e.kind = .evaluation := by
  cases fault with
  | error _ => cases h; rfl
  | crash => cases h

/-! ## The parameters of a step -/

section

variable {ctx : Expr.DataContext} {mapping : Dict String} {input : Dict Json} {fault : StartFault}

theorem resolveInput_cons (ctx : Expr.DataContext) (entry : String × String)
    (rest : Dict String) : resolveInput ctx (entry :: rest) =
      (resolveParam ctx entry.1 entry.2).bind fun v =>
        (resolveInput ctx rest).map ((entry.1, v) :: ·) := by
  rw [resolveInput]
  cases resolveParam ctx entry.1 entry.2 <;> rfl

/-- When an input has been resolved, so have been all its parameters. -/
theorem resolveParam_of_resolveInput (h : resolveInput ctx mapping = .ok input) :
    ∀ entry ∈ mapping, ∃ v, resolveParam ctx entry.1 entry.2 = .ok v ∧ (entry.1, v) ∈ input := by
  induction mapping generalizing input with
  | nil => nofun
  | cons first rest ih =>
    rw [resolveInput_cons] at h
    cases hParam : resolveParam ctx first.1 first.2 with
    | error fault => simp [hParam, Except.bind] at h
    | ok v =>
      cases hRest : resolveInput ctx rest with
      | error fault => simp [hParam, hRest, Except.bind, Except.map] at h
      | ok more =>
        obtain rfl : (first.1, v) :: more = input := by
          simpa [hParam, hRest, Except.bind, Except.map] using h
        refine List.forall_mem_cons.mpr ⟨⟨v, hParam, List.mem_cons_self⟩, fun entry hEntry => ?_⟩
        obtain ⟨w, hLater, hMem⟩ := ih hRest entry hEntry
        exact ⟨w, hLater, List.mem_cons_of_mem _ hMem⟩

/-- When an input has not been resolved, the fault is that of one of its parameters. -/
theorem exists_fault_of_resolveInput (h : resolveInput ctx mapping = .error fault) :
    ∃ entry ∈ mapping, resolveParam ctx entry.1 entry.2 = .error fault := by
  induction mapping with
  | nil => cases h
  | cons first rest ih =>
    rw [resolveInput_cons] at h
    cases hParam : resolveParam ctx first.1 first.2 with
    | error fault' =>
      obtain rfl : fault' = fault := by simpa [hParam, Except.bind] using h
      exact ⟨first, List.mem_cons_self, hParam⟩
    | ok v =>
      cases hRest : resolveInput ctx rest with
      | error fault' =>
        obtain rfl : fault' = fault := by simpa [hParam, hRest, Except.bind, Except.map] using h
        obtain ⟨entry, hMem, hFault⟩ := ih hRest
        exact ⟨entry, List.mem_cons_of_mem _ hMem, hFault⟩
      | ok more => simp [hParam, hRest, Except.bind, Except.map] at h

/-- A parameter that is not resolved has a text that could not be evaluated. -/
theorem evaluate_of_resolveParam_error {param text : String}
    (h : resolveParam ctx param text = .error fault) :
    ∃ inner, Expr.evaluate ctx text = .error inner ∧
      fault = expressionFault ("inputMapping." ++ param) inner := by
  unfold resolveParam at h
  split at h
  · cases h
  · cases h
  · rename_i inner _ hInner
    cases h
    exact ⟨inner, hInner, rfl⟩

/-- A parameter that is resolved has the value of its text, or null if its path leads nowhere. -/
theorem evaluate_of_resolveParam {param text : String} {v : Json}
    (h : resolveParam ctx param text = .ok v) : Expr.evaluate ctx text = .ok v ∨
      v = .null ∧ ∃ path, Expr.evaluate ctx text = .error (.error (.undefinedPath path)) := by
  unfold resolveParam at h
  split at h
  · rename_i hValue
    cases h
    exact .inl hValue
  · rename_i path hPath
    cases h
    exact .inr ⟨rfl, path, hPath⟩
  · cases h

/-- Every parameter that has been resolved has the value of its text, or null if its path leads
nowhere. -/
theorem value_of_resolveInput (h : resolveInput ctx mapping = .ok input) :
    ∀ entry ∈ mapping, ∃ v, (entry.1, v) ∈ input ∧
      (Expr.evaluate ctx entry.2 = .ok v ∨
        v = .null ∧ ∃ path, Expr.evaluate ctx entry.2 = .error (.error (.undefinedPath path))) := by
  intro entry hEntry
  obtain ⟨v, hParam, hMem⟩ := resolveParam_of_resolveInput h entry hEntry
  exact ⟨v, hMem, evaluate_of_resolveParam hParam⟩

theorem resolveInput_kind {e : StepError} (h : resolveInput ctx mapping = .error (.error e)) :
    e.kind = .evaluation := by
  obtain ⟨entry, -, hParam⟩ := exists_fault_of_resolveInput h
  obtain ⟨inner, -, hFault⟩ := evaluate_of_resolveParam_error hParam
  exact expressionFault_kind hFault.symm

end

/-- What keeps a step from starting is a problem of its expressions. -/
theorem startFault?_kind {s : Scheduler g} {i : g.Index} {e : StepError}
    (h : s.startFault? i = some (.error e)) : e.kind = .evaluation := by
  unfold startFault? at h
  split at h
  · cases h
  · split at h
    · exact expressionFault_kind (Option.some.inj h)
    · cases h
  · split at h
    · cases h; rfl
    · split at h
      · exact expressionFault_kind (Option.some.inj h)
      · cases h
  · split at h
    · rename_i hInput
      cases h
      exact resolveInput_kind hInput
    · cases h

/-! ## Crashes -/

theorem expressionFault_eq_crash_iff {field : String} {fault : Expr.Fault} :
    expressionFault field fault = .crash ↔ fault = .crash := by
  cases fault <;> simp [expressionFault]

theorem splits_of_resolveInput {ctx : Expr.DataContext} {mapping : Dict String}
    {input : Dict Json} (h : resolveInput ctx mapping = .ok input) :
    ∀ entry ∈ mapping, Expr.Splits entry.2 := by
  intro entry hEntry
  have hCrash := Expr.evaluate_eq_crash_iff ctx entry.2
  obtain ⟨v, -, hValue | ⟨-, path, hPath⟩⟩ := value_of_resolveInput h entry hEntry
  · simpa [hValue] using hCrash
  · simpa [hPath] using hCrash

theorem not_splits_of_resolveInput {ctx : Expr.DataContext} {mapping : Dict String}
    (h : resolveInput ctx mapping = .error .crash) : ∃ entry ∈ mapping, ¬ Expr.Splits entry.2 := by
  obtain ⟨entry, hMem, hParam⟩ := exists_fault_of_resolveInput h
  obtain ⟨inner, hInner, hFault⟩ := evaluate_of_resolveParam_error hParam
  rw [expressionFault_eq_crash_iff.mp hFault.symm] at hInner
  exact ⟨entry, hMem, (Expr.evaluate_eq_crash_iff ctx entry.2).mp hInner⟩

/-- Only a step whose texts can be split starts. -/
theorem safe_of_startFault? {s : Scheduler g} {i : g.Index} (h : s.startFault? i = none) :
    g.Safe i := by
  unfold startFault? at h
  unfold Graph.Safe
  split at h
  · rename_i hKind
    simp [Graph.texts, hKind]
  · rename_i hKind
    split at h
    · cases h
    · rename_i hTaken
      have hCrash := Expr.evaluateCondition_eq_crash_iff (s.dataContext i)
        ((g.step i).condition.getD "")
      simpa [Graph.texts, hKind, hTaken] using hCrash
  · rename_i hKind
    split at h
    · cases h
    · rename_i config hConfig
      split at h
      · cases h
      · rename_i hItems
        have hCrash := Expr.evaluateCollection_eq_crash_iff (s.dataContext i) config.collectionExpr
        simpa [Graph.texts, hKind, hConfig, hItems] using hCrash
  · rename_i hStart hCondition hLoop
    split at h
    · cases h
    · rename_i hInput
      rw [Graph.texts_of_kind hStart hCondition hLoop]
      intro text hText
      obtain ⟨entry, hMem, rfl⟩ := List.mem_map.mp hText
      exact splits_of_resolveInput hInput entry hMem

/-- No step whose texts can be split crashes. -/
theorem not_safe_of_crash {s : Scheduler g} {i : g.Index} (h : s.startFault? i = some .crash) :
    ¬ g.Safe i := by
  unfold startFault? at h
  unfold Graph.Safe
  split at h
  · cases h
  · rename_i hKind
    split at h
    · rename_i hFault
      rw [expressionFault_eq_crash_iff.mp (Option.some.inj h)] at hFault
      have hCrash := Expr.evaluateCondition_eq_crash_iff (s.dataContext i)
        ((g.step i).condition.getD "")
      simpa [Graph.texts, hKind, hFault] using hCrash
    · cases h
  · rename_i hKind
    split at h
    · cases h
    · rename_i config hConfig
      split at h
      · rename_i hFault
        rw [expressionFault_eq_crash_iff.mp (Option.some.inj h)] at hFault
        have hCrash := Expr.evaluateCollection_eq_crash_iff (s.dataContext i) config.collectionExpr
        simpa [Graph.texts, hKind, hConfig, hFault] using hCrash
      · cases h
  · rename_i hStart hCondition hLoop
    split at h
    · rename_i hInput
      rw [Option.some.inj h] at hInput
      obtain ⟨entry, hMem, hSplits⟩ := not_splits_of_resolveInput hInput
      rw [Graph.texts_of_kind hStart hCondition hLoop]
      exact fun hAll => hSplits (hAll entry.2 (List.mem_map_of_mem hMem))
    · cases h

end Scheduler

end Workflow

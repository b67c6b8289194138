/-
Workflow.Proofs.Run.Mapping — malformed parameters.

A parameter whose text is malformed keeps its step from starting, unless the
text is masked: its first region without a value has a path that leads
nowhere, and what is malformed stands behind it. The parameter is null
then, as if nothing but its value were missing.

* `malformed_iff_masked` — which malformed parameters are resolved.
* `startReady_of_malformed` — the steps of all others fail.
-/
import Workflow.Proofs.Expr.Regions
import Workflow.Proofs.Run.Crash

namespace Workflow.Scheduler

/-- A malformed parameter that has been resolved is masked. -/
theorem masked_of_resolveInput {ctx : Expr.DataContext} {mapping : Dict String} {input : Dict Json}
    (h : resolveInput ctx mapping = .ok input) {entry : String × String} (hMem : entry ∈ mapping)
    (hMalformed : Expr.checkTemplate entry.2 ≠ .ok ()) : Expr.Masked ctx entry.2 := by
  obtain ⟨v, -, hValue⟩ := value_of_resolveInput h entry hMem
  refine (Expr.masked_iff ctx entry.2).mpr ⟨hMalformed, ?_⟩
  exact hValue.imp (fun hValue => ⟨v, hValue⟩) (·.2)

/-- When the input of a step has been resolved, its malformed parameters are those that are masked, and
these are null. -/
theorem malformed_iff_masked {ctx : Expr.DataContext} {mapping : Dict String} {input : Dict Json}
    (h : resolveInput ctx mapping = .ok input) :
    ∀ entry ∈ mapping, (Expr.checkTemplate entry.2 ≠ .ok () ↔ Expr.Masked ctx entry.2) ∧
      (Expr.Masked ctx entry.2 → (entry.1, .null) ∈ input) := by
  refine fun entry hMem => ⟨⟨masked_of_resolveInput h hMem, fun hMasked => ?_⟩, fun hMasked => ?_⟩
  · exact ((Expr.masked_iff ctx entry.2).mp hMasked).1
  · obtain ⟨path, hPath⟩ := hMasked.evaluate
    obtain ⟨v, hInput, hValue | ⟨rfl, -⟩⟩ := value_of_resolveInput h entry hMem
    · rw [hPath] at hValue
      cases hValue
    · exact hInput

/-- A context in which only a name is given. -/
def nameContext : Expr.DataContext where
  json := .obj [("name", .str "Ada")]
  node := []
  context := []
  workflow := .null
  execution := .null
  now := ⟨0, 0⟩

/-- A greeting, and a note that is malformed behind a missing value. -/
def noteMapping : Dict String :=
  [("greeting", "Hello, \x7b\x7b $json.name \x7d\x7d!"),
    ("note", "\x7b\x7b $json.missing \x7d\x7d \x7b\x7b ) \x7d\x7d")]

theorem resolve_noteMapping : resolveInput nameContext noteMapping =
    .ok [("greeting", .str "Hello, Ada!"), ("note", .null)] := by
  decide +kernel

theorem checkTemplate_note :
    Expr.checkTemplate "\x7b\x7b $json.missing \x7d\x7d \x7b\x7b ) \x7d\x7d" ≠ .ok () := by
  decide +kernel

/-- The note is masked. -/
theorem note_masked : resolveInput nameContext noteMapping =
      .ok [("greeting", .str "Hello, Ada!"), ("note", .null)] ∧
    Expr.Masked nameContext "\x7b\x7b $json.missing \x7d\x7d \x7b\x7b ) \x7d\x7d" :=
  ⟨resolve_noteMapping, (malformed_iff_masked resolve_noteMapping ("note", _)
    (List.mem_cons_of_mem _ List.mem_cons_self)).1.mp checkTemplate_note⟩

/-- The input of a step can be resolved though a parameter is malformed. -/
theorem resolved_of_malformed : ∃ ctx mapping input, resolveInput ctx mapping = .ok input ∧
    ∃ entry ∈ mapping, Expr.checkTemplate entry.2 ≠ .ok () :=
  ⟨nameContext, noteMapping, _, resolve_noteMapping,
    ("note", _), List.mem_cons_of_mem _ List.mem_cons_self, checkTemplate_note⟩

variable {g : Graph}

/-- A step with a malformed parameter that is not masked cannot start. -/
theorem exists_startFault_of_malformed {s : Scheduler g} {i : g.Index} (hStart : g.kindOf i ≠ .start)
    (hCondition : g.kindOf i ≠ .condition) (hLoop : g.kindOf i ≠ .loop) {entry : String × String}
    (hMem : entry ∈ (g.step i).inputMapping) (hMalformed : Expr.checkTemplate entry.2 ≠ .ok ())
    (hShown : ¬ Expr.Masked (s.dataContext i) entry.2) : ∃ fault, s.startFault? i = some fault := by
  unfold startFault?
  split
  · contradiction
  · contradiction
  · contradiction
  · split
    · exact ⟨_, rfl⟩
    · rename_i hInput
      exact absurd (masked_of_resolveInput hInput hMem hMalformed) hShown

/-- A ready step with a malformed parameter that is not masked fails when it is started, if all its
texts can be split. -/
theorem startReady_of_malformed (hg : g.Sound) {s : Scheduler g} {i : g.Index}
    (hOpen : s.isOver = false) (hReady : s.statusOf i = .ready) (hStart : g.kindOf i ≠ .start)
    (hCondition : g.kindOf i ≠ .condition) (hLoop : g.kindOf i ≠ .loop) (hSafe : g.Safe i)
    {entry : String × String} (hMem : entry ∈ (g.step i).inputMapping)
    (hMalformed : Expr.checkTemplate entry.2 ≠ .ok ())
    (hShown : ¬ Expr.Masked ((s.begin i).dataContext i) entry.2) :
    ∃ e, e.kind = .evaluation ∧ (s.startReady i).statusOf i = .failed ∧
      ((s.startReady i).state.result i).error = some e ∧ (s.startReady i).crashed = false := by
  obtain ⟨fault, hFault⟩ :=
    exists_startFault_of_malformed hStart hCondition hLoop hMem hMalformed hShown
  cases fault with
  | error e => exact ⟨e, startReady_fails hg hOpen hReady hFault⟩
  | crash => exact absurd hSafe (not_safe_of_crash hFault)

end Workflow.Scheduler

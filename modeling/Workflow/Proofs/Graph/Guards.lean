/-
Workflow.Proofs.Graph.Guards — what error handlers guard.

An error handler lists the steps that it guards. Of two edges between the
same steps only the first one is kept, and what a condition or a loop says
of another step goes first: a step that sends a run on to the handler
itself, as a branch or as a body, is not guarded by it, whether it is
listed or not.

* `Step.ownTargets` — the steps that a step sends a run on to.
* `tagBetween?_eq_errorCatch_iff` — when one step is guarded by another.
* `guards_of_compile` — the main result.
-/
import Workflow.Proofs.Graph.Bodies
import Workflow.Proofs.Graph.Order

namespace Workflow

/-- The ids of the steps that a step sends a run on to, as its branches or its body. -/
def Step.ownTargets (s : Step) : List String :=
  s.trueBranch.toList ++ s.falseBranch.toList ++ (s.loopConfig.map LoopConfig.body).toList

theorem Step.mem_ownTargets {s : Step} {id : String} :
    id ∈ s.ownTargets ↔ s.trueBranch = some id ∨ s.falseBranch = some id ∨
      s.loopConfig.map LoopConfig.body = some id := by
  simp only [ownTargets, List.mem_append, Option.mem_toList, or_assoc]

/-- Only conditions have branches. -/
theorem Step.WellSet.branches_eq_none {s : Step} (h : s.WellSet) (hKind : s.kind ≠ .condition) :
    s.trueBranch = none ∧ s.falseBranch = none := by
  have hNone := mt h.ofCondition hKind
  simp only [not_or, Bool.not_eq_true, Option.isSome_eq_false_iff, Option.isNone_iff_eq_none]
    at hNone
  exact hNone.2

/-- Only loops have a body. -/
theorem Step.WellSet.loopConfig_eq_none {s : Step} (h : s.WellSet) (hKind : s.kind ≠ .loop) :
    s.loopConfig = none := by
  simpa using mt h.ofLoop hKind

namespace Graph

/-! ## Tags -/

/-- A step declares an edge to each of its branches and to its body, if all settings belong to the
kinds of steps that they stand in. -/
theorem ownTag?_eq_some_iff {source target : Step} {tag : EdgeTag} (h : source.WellSet) :
    ownTag? source target = some tag ↔
      source.trueBranch = some target.id ∧ tag = .branchTrue ∨
      source.falseBranch = some target.id ∧ tag = .branchFalse ∨
      source.loopConfig.map LoopConfig.body = some target.id ∧ tag = .loopBody := by
  unfold ownTag?
  cases hKind : source.kind with
  | condition =>
    have hNoLoop := h.loopConfig_eq_none (by simp [hKind])
    have hDistinct := (h.condition hKind).2
    grind
  | loop =>
    obtain ⟨hTrue, hFalse⟩ := h.branches_eq_none (by simp [hKind])
    grind
  | _ =>
    obtain ⟨hTrue, hFalse⟩ := h.branches_eq_none (by simp [hKind])
    have hNoLoop := h.loopConfig_eq_none (by simp [hKind])
    simp [hTrue, hFalse, hNoLoop]

/-- It declares no edge to any other step. -/
theorem ownTag?_eq_none_iff {source target : Step} (h : source.WellSet) :
    ownTag? source target = none ↔ target.id ∉ source.ownTargets := by
  rw [Step.mem_ownTargets, Option.eq_none_iff_forall_ne_some]
  simp only [ne_eq, ownTag?_eq_some_iff h]
  constructor
  · rintro hNone (hTrue | hFalse | hBody)
    · exact hNone _ (.inl ⟨hTrue, rfl⟩)
    · exact hNone _ (.inr (.inl ⟨hFalse, rfl⟩))
    · exact hNone _ (.inr (.inr ⟨hBody, rfl⟩))
  · rintro hNone tag (⟨hTrue, -⟩ | ⟨hFalse, -⟩ | ⟨hBody, -⟩)
    · exact hNone (.inl hTrue)
    · exact hNone (.inr (.inl hFalse))
    · exact hNone (.inr (.inr hBody))

theorem ownTag?_ne_errorCatch (source target : Step) : ownTag? source target ≠ some .errorCatch := by
  unfold ownTag?
  split
  · split <;> [skip; split] <;> simp
  · split <;> simp
  · simp

/-- A step is guarded by an error handler that lists it, unless it sends the run on to the handler. -/
theorem tagBetween?_eq_errorCatch_iff {source target : Step} (h : source.WellSet)
    (hKind : target.kind = .errorHandler) :
    tagBetween? source target = some .errorCatch ↔
      source.id ∈ target.dependsOn ∧ target.id ∉ source.ownTargets := by
  rw [← ownTag?_eq_none_iff h, tagBetween?, dependencyTag?, if_pos hKind]
  cases hOwn : ownTag? source target with
  | none => simp
  | some tag =>
    have hOther : tag ≠ .errorCatch := fun hTag => ownTag?_ne_errorCatch source target (hTag ▸ hOwn)
    simp [hOther]

/-! ## The steps of one tag -/

/-- The steps of one tag, in the order of the steps. -/
theorem filter_inStepOrder {n : Nat} {tagged : List (Fin n × EdgeTag)} (h : tagged.Nodup)
    (tag : EdgeTag) :
    ((Edge.inStepOrder tagged).filter fun t => t.2 = tag).map Prod.fst =
      (List.finRange n).filter fun i => (i, tag) ∈ tagged := by
  have hOne : ∀ i, ((tagged.filter fun t => t.1 = i).filter fun t => t.2 = tag).map Prod.fst =
      if (i, tag) ∈ tagged then [i] else [] := by
    intro i
    have hSame : ∀ t : Fin n × EdgeTag, (decide (t.2 = tag) && decide (t.1 = i)) = (t == (i, tag)) :=
      fun t => by simp [Prod.ext_iff, Bool.and_comm, Bool.beq_eq_decide_eq]
    rw [List.filter_filter, List.filter_congr fun t _ => hSame t, List.filter_beq, h.count,
      List.map_replicate]
    split <;> rfl
  have hAll : ∀ is : List (Fin n), (is.flatMap fun i => if (i, tag) ∈ tagged then [i] else []) =
      is.filter fun i => (i, tag) ∈ tagged := by
    intro is
    induction is with
    | nil => rfl
    | cons i rest ih =>
      rw [List.flatMap_cons, ih, List.filter_cons]
      split <;> simp_all
  rw [Edge.inStepOrder, List.filter_flatMap, List.map_flatMap, ← hAll]
  exact congrArg List.flatten (List.map_congr_left fun i _ => hOne i)

variable {g : Graph}

theorem guarded_eq (hEdges : g.edges.Nodup) (h : g.Index) :
    g.guarded h = g.indices.filter fun i => Edge.mk i h .errorCatch ∈ g.edges := by
  unfold guarded
  rw [incoming_eq]
  refine (filter_inStepOrder (nodup_sources hEdges h) .errorCatch).trans ?_
  refine List.filter_congr fun i _ => decide_eq_decide.mpr ?_
  rw [← Edge.mem_incoming]
  exact Edge.mem_inStepOrder.symm

/-! ## What an error handler guards -/

/-- What a compiled graph was required to be. -/
theorem holds_of_compile {allowOrphans : Bool} {steps : List Step}
    (h : compile allowOrphans steps = .ok g) (r : Requirement) : r.Holds allowOrphans steps := by
  have hVerdict := verdict_compile allowOrphans steps
  rw [h] at hVerdict
  exact hVerdict r

/-- An error handler guards exactly the steps that it lists, but for those that send the run on to
it themselves, each once and in the order of their definitions. It is among the handlers of exactly
the steps that it guards. -/
theorem guards_of_compile {allowOrphans : Bool} {steps : List Step} {h : g.Index}
    (hCompile : compile allowOrphans steps = .ok g) (hKind : g.kindOf h = .errorHandler) :
    (∀ id ∈ (g.step h).dependsOn, ∃! i, g.idOf i = id) ∧
    (g.guarded h = g.indices.filter fun i =>
      g.idOf i ∈ (g.step h).dependsOn ∧ g.idOf h ∉ (g.step i).ownTargets) ∧
    ∀ i, h ∈ g.handlersOf i ↔ i ∈ g.guarded h := by
  have hSettings : ∀ s ∈ steps, s.WellSet := holds_of_compile hCompile .settings
  have hReferences : ∀ s ∈ steps, ∀ r ∈ s.references, ∃ t ∈ steps, t.id = r.2 :=
    holds_of_compile hCompile .references
  obtain ⟨hIds, start, bodies, -, -, rfl⟩ := compile_ok hCompile
  refine ⟨fun id hId => ?listed, ?guarded, fun i => ?handlers⟩
  case listed =>
    have hNamed : (Step.ReferenceField.dependsOn, id) ∈ (stepAt steps.toArray h).references := by
      simp only [Step.references, List.mem_append]
      exact .inl (.inl (.inl (List.mem_map_of_mem hId)))
    obtain ⟨t, ht, rfl⟩ := hReferences _ (stepAt_mem steps h) _ hNamed
    obtain ⟨n, hn, rfl⟩ := List.getElem_of_mem ht
    refine ⟨⟨n, by simpa using hn⟩, rfl, fun j hj => eq_of_id_eq hIds hj⟩
  case guarded =>
    rw [guarded_eq (nodup_declaredEdges steps.toArray)]
    refine List.filter_congr fun i _ => decide_eq_decide.mpr ?_
    exact (mem_declaredEdges_iff hIds).trans
      (tagBetween?_eq_errorCatch_iff (hSettings _ (stepAt_mem steps i)) hKind)
  case handlers =>
    rw [mem_handlersOf_iff, mem_guarded_iff]

/-- A condition with an error handler as its first branch, which guards some steps. -/
def branched (guarded : List String) : Script where
  steps := [.plain "start" .start [],
    { Step.plain "c" .condition ["start"] with condition := some "true", trueBranch := some "h" },
    .plain "a" .action ["start"], .handler "h" guarded .continueRun,
    .plain "end" .finish ["start"]]
  input := .null
  cues := []

/-- A handler that lists an action and the condition that has it as a branch guards the action. -/
theorem guards_of_branched :
    ∃ g h, compile false (branched ["c", "a"]).steps = .ok g ∧ g.kindOf h = .errorHandler ∧
      (g.step h).dependsOn = ["c", "a"] ∧ (g.guarded h).map g.idOf = ["a"] ∧
      (g.guarded h = g.indices.filter fun i =>
        g.idOf i ∈ (g.step h).dependsOn ∧ g.idOf h ∉ (g.step i).ownTargets) ∧
      ∀ i, h ∈ g.handlersOf i ↔ i ∈ g.guarded h := by
  have hShows : (branched ["c", "a"]).shows (fun _ _ => True) (fun g _ => ∃ h : g.Index,
      g.kindOf h = .errorHandler ∧ (g.step h).dependsOn = ["c", "a"] ∧
        (g.guarded h).map g.idOf = ["a"]) := by
    decide +kernel
  obtain ⟨g, -, hCompile, -, h, hKind, hListed, hGuarded⟩ := Script.exists_of_shows hShows
  obtain ⟨-, hAll, hHandlers⟩ := guards_of_compile hCompile hKind
  exact ⟨g, h, hCompile, hKind, hListed, hGuarded, hAll, hHandlers⟩

/-- A handler that lists nothing but the condition that has it as a branch guards nothing, and the
condition has no handler. -/
theorem unguarded_of_branched :
    ∃ g h c, compile false (branched ["c"]).steps = .ok g ∧ g.kindOf h = .errorHandler ∧
      (g.step h).dependsOn = [g.idOf c] ∧ g.guarded h = [] ∧ g.handlersOf c = [] := by
  have hShows : (branched ["c"]).shows (fun _ _ => True) (fun g _ => ∃ h c : g.Index,
      g.kindOf h = .errorHandler ∧ (g.step h).dependsOn = [g.idOf c] ∧ g.guarded h = [] ∧
        g.handlersOf c = []) := by
    decide +kernel
  obtain ⟨g, -, hCompile, -, h, c, hFound⟩ := Script.exists_of_shows hShows
  exact ⟨g, h, c, hCompile, hFound⟩

end Graph

end Workflow

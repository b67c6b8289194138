/-
Workflow.Proofs.Graph.Wired — which edges and ids a compiled graph has.

A definition names the steps that it leads to by their ids, which are
distinct. So a loop has one edge into a body, the edge to the step that its
body begins with, and no two steps are known by the same id.

* `Graph.Wired` — a sound graph in which loops enter their own bodies and
  ids are distinct; `wired_of_compile`.
-/
import Workflow.Proofs.Graph.Sound

namespace Workflow.Graph

/-- A sound graph in which loops enter their own bodies alone and ids are distinct. -/
structure Wired (g : Graph) : Prop extends g.Sound where
  enters : ∀ e ∈ g.edges, e.tag = .loopBody → e.target ∈ g.body e.source
  ids : ∀ i j, g.idOf i = g.idOf j → i = j

/-! ## Edges into bodies -/

section

variable {steps : Array Step}

theorem tag_ne_loopBody_of_mem_dependencyEdges {i : Fin steps.size} {e : Edge steps.size}
    (h : e ∈ dependencyEdges steps i) : e.tag ≠ .loopBody := by
  simp only [dependencyEdges, List.mem_filterMap, Option.map_eq_some_iff] at h
  obtain ⟨_, _, _, _, rfl⟩ := h
  unfold dependencyTag
  split
  · simp
  · split <;> simp

/-- The edge of a loop into a body leads to the step that its settings name. -/
theorem find?_of_mem_ownEdges {i : Fin steps.size} {e : Edge steps.size}
    (h : e ∈ ownEdges steps i) (hTag : e.tag = .loopBody) :
    steps[e.source].kind = .loop ∧
      ∃ c, steps[e.source].loopConfig = some c ∧ find? steps c.body = some e.target := by
  unfold ownEdges at h
  dsimp only at h
  split at h
  · simp only [List.mem_append, Option.mem_toList, Option.bind_eq_some_iff, edgeTo,
      Option.map_eq_some_iff] at h
    rcases h with ⟨_, _, _, _, rfl⟩ | ⟨_, _, _, _, rfl⟩ <;> cases hTag
  · rename_i hKind
    simp only [Option.mem_toList, Option.bind_eq_some_iff, edgeTo, Option.map_eq_some_iff] at h
    obtain ⟨c, hConfig, target, hFind, rfl⟩ := h
    exact ⟨hKind, c, hConfig, hFind⟩
  · cases h

theorem find?_of_loopBody {e : Edge steps.size} (h : e ∈ declaredEdges steps)
    (hTag : e.tag = .loopBody) :
    steps[e.source].kind = .loop ∧
      ∃ c, steps[e.source].loopConfig = some c ∧ find? steps c.body = some e.target := by
  have hMem := (mem_foldl_addEdge h).resolve_left List.not_mem_nil
  rcases List.mem_append.mp hMem with hOwn | hDep
  · obtain ⟨i, _, hOwn⟩ := List.mem_flatMap.mp hOwn
    exact find?_of_mem_ownEdges hOwn hTag
  · obtain ⟨i, _, hDep⟩ := List.mem_flatMap.mp hDep
    exact absurd hTag (tag_ne_loopBody_of_mem_dependencyEdges hDep)

/-- A loop has one edge into a body. -/
theorem target_eq_of_loopBody {e f : Edge steps.size} (he : e ∈ declaredEdges steps)
    (hf : f ∈ declaredEdges steps) (hTagE : e.tag = .loopBody) (hTagF : f.tag = .loopBody)
    (hSource : e.source = f.source) : e.target = f.target := by
  obtain ⟨source, target, tag⟩ := e
  obtain rfl : source = f.source := hSource
  obtain ⟨-, c, hConfig, hTarget⟩ := find?_of_loopBody he hTagE
  obtain ⟨-, c', hConfig', hTarget'⟩ := find?_of_loopBody hf hTagF
  obtain rfl : c = c' := Option.some.inj (hConfig.symm.trans hConfig')
  exact Option.some.inj (hTarget.symm.trans hTarget')

end

/-! ## Ids -/

/-- Steps pass the check for repeated ids if no two of them have the same id. -/
theorem nodup_of_duplicateId? {seen : List String} {steps : List Step}
    (h : duplicateId? seen steps = none) :
    (steps.map Step.id).Nodup ∧ ∀ s ∈ steps, s.id ∉ seen := by
  induction steps generalizing seen with
  | nil => simp
  | cons s rest ih =>
    unfold duplicateId? at h
    split at h
    · cases h
    · rename_i hNew
      obtain ⟨hNodup, hRest⟩ := ih h
      refine ⟨?_, ?_⟩
      · rw [List.map_cons, List.nodup_cons]
        refine ⟨?_, hNodup⟩
        intro hMem
        obtain ⟨t, ht, hId⟩ := List.mem_map.mp hMem
        exact hRest t ht (hId ▸ List.mem_cons_self)
      · intro t ht
        rcases List.mem_cons.mp ht with rfl | ht
        · exact hNew
        · exact fun hSeen => hRest t ht (List.mem_cons_of_mem _ hSeen)

/-! ## Compiled graphs are wired -/

/-- No two steps have the same id. -/
theorem eq_of_id_eq {steps : List Step} (hIds : (steps.map Step.id).Nodup)
    {i j : Fin steps.toArray.size}
    (h : (stepAt steps.toArray i).id = (stepAt steps.toArray j).id) : i = j := by
  have hi : i.val < (steps.map Step.id).length := by simpa using i.isLt
  have hj : j.val < (steps.map Step.id).length := by simpa using j.isLt
  have hEq : (steps.map Step.id)[i.val] = (steps.map Step.id)[j.val] := by
    simpa [stepAt] using h
  exact Fin.ext ((List.Nodup.getElem_inj_iff hIds).mp hEq)

/-- Every compiled graph is wired. -/
theorem wired_of_compile {allowOrphans : Bool} {steps : List Step} {g : Graph}
    (h : compile allowOrphans steps = .ok g) : g.Wired := by
  have hg := sound_of_compile h
  unfold compile at h
  split at h
  · cases h
  · rename_i hIds
    split at h
    · cases h
    · obtain ⟨start, bodies, -, -, -, rfl⟩ := assemble_ok h
      refine { hg with enters := ?_, ids := ?_ }
      · intro e he hTag
        have hKind := (find?_of_loopBody he hTag).1
        obtain ⟨i, hi, hFirst⟩ := hg.body_first e.source hKind
        rw [target_eq_of_loopBody he hFirst hTag rfl rfl]
        exact hi
      · exact fun i j hSame => eq_of_id_eq (nodup_of_duplicateId? hIds).1 hSame

end Workflow.Graph

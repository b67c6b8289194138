/-
Workflow.Proofs.Graph.ExecutionOrder — the order of execution.

The order in which the steps of a graph are listed comes from a search of
its own, which takes the edges as they were declared and not by the order
of the steps. It may give up only on a cycle, and the compiler has let no
cycle pass. So every step is listed once, in front of all steps that its
edges lead to.

* `depthFirst_targets` — the search does not give up.
* `InOrder` — every edge points forward in a list of ids.
* `inOrder_of_compile` — the main result.
-/
import Workflow.Proofs.Graph.Cycle
import Workflow.Proofs.Graph.Declared

namespace Workflow.Graph

/-! ## The search -/

theorem Ordered.nodup {n : Nat} {next : Fin n → List (Fin n)} {order : List (Fin n)}
    (h : Ordered next order) : order.Nodup := by
  induction order with
  | nil => exact List.nodup_nil
  | cons v rest ih => exact List.nodup_cons.mpr ⟨h.1, ih h.2.2⟩

section

variable {g : Graph}

/-- In a sound graph the search for an order meets no cycle. -/
theorem Sound.exists_depthFirst (hg : g.Sound) :
    ∃ order, depthFirst (Edge.targets g.edges) = .ok order := by
  obtain ⟨rank, hRank⟩ := hg.ranked
  have hUp : ∀ i j, Leads (Edge.targets g.edges) i j → rank i < rank j := by
    intro i j hLeads
    obtain ⟨tag, hEdge⟩ := leads_targets_iff.mp hLeads
    exact hRank _ hEdge
  have hNone := cycle?_eq_none_iff.mpr (acyclic_of_rank hUp)
  unfold cycle? at hNone
  cases hSearch : depthFirst (Edge.targets g.edges) with
  | error cycle => simp [hSearch] at hNone
  | ok order => exact ⟨order, rfl⟩

/-- The order of execution is what the search has found. -/
theorem Sound.depthFirst_targets (hg : g.Sound) :
    depthFirst (Edge.targets g.edges) = .ok g.executionOrder := by
  obtain ⟨order, hOrder⟩ := hg.exists_depthFirst
  simp only [executionOrder, topologicalOrder, hOrder]

theorem Sound.executionOrder_perm (hg : g.Sound) : g.executionOrder.Perm g.indices := by
  obtain ⟨hOrdered, hAll⟩ := depthFirst_ok hg.depthFirst_targets
  refine (List.perm_ext_iff_of_nodup hOrdered.nodup (List.nodup_finRange _)).mpr fun i => ?_
  exact iff_of_true (hAll i) (List.mem_finRange i)

theorem Sound.idxOf_lt (hg : g.Sound) {i j : g.Index} {tag : EdgeTag}
    (h : Edge.mk i j tag ∈ g.edges) : g.executionOrder.idxOf i < g.executionOrder.idxOf j := by
  obtain ⟨hOrdered, hAll⟩ := depthFirst_ok hg.depthFirst_targets
  exact hOrdered.idxOf_lt (hAll i) (leads_targets_iff.mpr ⟨tag, h⟩)

end

/-! ## Ids -/

theorem idxOf_map {α β : Type} [DecidableEq α] [DecidableEq β] {f : α → β} (hf : f.Injective)
    (xs : List α) (a : α) : (xs.map f).idxOf (f a) = xs.idxOf a := by
  induction xs with
  | nil => rfl
  | cons x rest ih =>
    by_cases hSame : x = a
    · simp [hSame]
    · rw [List.map_cons, List.idxOf_cons_ne _ fun h => hSame (hf h), List.idxOf_cons_ne _ hSame, ih]

/-- A list has exactly the ids of some steps, each once, and every edge of a graph points forward
in it. -/
structure InOrder (g : Graph) (steps : List Step) (ids : List String) : Prop where
  perm : ids.Perm (steps.map Step.id)
  nodup : ids.Nodup
  forward : ∀ u v tag, (u, v, tag) ∈ g.edgeList → ids.idxOf u < ids.idxOf v

/-- The search for an order of execution goes through every compiled graph, and what it finds is an
order of all steps in which every edge points forward. -/
theorem inOrder_of_compile {allowOrphans : Bool} {steps : List Step} {g : Graph}
    (h : compile allowOrphans steps = .ok g) :
    depthFirst (Edge.targets g.edges) = .ok g.executionOrder ∧
      g.InOrder steps (g.executionOrder.map g.idOf) := by
  have hg := wired_of_compile h
  have hPerm := hg.executionOrder_perm.map g.idOf
  have hInjective : g.idOf.Injective := fun i j hSame => hg.ids i j hSame
  have hNodup := hPerm.nodup_iff.mpr (nodup_ids hg.ids)
  rw [map_idOf_of_compile h] at hPerm
  refine ⟨hg.depthFirst_targets, hPerm, hNodup, fun u v tag hEdge => ?_⟩
  obtain ⟨i, j, hBetween, rfl, rfl⟩ := mem_edgeList_iff.mp hEdge
  rw [idxOf_map hInjective, idxOf_map hInjective]
  exact hg.idxOf_lt hBetween

/-- The order goes through all roots, orphans too. -/
theorem inOrder_forkSteps :
    ∃ g, compile true forkSteps = .ok g ∧
      g.executionOrder.map g.idOf = ["o", "s", "l", "x", "c", "a", "e"] ∧
      depthFirst (Edge.targets g.edges) = .ok g.executionOrder ∧
      g.InOrder forkSteps (g.executionOrder.map g.idOf) := by
  have hOrder : ((compile true forkSteps).toOption.map fun g => g.executionOrder.map g.idOf) =
      some ["o", "s", "l", "x", "c", "a", "e"] := by
    decide +kernel
  cases hCompile : compile true forkSteps with
  | error e =>
    rw [hCompile] at hOrder
    cases hOrder
  | ok g =>
    rw [hCompile] at hOrder
    exact ⟨g, rfl, Option.some.inj hOrder, inOrder_of_compile hCompile⟩

end Workflow.Graph

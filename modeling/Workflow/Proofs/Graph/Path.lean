/-
Workflow.Proofs.Graph.Path — paths through a graph.

A path goes from one step to another along edges. Some steps cannot be
reached from the entry but along certain edges: all paths to them go
through one of these.

* `Graph.Path` — the edges along a path.
* `Graph.OnlyThrough` — all paths from the entry go through certain edges.
* `OnlyThrough.source` — then those to the steps before do so, too.
* `onlyThrough_of_not_mem_closure` — finding out by a search.
-/
import Workflow.Proofs.Graph.Sound

namespace Workflow.Graph

variable {g : Graph}

/-- The edges along a path from one step to another, in order. -/
inductive Path (g : Graph) (start : g.Index) : List (Edge g.size) → g.Index → Prop
  | nil : Path g start [] start
  | snoc {path : List (Edge g.size)} {e : Edge g.size} (hBefore : Path g start path e.source)
      (hEdge : e ∈ g.edges) : Path g start (path ++ [e]) e.target

/-- Whether every path from the entry to a step goes through an edge of a certain kind. -/
def OnlyThrough (g : Graph) (through : Edge g.size → Prop) (i : g.Index) : Prop :=
  ∀ path, g.Path g.entry path i → ∃ e ∈ path, through e

variable {through : Edge g.size → Prop}

/-- No edge at all leads to the entry. -/
theorem OnlyThrough.ne_entry {i : g.Index} (h : g.OnlyThrough through i) : i ≠ g.entry := by
  rintro rfl
  obtain ⟨_, hNone, -⟩ := h [] .nil
  cases hNone

/-- If an edge is of no use to go through, its source can be reached in no other way either. -/
theorem OnlyThrough.source {e : Edge g.size} (h : g.OnlyThrough through e.target)
    (hEdge : e ∈ g.edges) (hOther : ¬ through e) : g.OnlyThrough through e.source := by
  intro path hPath
  obtain ⟨f, hMem, hThrough⟩ := h (path ++ [e]) (hPath.snoc hEdge)
  rcases List.mem_append.mp hMem with hMem | hMem
  · exact ⟨f, hMem, hThrough⟩
  · rw [List.mem_singleton.mp hMem] at hThrough
    exact absurd hThrough hOther

/-- A search that leaves out certain edges does not find what is only reached through them. -/
theorem onlyThrough_of_not_mem_closure [DecidablePred through] {i : g.Index}
    (h : i ∉ closure (Edge.targets (g.edges.filter fun e => ¬ through e)) g.entry) :
    g.OnlyThrough through i := by
  intro path hPath
  by_contra hNone
  push Not at hNone
  refine h ?_
  clear h
  induction hPath with
  | nil => exact mem_closure_self g.entry
  | snoc hBefore hEdge ih =>
    rename_i path e
    have hFound := ih fun f hf => hNone f (List.mem_append_left _ hf)
    refine mem_closure_of_leads hFound (leads_targets_iff.mpr ⟨e.tag, ?_⟩)
    exact List.mem_filter.mpr ⟨hEdge, by simpa using hNone e (by simp)⟩

end Workflow.Graph

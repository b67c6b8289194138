/-
Workflow.Proofs.Graph.Bodies — the bodies of loops are isolated.

The compiler looks at the steps of one body at a time, and only at their
neighbours: nothing but the loop and the body itself leads to such a step,
and no handler guards it. That is enough for the bodies of all loops to lie
apart, since on the way back from a step that two bodies shared one would
come to both loops.

* `Graph.Passes` — one step leads to another without the help of a handler.
* `body_eq_bodyFrom` — a body is what its first step leads to.
* `body_isolated` — the main result.
-/
import Workflow.Proofs.Graph.Wired
import Workflow.Proofs.Run.Replay

namespace Workflow.Graph

variable {g : Graph}

/-- Whether one step leads to another without the help of a handler. -/
def Passes (g : Graph) (i j : g.Index) : Prop :=
  ∃ tag, tag ≠ .errorCatch ∧ Edge.mk i j tag ∈ g.edges

/-- A compiled graph has the edges that its steps declare, and its bodies have been checked. -/
theorem tables_of_compile {allowOrphans : Bool} {steps : List Step}
    (h : compile allowOrphans steps = .ok g) :
    g.edges = declaredEdges g.steps ∧ loopBodies g.steps g.edges = .ok g.bodies := by
  unfold compile at h
  split at h
  · cases h
  · split at h
    · cases h
    · obtain ⟨start, bodies, -, -, hBodies, rfl⟩ := assemble_ok h
      exact ⟨rfl, hBodies⟩

/-- A body that passes the check is what the target of the loop's own edge leads to. -/
theorem members_eq_bodyFrom {loop : g.Index} {members : List g.Index}
    (h : loopBody g.steps g.edges loop = .ok members) :
    ∃ first, Edge.mk loop first .loopBody ∈ g.edges ∧
      members = bodyFrom g.steps g.edges first := by
  unfold loopBody at h
  split at h
  · cases h
  · rename_i first tag hFirst
    obtain rfl : tag = .loopBody := by simpa using List.find?_some hFirst
    dsimp only at h
    split at h
    · cases h
    · cases h
      exact ⟨first, Edge.mem_outgoing.mp (List.mem_of_find?_eq_some hFirst), rfl⟩

theorem body_eq_bodyFrom (h : loopBodies g.steps g.edges = .ok g.bodies) {loop : g.Index}
    (hLoop : g.kindOf loop = .loop) :
    ∃ first, Edge.mk loop first .loopBody ∈ g.edges ∧
      g.body loop = bodyFrom g.steps g.edges first := by
  obtain ⟨hSome, hAll⟩ := loopBodies_ok h
  rcases g.body_cases loop with ⟨b, hb, rfl, hBody⟩ | ⟨hNone, -⟩
  · rw [hBody]
    exact members_eq_bodyFrom (hAll b.1 b.2 hb).2
  · obtain ⟨members, hMem⟩ := hSome loop hLoop
    exact absurd rfl (hNone _ hMem)

theorem mem_bodyFrom_iff_passes {first i : g.Index} :
    i ∈ bodyFrom g.steps g.edges first ↔ Relation.ReflTransGen g.Passes first i := by
  have hStep : Leads (bodyNext g.steps g.edges) = g.Passes :=
    funext fun i => funext fun j => propext leads_bodyNext_iff
  rw [mem_bodyFrom_iff, hStep]

/-- The edge of a loop into its body leads to the step that the settings of the loop name. -/
theorem idOf_first {loop first : g.Index} (hEdges : g.edges = declaredEdges g.steps)
    (hEdge : Edge.mk loop first .loopBody ∈ g.edges) :
    ∃ config, (g.step loop).loopConfig = some config ∧ g.idOf first = config.body := by
  obtain ⟨-, config, hConfig, hFind⟩ := find?_of_loopBody (hEdges ▸ hEdge) rfl
  refine ⟨config, hConfig, ?_⟩
  unfold find? at hFind
  simpa [idOf, step] using List.find?_some hFind

/-- The body of a loop is an isolated part of the graph. It begins with the step that the settings of
the loop name and is all that this step leads to without the help of a handler; it has no Start, End
or Loop in it, no step in common with the body of another loop, and its steps are those that the loop
owns. It is entered by the edge from the loop to the first step alone, and is left nowhere. -/
theorem body_isolated {allowOrphans : Bool} {steps : List Step}
    (hCompile : compile allowOrphans steps = .ok g) {loop : g.Index}
    (hLoop : g.kindOf loop = .loop) :
    ∃ config first, (g.step loop).loopConfig = some config ∧ g.idOf first = config.body ∧
      first ∈ g.body loop ∧
      (∀ i, i ∈ g.body loop ↔ Relation.ReflTransGen g.Passes first i) ∧
      (∀ i ∈ g.body loop, g.kindOf i ≠ .start ∧ g.kindOf i ≠ .finish ∧ g.kindOf i ≠ .loop) ∧
      (∀ other, other ≠ loop → ∀ i ∈ g.body loop, i ∉ g.body other) ∧
      (∀ i, g.owner? i = some loop ↔ i ∈ g.body loop) ∧
      Edge.mk loop first .loopBody ∈ g.edges ∧
      (∀ e ∈ g.edges, e.target ∈ g.body loop → e.source ∉ g.body loop →
        e = ⟨loop, first, .loopBody⟩) ∧
      ∀ e ∈ g.edges, e.source ∈ g.body loop → e.target ∈ g.body loop := by
  obtain ⟨hEdges, hBodies⟩ := tables_of_compile hCompile
  have hg := sound_of_compile hCompile
  obtain ⟨first, hEdge, hBody⟩ := body_eq_bodyFrom hBodies hLoop
  obtain ⟨config, hConfig, hFirst⟩ := idOf_first hEdges hEdge
  have hReach : ∀ i, i ∈ g.body loop ↔ Relation.ReflTransGen g.Passes first i := fun i => by
    rw [hBody, mem_bodyFrom_iff_passes]
  refine ⟨config, first, hConfig, hFirst, (hReach first).mpr .refl, hReach, hg.body_kind loop,
    ?disjoint, fun _ => hg.owner?_eq_some_iff, hEdge, ?entered, ?left⟩
  case disjoint =>
    intro other hOther i hi hi'
    exact hOther (hg.body_disjoint hi' hi)
  case entered =>
    rintro ⟨source, target, tag⟩ he hTarget hOutside
    obtain ⟨hSource, hTag⟩ := (hg.body_source loop target hTarget _ he rfl).resolve_right hOutside
    obtain rfl : source = loop := hSource
    obtain rfl : tag = .loopBody := hTag
    rw [hEdges] at he hEdge
    obtain rfl : target = first := target_eq_of_loopBody he hEdge rfl rfl rfl
    rfl
  case left =>
    exact fun e he hSource => (hg.body_target loop e.source hSource e he rfl).2

/-- The body of a loop that begins with one step and goes on with two others has all three in it, and
none of the rest of the workflow. -/
theorem body_isolated_of_reopened :
    ∃ g loop, compile false Script.reopened.steps = .ok g ∧ g.kindOf loop = .loop ∧
      (g.body loop).map g.idOf = ["a", "b", "c"] ∧
      ∃ first, g.idOf first = "a" ∧ (∀ i, i ∈ g.body loop ↔ Relation.ReflTransGen g.Passes first i) ∧
        ∀ e ∈ g.edges, e.target ∈ g.body loop → e.source ∉ g.body loop →
          e = ⟨loop, first, .loopBody⟩ := by
  have hShows : Script.reopened.shows (fun _ _ => True) (fun g _ => ∃ loop : g.Index,
      g.kindOf loop = StepKind.loop ∧ (g.body loop).map g.idOf = ["a", "b", "c"] ∧
        (g.step loop).loopConfig.map LoopConfig.body = some "a") := by
    decide +kernel
  obtain ⟨g, -, hCompile, -, loop, hLoop, hBody, hConfig⟩ := Script.exists_of_shows hShows
  obtain ⟨config, first, hSome, hFirst, -, hReach, -, -, -, -, hEntered, -⟩ :=
    body_isolated hCompile hLoop
  rw [hSome, Option.map_some, Option.some.injEq] at hConfig
  exact ⟨g, loop, hCompile, hLoop, hBody, first, hFirst.trans hConfig, hReach, hEntered⟩

end Workflow.Graph

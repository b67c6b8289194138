/-
Workflow.Proofs.Graph.Declared — a compiled graph shows what is declared.

Between two steps there is one edge at most, and its tag follows from what
the two definitions say. A step that sends the run on to another one, as a
branch or as the body of a loop, settles the tag; what the other one
depends on counts only where there is no such word. The two tables of
neighbours are the edges again, once from their sources and once from their
targets, by ids and in order.

* `Declares` — what two definitions say of the edge between them.
* `Lists` — a table with the neighbours of every step.
* `DeclaredBy`, `declaredBy_of_compile` — the main result.
-/
import Workflow.Proofs.Graph.Guards

namespace Workflow.Graph

/-! ## Declarations -/

/-- Two definitions declare an edge with a tag from the one step to the other. A dependency counts
where the other step is neither a branch nor the body. -/
inductive Declares (source target : Step) : EdgeTag → Prop
  | branchTrue (h : source.trueBranch = some target.id) : Declares source target .branchTrue
  | branchFalse (h : source.falseBranch = some target.id) : Declares source target .branchFalse
  | loopBody (h : source.loopConfig.map LoopConfig.body = some target.id) :
    Declares source target .loopBody
  | errorCatch (hOther : target.id ∉ source.ownTargets) (hListed : source.id ∈ target.dependsOn)
      (hTarget : target.kind = .errorHandler) : Declares source target .errorCatch
  | loopExit (hOther : target.id ∉ source.ownTargets) (hListed : source.id ∈ target.dependsOn)
      (hTarget : target.kind ≠ .errorHandler) (hSource : source.kind = .loop) :
    Declares source target .loopExit
  | dependency (hOther : target.id ∉ source.ownTargets) (hListed : source.id ∈ target.dependsOn)
      (hTarget : target.kind ≠ .errorHandler) (hSource : source.kind ≠ .loop) :
    Declares source target .dependency

variable {source target : Step} {tag : EdgeTag}

/-- The tag between two steps is what their definitions declare. -/
theorem tagBetween?_eq_some_iff (h : source.WellSet) :
    tagBetween? source target = some tag ↔ Declares source target tag := by
  unfold tagBetween? dependencyTag?
  -- a source's own tag for the target goes before the one that its dependency would give
  constructor
  · intro hTag
    cases hOwn : ownTag? source target with
    | some own =>
      obtain rfl : own = tag := by simpa [hOwn] using hTag
      rcases (ownTag?_eq_some_iff h).mp hOwn with ⟨hBranch, rfl⟩ | ⟨hBranch, rfl⟩ | ⟨hBody, rfl⟩
      · exact .branchTrue hBranch
      · exact .branchFalse hBranch
      · exact .loopBody hBody
    | none =>
      have hOther := (ownTag?_eq_none_iff h).mp hOwn
      simp only [hOwn, Option.orElse_eq_orElse, Option.orElse_none] at hTag
      split at hTag
      · rename_i hListed
        split at hTag
        · cases hTag
          exact .errorCatch hOther hListed ‹_›
        · split at hTag <;> cases hTag
          · exact .loopExit hOther hListed ‹_› ‹_›
          · exact .dependency hOther hListed ‹_› ‹_›
      · cases hTag
  · intro hDeclares
    cases hDeclares with
    | branchTrue hBranch =>
      rw [(ownTag?_eq_some_iff h).mpr (.inl ⟨hBranch, rfl⟩)]
      rfl
    | branchFalse hBranch =>
      rw [(ownTag?_eq_some_iff h).mpr (.inr (.inl ⟨hBranch, rfl⟩))]
      rfl
    | loopBody hBody =>
      rw [(ownTag?_eq_some_iff h).mpr (.inr (.inr ⟨hBody, rfl⟩))]
      rfl
    | errorCatch hOther hListed hTarget =>
      simp [(ownTag?_eq_none_iff h).mpr hOther, hListed, hTarget]
    | loopExit hOther hListed hTarget hSource | dependency hOther hListed hTarget hSource =>
      simp [(ownTag?_eq_none_iff h).mpr hOther, hListed, hTarget, hSource]

/-! ## Edges by ids -/

section

variable {g : Graph} {u v : String}

theorem mem_edgeList_iff :
    (u, v, tag) ∈ g.edgeList ↔ ∃ i j, Edge.mk i j tag ∈ g.edges ∧ g.idOf i = u ∧ g.idOf j = v := by
  simp only [edgeList, List.mem_mergeSort, List.mem_map, Prod.mk.injEq]
  constructor
  · rintro ⟨⟨i, j, tag⟩, hMem, rfl, rfl, rfl⟩
    exact ⟨i, j, hMem, rfl, rfl⟩
  · rintro ⟨i, j, hMem, rfl, rfl⟩
    exact ⟨_, hMem, rfl, rfl, rfl⟩

/-- What is known of the edges of a graph is known of their ids. -/
theorem edgeList_pairwise (hIds : ∀ i j, g.idOf i = g.idOf j → i = j) (h : OnePerPair g.edges) :
    g.edgeList.Pairwise fun e f => ¬ (e.1 = f.1 ∧ e.2.1 = f.2.1) := by
  have hMap : (g.edges.map fun e => (g.idOf e.source, g.idOf e.target, e.tag)).Pairwise
      fun e f => ¬ (e.1 = f.1 ∧ e.2.1 = f.2.1) := by
    refine List.pairwise_map.mpr (List.Pairwise.imp (fun {e f} hOther hSame => ?_) h)
    refine Bool.eq_false_iff.mp hOther ?_
    simp [Edge.between, hIds _ _ hSame.1, hIds _ _ hSame.2]
  exact (List.mergeSort_perm _ _).symm.pairwise hMap
    fun hOther hSame => hOther ⟨hSame.1.symm, hSame.2.symm⟩

end

/-- The tag of an edge follows from its ends. -/
theorem OnePerPair.tag_eq {n : Nat} {edges : List (Edge n)} (h : OnePerPair edges) {i j : Fin n}
    {tag tag' : EdgeTag} (hTag : Edge.mk i j tag ∈ edges) (hTag' : Edge.mk i j tag' ∈ edges) :
    tag = tag' := by
  have hFound := h.mem_iff.mp hTag
  rw [h.mem_iff.mp hTag'] at hFound
  cases hFound
  rfl

theorem OnePerPair.nodup_outgoing {n : Nat} {edges : List (Edge n)} (h : OnePerPair edges)
    (i : Fin n) : ((Edge.outgoing edges i).map Prod.fst).Nodup := by
  refine (Graph.nodup_outgoing h.nodup i).map_on ?_
  rintro ⟨j, tag⟩ hMem ⟨j', tag'⟩ hMem' hSame
  obtain rfl : j = j' := hSame
  rw [h.tag_eq (Edge.mem_outgoing.mp hMem) (Edge.mem_outgoing.mp hMem')]

theorem OnePerPair.nodup_incoming {n : Nat} {edges : List (Edge n)} (h : OnePerPair edges)
    (j : Fin n) : ((Edge.incoming edges j).map Prod.fst).Nodup := by
  refine (Graph.nodup_incoming h.nodup j).map_on ?_
  rintro ⟨i, tag⟩ hMem ⟨i', tag'⟩ hMem' hSame
  obtain rfl : i = i' := hSame
  rw [h.tag_eq (Edge.mem_incoming.mp hMem) (Edge.mem_incoming.mp hMem')]

/-! ## Tables of neighbours -/

/-- A table has a row for each of some distinct ids, in their order. The row lists exactly the ids
that a relation gives, each once, in the order of texts. -/
structure Lists (table : List (String × List String)) (ids : List String)
    (leads : String → String → Prop) : Prop where
  keys : table.map Prod.fst = ids
  distinct : ids.Nodup
  ordered : ∀ row ∈ table, row.2.Pairwise (· < ·)
  mem_iff : ∀ row ∈ table, ∀ id, id ∈ row.2 ↔ leads row.1 id

theorem nodup_ids {g : Graph} (hIds : ∀ i j, g.idOf i = g.idOf j → i = j) :
    (g.indices.map g.idOf).Nodup :=
  (List.nodup_finRange _).map fun _ _ hSame => hIds _ _ hSame

theorem sorted_pairwise_lt {texts : List String} (h : texts.Nodup) :
    (Text.sorted texts).Pairwise (· < ·) := by
  have hDistinct : (Text.sorted texts).Nodup := (Text.sorted_perm texts).nodup_iff.mpr h
  exact ((Text.pairwise_sorted texts).and hDistinct).imp
    fun {a b} hab => String.not_le.mp fun hba => hab.2 (String.le_antisymm hab.1 hba)

/-- The table of the neighbours that each step has, if none of them is listed twice. -/
theorem lists_rows {g : Graph} (hIds : ∀ i j, g.idOf i = g.idOf j → i = j)
    {next : g.Index → List (g.Index × EdgeTag)} (hOnce : ∀ i, ((next i).map Prod.fst).Nodup)
    {leads : String → String → Prop}
    (hLeads : ∀ i id, leads (g.idOf i) id ↔ ∃ j tag, (j, tag) ∈ next i ∧ g.idOf j = id) :
    Lists (g.indices.map fun i => (g.idOf i, Text.sorted ((next i).map fun t => g.idOf t.1)))
      (g.indices.map g.idOf) leads where
  keys := by
    rw [List.map_map]
    rfl
  distinct := nodup_ids hIds
  ordered := by
    intro row hRow
    obtain ⟨i, -, rfl⟩ := List.mem_map.mp hRow
    refine sorted_pairwise_lt ?_
    have hNext := (hOnce i).map (f := g.idOf) fun _ _ hSame => hIds _ _ hSame
    rwa [List.map_map] at hNext
  mem_iff := by
    intro row hRow id
    obtain ⟨i, -, rfl⟩ := List.mem_map.mp hRow
    rw [hLeads, (Text.sorted_perm _).mem_iff]
    simp [Prod.exists]

theorem lists_adjacency {g : Graph} (hIds : ∀ i j, g.idOf i = g.idOf j → i = j)
    (h : OnePerPair g.edges) :
    Lists g.adjacency (g.indices.map g.idOf) fun u v => ∃ tag, (u, v, tag) ∈ g.edgeList := by
  refine lists_rows hIds (fun i => ?_) fun i id => ?_
  · rw [outgoing_eq]
    exact h.nodup_outgoing i
  · simp only [mem_edgeList_iff, mem_outgoing_iff]
    constructor
    · rintro ⟨tag, i', j, hEdge, hSource, hTarget⟩
      obtain rfl := hIds _ _ hSource
      exact ⟨j, tag, hEdge, hTarget⟩
    · rintro ⟨j, tag, hEdge, hTarget⟩
      exact ⟨tag, i, j, hEdge, rfl, hTarget⟩

theorem lists_reverseAdjacency {g : Graph} (hIds : ∀ i j, g.idOf i = g.idOf j → i = j)
    (h : OnePerPair g.edges) :
    Lists g.reverseAdjacency (g.indices.map g.idOf)
      fun v u => ∃ tag, (u, v, tag) ∈ g.edgeList := by
  refine lists_rows hIds (fun j => ?_) fun j id => ?_
  · rw [incoming_eq]
    exact h.nodup_incoming j
  · simp only [mem_edgeList_iff, mem_incoming_iff]
    constructor
    · rintro ⟨tag, i, j', hEdge, hSource, hTarget⟩
      obtain rfl := hIds _ _ hTarget
      exact ⟨i, tag, hEdge, hSource⟩
    · rintro ⟨i, tag, hEdge, hSource⟩
      exact ⟨tag, i, j, hEdge, hSource, rfl⟩

/-! ## Compiled graphs -/

section

variable {allowOrphans : Bool} {steps : List Step} {g : Graph}

/-- A compiled graph has the steps that it is made of, in their order. -/
theorem map_idOf_of_compile (h : compile allowOrphans steps = .ok g) :
    g.indices.map g.idOf = steps.map Step.id := by
  obtain ⟨-, start, bodies, -, -, rfl⟩ := compile_ok h
  calc (List.finRange steps.length).map (fun i => (steps.get i).id)
      = ((List.finRange steps.length).map steps.get).map Step.id := by rw [List.map_map]; rfl
    _ = steps.map Step.id := by rw [List.map_get_finRange]

theorem onePerPair_of_compile (h : compile allowOrphans steps = .ok g) : OnePerPair g.edges := by
  obtain ⟨-, start, bodies, -, -, rfl⟩ := compile_ok h
  exact onePerPair_declaredEdges _

/-- The edges of a compiled graph are those that the definitions declare. -/
theorem mem_edgeList_iff_declares (h : compile allowOrphans steps = .ok g) {u v : String}
    {tag : EdgeTag} :
    (u, v, tag) ∈ g.edgeList ↔ ∃ source ∈ steps, ∃ target ∈ steps,
      source.id = u ∧ target.id = v ∧ Declares source target tag := by
  have hSettings : ∀ s ∈ steps, s.WellSet := holds_of_compile h .settings
  obtain ⟨hIds, start, bodies, -, -, rfl⟩ := compile_ok h
  rw [mem_edgeList_iff]
  constructor
  · rintro ⟨i, j, hEdge, rfl, rfl⟩
    have hSource := stepAt_mem steps i
    have hTag := (mem_declaredEdges_iff hIds).mp hEdge
    exact ⟨_, hSource, _, stepAt_mem steps j, rfl, rfl,
      (tagBetween?_eq_some_iff (hSettings _ hSource)).mp hTag⟩
  · rintro ⟨source, hSource, target, hTarget, rfl, rfl, hDeclares⟩
    have hTag := (tagBetween?_eq_some_iff (hSettings _ hSource)).mpr hDeclares
    obtain ⟨m, hm, rfl⟩ := List.getElem_of_mem hSource
    obtain ⟨n, hn, rfl⟩ := List.getElem_of_mem hTarget
    exact ⟨⟨m, hm⟩, ⟨n, hn⟩, (mem_declaredEdges_iff hIds).mpr hTag, rfl, rfl⟩

/-- A graph shows what the definitions of its steps declare: between two steps there is one edge at
most, with the declared tag, and the tables of neighbours list for each step the other ends of its
edges. So one step is in the row of another in the one table exactly if the other is in its row in
the other table. -/
structure DeclaredBy (g : Graph) (steps : List Step) : Prop where
  onePerPair : g.edgeList.Pairwise fun e f => ¬ (e.1 = f.1 ∧ e.2.1 = f.2.1)
  mem_edgeList_iff : ∀ u v tag, (u, v, tag) ∈ g.edgeList ↔ ∃ source ∈ steps, ∃ target ∈ steps,
    source.id = u ∧ target.id = v ∧ Declares source target tag
  adjacency : Lists g.adjacency (steps.map Step.id) fun u v => ∃ tag, (u, v, tag) ∈ g.edgeList
  reverseAdjacency : Lists g.reverseAdjacency (steps.map Step.id)
    fun v u => ∃ tag, (u, v, tag) ∈ g.edgeList
  mem_rows_iff : ∀ row ∈ g.adjacency, ∀ row' ∈ g.reverseAdjacency,
    row'.1 ∈ row.2 ↔ row.1 ∈ row'.2

/-- A compiled graph shows what is declared. -/
theorem declaredBy_of_compile (h : compile allowOrphans steps = .ok g) : g.DeclaredBy steps := by
  have hIds := (wired_of_compile h).ids
  have hOne := onePerPair_of_compile h
  have hForth := lists_adjacency hIds hOne
  have hBack := lists_reverseAdjacency hIds hOne
  rw [map_idOf_of_compile h] at hForth hBack
  exact
    { onePerPair := edgeList_pairwise hIds hOne
      mem_edgeList_iff := fun u v tag => mem_edgeList_iff_declares h
      adjacency := hForth
      reverseAdjacency := hBack
      mem_rows_iff := fun row hRow row' hRow' => by
        rw [hForth.mem_iff row hRow, hBack.mem_iff row' hRow'] }

end

/-- Steps with several words on the same edge: repeated dependencies, a branch and a body that
depend on the step that leads to them, and an error handler that guards a loop, a step, and the
condition that has the handler as a branch. -/
def rivalSteps : List Step :=
  [.plain "start" .start [],
    { Step.plain "c" .condition ["start", "start"] with
      condition := some "true", trueBranch := some "h", falseBranch := some "a" },
    .plain "a" .action ["c", "c"],
    { Step.plain "l" .loop ["start"] with loopConfig := some ⟨"[1]", 10, "x"⟩ },
    .plain "x" .action ["l"], .handler "h" ["c", "a", "l"] .continueRun,
    .plain "end" .finish ["l", "a"]]

theorem declaredBy_rivalSteps :
    ∃ g, compile false rivalSteps = .ok g ∧
      (g.edges.map fun e => (g.idOf e.source, g.idOf e.target, e.tag)) =
        [("c", "h", .branchTrue), ("c", "a", .branchFalse), ("l", "x", .loopBody),
          ("start", "c", .dependency), ("start", "l", .dependency), ("a", "h", .errorCatch),
          ("l", "h", .errorCatch), ("l", "end", .loopExit), ("a", "end", .dependency)] ∧
      g.DeclaredBy rivalSteps := by
  have hEdges : ((compile false rivalSteps).toOption.map fun g =>
      g.edges.map fun e => (g.idOf e.source, g.idOf e.target, e.tag)) =
        some [("c", "h", .branchTrue), ("c", "a", .branchFalse), ("l", "x", .loopBody),
          ("start", "c", .dependency), ("start", "l", .dependency), ("a", "h", .errorCatch),
          ("l", "h", .errorCatch), ("l", "end", .loopExit), ("a", "end", .dependency)] := by
    decide +kernel
  cases hCompile : compile false rivalSteps with
  | error e =>
    rw [hCompile] at hEdges
    cases hEdges
  | ok g =>
    rw [hCompile] at hEdges
    exact ⟨g, rfl, Option.some.inj hEdges, declaredBy_of_compile hCompile⟩

end Workflow.Graph

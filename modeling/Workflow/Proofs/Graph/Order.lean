/-
Workflow.Proofs.Graph.Order — the order of definitions does not matter.

Numbers of steps, the edge that is kept between two steps, the roots of the
search for cycles and the order of loops all follow the order of the
definitions. What comes of a compilation does not: in another order the same
steps are refused for a reason of the same kind, or they form the same graph
by ids.

* `SameById` — two graphs are the same by ids.
* `SameOutcome` — two compilations come to the same.
* `sameOutcome_of_perm` — the same steps in two orders.
-/
import Workflow.Proofs.Graph.Renumber
import Workflow.Proofs.Text.Order

namespace Workflow.Graph

/-- A list without repetitions has the counterparts of what another one has. -/
theorem map_perm_of_mem_iff {α β : Type} {f : α → β} (hf : f.Bijective) {xs : List α} {ys : List β}
    (hxs : xs.Nodup) (hys : ys.Nodup) (h : ∀ a, a ∈ xs ↔ f a ∈ ys) : (xs.map f).Perm ys := by
  refine (List.perm_ext_iff_of_nodup (hxs.map hf.injective) hys).mpr fun b => ?_
  obtain ⟨a, rfl⟩ := hf.surjective b
  rw [List.mem_map_of_injective hf.injective, h]

/-! ## Errors -/

section

variable {steps steps' : List Step}

theorem nodup_starts (steps : Array Step) : (starts steps).Nodup :=
  (List.nodup_finRange _).filter _

theorem length_starts_of_perm (hIds : (steps.map Step.id).Nodup) (h : steps.Perm steps') :
    (starts steps.toArray).length = (starts steps'.toArray).length := by
  obtain ⟨σ⟩ := exists_renumbering hIds h
  have hSame : ((starts steps.toArray).map σ.index).Perm (starts steps'.toArray) :=
    map_perm_of_mem_iff σ.index.bijective (nodup_starts _) (nodup_starts _) fun i => by
      rw [mem_starts, mem_starts, σ.same]
  simpa using hSame.length_eq

/-- How many Start steps there are by what is said of them. -/
theorem length_starts_of_describes {e : CompileError} (hViolated : e.violated = .singleStart)
    (h : Describes steps e) :
    (starts steps.toArray).length = 0 ∧ e.ctorIdx = CompileError.missingStart.ctorIdx ∨
    (starts steps.toArray).length = 1 ∧ e.ctorIdx = (CompileError.startHasDependencies "").ctorIdx ∨
    2 ≤ (starts steps.toArray).length ∧ e.ctorIdx = (CompileError.multipleStart []).ctorIdx := by
  cases e with
  | missingStart =>
    have hNone : starts steps.toArray = [] :=
      List.eq_nil_iff_forall_not_mem.mpr fun i hi => h i (mem_starts.mp hi)
    exact .inl ⟨by rw [hNone]; rfl, rfl⟩
  | startHasDependencies id =>
    obtain ⟨start, hStart, -⟩ := h
    have hOne : (starts steps.toArray).Perm [start] := by
      refine (List.perm_ext_iff_of_nodup (nodup_starts _) (List.nodup_singleton _)).mpr fun i => ?_
      rw [mem_starts, hStart, List.mem_singleton]
    exact .inr (.inl ⟨hOne.length_eq, rfl⟩)
  | multipleStart ids =>
    obtain ⟨⟨is, hOrdered, hIs, rfl⟩, hTwo⟩ := h
    have hAll : (starts steps.toArray).Perm is := by
      refine (List.perm_ext_iff_of_nodup (nodup_starts _)
        (hOrdered.imp fun hLt => hLt.ne)).mpr fun i => ?_
      rw [mem_starts, hIs]
    rw [List.length_map, ← hAll.length_eq] at hTwo
    exact .inr (.inr ⟨hTwo, rfl⟩)
  | _ => cases hViolated

theorem Requirement.place_injective {r r' : Requirement} (h : r.place = r'.place) : r = r' := by
  cases r <;> cases r' <;> first | rfl | cases h

/-- The first requirement that is not met is the same in any order. -/
theorem violated_eq_of_perm {allowOrphans : Bool} (h : steps.Perm steps') {e e' : CompileError}
    (he : Refutes allowOrphans steps e) (he' : Refutes allowOrphans steps' e') :
    e.violated = e'.violated := by
  have hDistinct : Requirement.distinctIds.Holds allowOrphans steps ↔
      Requirement.distinctIds.Holds allowOrphans steps' := (h.map Step.id).nodup_iff
  by_cases hIds : Requirement.distinctIds.Holds allowOrphans steps
  · have hHolds (r : Requirement) : r.Holds allowOrphans steps ↔ r.Holds allowOrphans steps' :=
      Requirement.holds_of_perm h hIds r
    refine Requirement.place_injective (le_antisymm ?_ ?_)
    · exact not_lt.mp fun hLt => he'.violates ((hHolds _).mp (he.first _ hLt))
    · exact not_lt.mp fun hLt => he.violates ((hHolds _).mpr (he'.first _ hLt))
  · have hFirst {steps : List Step} {e : CompileError} (he : Refutes allowOrphans steps e)
        (hIds : ¬ Requirement.distinctIds.Holds allowOrphans steps) :
        e.violated = .distinctIds := by
      by_contra hOther
      refine hIds (he.first .distinctIds ?_)
      cases hr : e.violated <;> first | exact absurd hr hOther | decide
    rw [hFirst he hIds, hFirst he' fun hIds' => hIds (hDistinct.mpr hIds')]

/-- In any order the steps are refused with an error of the same kind. -/
theorem ctorIdx_eq_of_perm {allowOrphans : Bool} (h : steps.Perm steps') {e e' : CompileError}
    (he : Refutes allowOrphans steps e) (he' : Refutes allowOrphans steps' e') :
    e.ctorIdx = e'.ctorIdx := by
  have hViolated := violated_eq_of_perm h he he'
  by_cases hStart : e.violated = .singleStart
  · have hIds : (steps.map Step.id).Nodup := he.first .distinctIds (by rw [hStart]; decide)
    have hCount := length_starts_of_perm hIds h
    have hSaid := length_starts_of_describes hStart he.describes
    have hSaid' := length_starts_of_describes (hViolated ▸ hStart) he'.describes
    rcases hSaid with ⟨hLength, hKind⟩ | ⟨hLength, hKind⟩ | ⟨hLength, hKind⟩ <;>
      rcases hSaid' with ⟨hLength', hKind'⟩ | ⟨hLength', hKind'⟩ | ⟨hLength', hKind'⟩ <;>
      first
        | exact hKind.trans hKind'.symm
        | omega
  · cases e <;> cases e' <;> first | rfl | exact absurd rfl hStart | cases hViolated

end

/-! ## Edges -/

section

variable {n : Nat}

theorem nodup_inStepOrder {tagged : List (Fin n × EdgeTag)} (h : tagged.Nodup) :
    (Edge.inStepOrder tagged).Nodup := by
  refine List.nodup_flatMap.mpr ⟨fun i _ => h.filter _, ?_⟩
  refine (List.nodup_finRange n).imp fun {i j} hOther t hi hj => hOther ?_
  have hi := of_decide_eq_true (List.mem_filter.mp hi).2
  have hj := of_decide_eq_true (List.mem_filter.mp hj).2
  exact hi.symm.trans hj

/-- Edges with one end in common are told apart by the other end and the tag. -/
theorem nodup_ends {edges : List (Edge n)} (h : edges.Nodup) {near far : Edge n → Fin n}
    (hEnds : ∀ e e', near e = near e' → far e = far e' → e.tag = e'.tag → e = e') (i : Fin n) :
    ((edges.filter fun e => near e = i).map fun e => (far e, e.tag)).Nodup := by
  refine (h.filter _).map_on fun e he e' he' hSame => ?_
  have hNear := of_decide_eq_true (List.mem_filter.mp he).2
  have hNear' := of_decide_eq_true (List.mem_filter.mp he').2
  obtain ⟨hFar, hTag⟩ := Prod.mk.inj hSame
  exact hEnds e e' (hNear.trans hNear'.symm) hFar hTag

theorem nodup_targets {edges : List (Edge n)} (h : edges.Nodup) (i : Fin n) :
    ((edges.filter fun e => e.source = i).map fun e => (e.target, e.tag)).Nodup :=
  nodup_ends h (by rintro ⟨_, _, _⟩ ⟨_, _, _⟩ rfl rfl rfl; rfl) i

theorem nodup_outgoing {edges : List (Edge n)} (h : edges.Nodup) (i : Fin n) :
    (Edge.outgoing edges i).Nodup :=
  nodup_inStepOrder (nodup_targets h i)

theorem nodup_sources {edges : List (Edge n)} (h : edges.Nodup) (i : Fin n) :
    ((edges.filter fun e => e.target = i).map fun e => (e.source, e.tag)).Nodup :=
  nodup_ends h (by rintro ⟨_, _, _⟩ ⟨_, _, _⟩ rfl rfl rfl; rfl) i

theorem nodup_incoming {edges : List (Edge n)} (h : edges.Nodup) (i : Fin n) :
    (Edge.incoming edges i).Nodup :=
  nodup_inStepOrder (nodup_sources h i)

/-- The ids of the neighbours of each step, sorted. -/
def neighbours (steps : Array Step) (next : Fin steps.size → List (Fin steps.size × EdgeTag)) :
    List (String × List String) :=
  (List.finRange steps.size).map fun i =>
    ((stepAt steps i).id, Text.sorted ((next i).map fun t => (stepAt steps t.1).id))

/-- An edge by ids. -/
def edgeById (steps : Array Step) (e : Edge steps.size) : String × String × EdgeTag :=
  ((stepAt steps e.source).id, (stepAt steps e.target).id, e.tag)

/-- Whether an edge comes before another in the list of edges. -/
def edgeInOrder (a b : String × String × EdgeTag) : Bool :=
  a.1 < b.1 || (a.1 = b.1 && Text.inOrder a.2.1 b.2.1)

theorem edgeInOrder_iff {a b : String × String × EdgeTag} :
    edgeInOrder a b = true ↔ a.1 < b.1 ∨ a.1 = b.1 ∧ a.2.1 ≤ b.2.1 := by
  rw [edgeInOrder, Bool.or_eq_true, Bool.and_eq_true, decide_eq_true_eq, decide_eq_true_eq,
    Text.inOrder_iff]

theorem edgeInOrder_total (a b : String × String × EdgeTag) :
    (edgeInOrder a b || edgeInOrder b a) = true := by
  rw [Bool.or_eq_true, edgeInOrder_iff, edgeInOrder_iff]
  by_cases hLt : a.1 < b.1
  · exact .inl (.inl hLt)
  by_cases hGt : b.1 < a.1
  · exact .inr (.inl hGt)
  have hSame : a.1 = b.1 := String.le_antisymm (String.not_lt.mp hGt) (String.not_lt.mp hLt)
  rcases String.le_total a.2.1 b.2.1 with hLe | hGe
  · exact .inl (.inr ⟨hSame, hLe⟩)
  · exact .inr (.inr ⟨hSame.symm, hGe⟩)

theorem edgeInOrder_trans (a b c : String × String × EdgeTag) (hab : edgeInOrder a b = true)
    (hbc : edgeInOrder b c = true) : edgeInOrder a c = true := by
  rw [edgeInOrder_iff] at hab hbc ⊢
  rcases hab with hab | ⟨hab, hab'⟩ <;> rcases hbc with hbc | ⟨hbc, hbc'⟩
  · exact .inl (String.lt_trans hab hbc)
  · exact .inl (hbc ▸ hab)
  · exact .inl (hab ▸ hbc)
  · exact .inr ⟨hab.trans hbc, String.le_trans hab' hbc'⟩

/-- Edges that come before each other are between the same steps. -/
theorem ids_eq_of_edgeInOrder {a b : String × String × EdgeTag} (hab : edgeInOrder a b = true)
    (hba : edgeInOrder b a = true) : a.1 = b.1 ∧ a.2.1 = b.2.1 := by
  rw [edgeInOrder_iff] at hab hba
  rcases hab with hab | ⟨hab, hab'⟩ <;> rcases hba with hba | ⟨hba, hba'⟩
  · exact absurd (String.lt_trans hab hba) (String.lt_irrefl _)
  · exact absurd (hba ▸ hab) (String.lt_irrefl _)
  · exact absurd (hab ▸ hba) (String.lt_irrefl _)
  · exact ⟨hab, String.le_antisymm hab' hba'⟩

/-- In a table whose keys are distinct the order of the entries does not matter. -/
theorem lookup_eq_of_perm {β : Type} {table table' : List (String × β)} (h : table.Perm table')
    (hKeys : (table.map Prod.fst).Nodup) (key : String) :
    table.lookup key = table'.lookup key := by
  induction h with
  | nil => rfl
  | cons entry _ ih =>
    rw [List.lookup_cons, List.lookup_cons, ih (List.nodup_cons.mp hKeys).2]
  | swap entry entry' rest =>
    obtain ⟨k, v⟩ := entry
    obtain ⟨k', v'⟩ := entry'
    have hOther : k' ≠ k := fun hSame => (List.nodup_cons.mp hKeys).1 (by simp [hSame])
    simp only [List.lookup_cons]
    cases hKey : key == k with
    | false => rfl
    | true =>
      have hNot : (key == k') = false := by
        rw [eq_of_beq hKey]
        exact beq_false_of_ne hOther.symm
      rw [hNot]
  | trans hFirst _ ih ih' =>
    exact (ih hKeys).trans (ih' ((hFirst.map Prod.fst).nodup_iff.mp hKeys))

end

namespace Renumbering

section

variable {steps steps' : List Step} (σ : Renumbering steps steps')

/-- All steps in the order of the other list. -/
theorem map_finRange_perm :
    ((List.finRange steps.toArray.size).map σ.index).Perm
      (List.finRange steps'.toArray.size) :=
  map_perm_of_mem_iff σ.index.bijective (List.nodup_finRange _) (List.nodup_finRange _) fun _ =>
    iff_of_true (List.mem_finRange _) (List.mem_finRange _)

/-- An edge between steps under their other numbers. -/
def edge (e : Edge steps.toArray.size) : Edge steps'.toArray.size :=
  ⟨σ.index e.source, σ.index e.target, e.tag⟩

theorem edge_bijective : Function.Bijective σ.edge := by
  constructor
  · rintro ⟨i, j, tag⟩ ⟨i', j', tag'⟩ h
    simpa [edge] using h
  · rintro ⟨i, j, tag⟩
    exact ⟨⟨σ.index.symm i, σ.index.symm j, tag⟩, by simp [edge]⟩

/-- A step with a tag under its other number. -/
def tagged (t : Fin steps.toArray.size × EdgeTag) : Fin steps'.toArray.size × EdgeTag :=
  (σ.index t.1, t.2)

theorem tagged_bijective : Function.Bijective σ.tagged :=
  σ.index.bijective.prodMap Function.bijective_id

variable (hIds : (steps.map Step.id).Nodup) (hIds' : (steps'.map Step.id).Nodup)

include hIds hIds'

theorem map_declaredEdges_perm :
    ((declaredEdges steps.toArray).map σ.edge).Perm (declaredEdges steps'.toArray) :=
  map_perm_of_mem_iff σ.edge_bijective (nodup_declaredEdges _) (nodup_declaredEdges _) fun _ =>
    σ.mem_declaredEdges_iff hIds hIds'

theorem map_outgoing_perm (i : Fin steps.toArray.size) :
    ((Edge.outgoing (declaredEdges steps.toArray) i).map σ.tagged).Perm
      (Edge.outgoing (declaredEdges steps'.toArray) (σ.index i)) :=
  map_perm_of_mem_iff σ.tagged_bijective (nodup_outgoing (nodup_declaredEdges _) i)
    (nodup_outgoing (nodup_declaredEdges _) _) fun _ =>
      Edge.mem_outgoing.trans ((σ.mem_declaredEdges_iff hIds hIds').trans Edge.mem_outgoing.symm)

theorem map_incoming_perm (i : Fin steps.toArray.size) :
    ((Edge.incoming (declaredEdges steps.toArray) i).map σ.tagged).Perm
      (Edge.incoming (declaredEdges steps'.toArray) (σ.index i)) :=
  map_perm_of_mem_iff σ.tagged_bijective (nodup_incoming (nodup_declaredEdges _) i)
    (nodup_incoming (nodup_declaredEdges _) _) fun _ =>
      Edge.mem_incoming.trans ((σ.mem_declaredEdges_iff hIds hIds').trans Edge.mem_incoming.symm)

omit hIds hIds' in
/-- Neighbours of every step, by ids. -/
theorem neighbours_perm
    {next : Fin steps.toArray.size → List (Fin steps.toArray.size × EdgeTag)}
    {next' : Fin steps'.toArray.size → List (Fin steps'.toArray.size × EdgeTag)}
    (h : ∀ i, ((next i).map σ.tagged).Perm (next' (σ.index i))) :
    (neighbours steps.toArray next).Perm (neighbours steps'.toArray next') := by
  refine List.Perm.trans ?_ (σ.map_finRange_perm.map _)
  rw [List.map_map]
  refine List.Perm.of_eq (List.map_congr_left fun i _ => ?_)
  have hIds : ((next i).map fun t => (stepAt steps.toArray t.1).id).Perm
      ((next' (σ.index i)).map fun t => (stepAt steps'.toArray t.1).id) := by
    refine List.Perm.trans (List.Perm.of_eq ?_) ((h i).map _)
    rw [List.map_map]
    exact List.map_congr_left fun t _ => congrArg Step.id (σ.same t.1).symm
  exact Prod.ext (congrArg Step.id (σ.same i).symm) (Text.sorted_eq_of_perm hIds)

include σ in
theorem sorted_edges_eq :
    ((declaredEdges steps.toArray).map (edgeById steps.toArray)).mergeSort edgeInOrder =
      ((declaredEdges steps'.toArray).map (edgeById steps'.toArray)).mergeSort edgeInOrder := by
  have hPerm : ((declaredEdges steps.toArray).map (edgeById steps.toArray)).Perm
      ((declaredEdges steps'.toArray).map (edgeById steps'.toArray)) := by
    refine List.Perm.trans (List.Perm.of_eq ?_) ((σ.map_declaredEdges_perm hIds hIds').map _)
    rw [List.map_map]
    refine List.map_congr_left fun e _ => ?_
    simp only [Function.comp_apply, edgeById, edge, σ.same]
  have hSorted := (List.mergeSort_perm _ edgeInOrder).trans
    (hPerm.trans (List.mergeSort_perm _ edgeInOrder).symm)
  refine hSorted.eq_of_pairwise (fun a b ha hb hab hba => ?_)
    (List.pairwise_mergeSort edgeInOrder_trans edgeInOrder_total _)
    (List.pairwise_mergeSort edgeInOrder_trans edgeInOrder_total _)
  obtain ⟨⟨i, j, tag⟩, he, rfl⟩ := List.mem_map.mp (List.mem_mergeSort.mp ha)
  obtain ⟨⟨i', j', tag'⟩, he', rfl⟩ := List.mem_map.mp
    (hPerm.mem_iff.mpr (List.mem_mergeSort.mp hb))
  obtain ⟨hSource, hTarget⟩ := ids_eq_of_edgeInOrder hab hba
  obtain rfl := eq_of_id_eq hIds hSource
  obtain rfl := eq_of_id_eq hIds hTarget
  have hTag := (Graph.mem_declaredEdges_iff hIds).mp he
  rw [(Graph.mem_declaredEdges_iff hIds).mp he'] at hTag
  rw [Option.some.inj hTag]

end

end Renumbering

/-! ## Graphs -/

/-- Two graphs have the same steps, entry, edges, orphans and bodies, by ids. -/
structure SameById (g g' : Graph) : Prop where
  steps : g.steps.toList.Perm g'.steps.toList
  entry : g.idOf g.entry = g'.idOf g'.entry
  edgeList : g.edgeList = g'.edgeList
  adjacency : ∀ id, g.adjacency.lookup id = g'.adjacency.lookup id
  reverseAdjacency : ∀ id, g.reverseAdjacency.lookup id = g'.reverseAdjacency.lookup id
  orphans : ∀ id, id ∈ g.orphans.map g.idOf ↔ id ∈ g'.orphans.map g'.idOf
  bodies : ∀ loop loop', g.idOf loop = g'.idOf loop' →
    ∀ id, id ∈ (g.body loop).map g.idOf ↔ id ∈ (g'.body loop').map g'.idOf

/-- Two compilations end with an error of the same kind, whatever it says of which steps, or with the
same graph by ids. -/
inductive SameOutcome : Except CompileError Graph → Except CompileError Graph → Prop
  | refused {e e' : CompileError} (h : e.ctorIdx = e'.ctorIdx) : SameOutcome (.error e) (.error e')
  | compiled {g g' : Graph} (h : SameById g g') : SameOutcome (.ok g) (.ok g')

/-- What a compiled graph has been put together from. -/
theorem compile_ok {allowOrphans : Bool} {steps : List Step} {g : Graph}
    (h : compile allowOrphans steps = .ok g) :
    (steps.map Step.id).Nodup ∧
    ∃ (start : Fin steps.toArray.size)
      (bodies : List (Fin steps.toArray.size × List (Fin steps.toArray.size))),
      findEntry steps.toArray = .ok start ∧
      loopBodies steps.toArray (declaredEdges steps.toArray) = .ok bodies ∧
      g = { steps := steps.toArray, edges := declaredEdges steps.toArray, entry := start, bodies
            orphans := (List.finRange steps.toArray.size).filter fun i =>
              i ∉ closure (Edge.targets (declaredEdges steps.toArray)) start } := by
  unfold compile at h
  split at h
  · cases h
  · rename_i hIds
    split at h
    · cases h
    · obtain ⟨start, bodies, hStart, -, hBodies, hg⟩ := assemble_ok h
      exact ⟨(nodup_of_duplicateId? hIds).1, start, bodies, hStart, hBodies, hg⟩

theorem eq_bodyFrom_of_loopBody {steps : Array Step} {loop first : Fin steps.size}
    {members : List (Fin steps.size)} (hFirst : Edge.mk loop first .loopBody ∈ declaredEdges steps)
    (h : loopBody steps (declaredEdges steps) loop = .ok members) :
    members = bodyFrom steps (declaredEdges steps) first := by
  unfold loopBody at h
  simp only [exists_first hFirst] at h
  split at h
  · cases h
  · exact (Except.ok.inj h).symm

/-- The body of a loop has the steps that are in it. -/
theorem mem_body_iff {g : Graph} (hEdges : g.edges = declaredEdges g.steps)
    (hTable : loopBodies g.steps g.edges = .ok g.bodies) {loop i : g.Index} :
    i ∈ g.body loop ↔ InBody g.steps loop i := by
  obtain ⟨hSome, hAll⟩ := loopBodies_ok hTable
  rcases g.body_cases loop with ⟨b, hb, rfl, hBody⟩ | ⟨hNone, hBody⟩
  · obtain ⟨-, hOk⟩ := hAll b.1 b.2 hb
    obtain ⟨first, -, hFirst⟩ := (loopBody_ok hOk).first
    rw [hEdges] at hOk hFirst
    rw [hBody, eq_bodyFrom_of_loopBody hFirst hOk]
    exact inBody_iff hFirst
  · rw [hBody]
    refine iff_of_false List.not_mem_nil ?_
    rintro ⟨first, hFirst, -⟩
    obtain ⟨members, hMem⟩ := hSome loop (find?_of_loopBody hFirst rfl).1
    exact hNone _ hMem rfl

/-- Steps with an id among those of a list. -/
theorem mem_map_idOf_iff {g : Graph} {is : List g.Index} {id : String} :
    id ∈ is.map g.idOf ↔ ∃ i, i ∈ is ∧ (stepAt g.steps i).id = id :=
  List.mem_map

theorem adjacency_eq (g : Graph) :
    g.adjacency = neighbours g.steps (Edge.outgoing g.edges) := by
  simp only [adjacency, outgoing_eq]
  rfl

theorem reverseAdjacency_eq (g : Graph) :
    g.reverseAdjacency = neighbours g.steps (Edge.incoming g.edges) := by
  simp only [reverseAdjacency, incoming_eq]
  rfl

theorem nodup_keys {steps : List Step} (hIds : (steps.map Step.id).Nodup)
    (next : Fin steps.toArray.size → List (Fin steps.toArray.size × EdgeTag)) :
    ((neighbours steps.toArray next).map Prod.fst).Nodup := by
  unfold neighbours
  rw [List.map_map]
  exact (List.nodup_finRange _).map fun _ _ hSame => eq_of_id_eq hIds hSame

/-- The orphans are the steps that no path leads to from Start. -/
theorem mem_orphans {steps : Array Step} {start i : Fin steps.size}
    (hStart : (stepAt steps start).kind = .start)
    (hOnly : ∀ i, (stepAt steps i).kind = .start → i = start) :
    i ∈ ((List.finRange steps.size).filter fun i =>
      i ∉ closure (Edge.targets (declaredEdges steps)) start) ↔ ¬ FromStart steps i := by
  rw [fromStart_iff hStart hOnly]
  simp [List.mem_finRange]

section

variable {allowOrphans : Bool} {steps steps' : List Step} {g g' : Graph}

/-- The same steps in another order form the same graph by ids. -/
theorem sameById_of_perm (h : steps.Perm steps') (hg : compile allowOrphans steps = .ok g)
    (hg' : compile allowOrphans steps' = .ok g') : SameById g g' := by
  obtain ⟨hIds, start, bodies, hStart, hBodies, rfl⟩ := compile_ok hg
  obtain ⟨hIds', start', bodies', hStart', hBodies', rfl⟩ := compile_ok hg'
  obtain ⟨σ⟩ := exists_renumbering hIds h
  obtain ⟨hKind, -, hOnly⟩ := findEntry_ok hStart
  obtain ⟨hKind', -, hOnly'⟩ := findEntry_ok hStart'
  have hEntry : σ.index start = start' := hOnly' _ (by rw [σ.same, hKind])
  have hId (i : Fin steps.toArray.size) :
      (stepAt steps'.toArray (σ.index i)).id = (stepAt steps.toArray i).id := by rw [σ.same]
  exact
    { steps := h
      entry := by
        subst hEntry
        exact (hId start).symm
      edgeList := σ.sorted_edges_eq hIds hIds'
      adjacency := by
        rw [adjacency_eq, adjacency_eq]
        exact lookup_eq_of_perm (σ.neighbours_perm (σ.map_outgoing_perm hIds hIds'))
          (nodup_keys hIds _)
      reverseAdjacency := by
        rw [reverseAdjacency_eq, reverseAdjacency_eq]
        exact lookup_eq_of_perm (σ.neighbours_perm (σ.map_incoming_perm hIds hIds'))
          (nodup_keys hIds _)
      orphans := by
        intro id
        rw [mem_map_idOf_iff, mem_map_idOf_iff]
        refine σ.index.exists_congr fun i => ?_
        rw [mem_orphans hKind hOnly, mem_orphans hKind' hOnly', σ.fromStart_iff hIds hIds', hId]
      bodies := by
        intro loop loop' hLoop id
        obtain rfl : σ.index loop = loop' := eq_of_id_eq hIds' ((hId loop).trans hLoop)
        rw [mem_map_idOf_iff, mem_map_idOf_iff]
        refine σ.index.exists_congr fun i => ?_
        rw [mem_body_iff rfl hBodies, mem_body_iff rfl hBodies', hId]
        exact and_congr_left fun _ => σ.inBody_iff hIds hIds' loop i }

end

/-- What a compilation comes to does not depend on the order of the definitions. -/
theorem sameOutcome_of_perm (allowOrphans : Bool) {steps steps' : List Step} (h : steps.Perm steps') :
    SameOutcome (compile allowOrphans steps) (compile allowOrphans steps') := by
  have hVerdict := verdict_compile allowOrphans steps
  have hVerdict' := verdict_compile allowOrphans steps'
  cases hOutcome : compile allowOrphans steps with
  | ok g =>
    cases hOutcome' : compile allowOrphans steps' with
    | ok g' => exact .compiled (sameById_of_perm h hOutcome hOutcome')
    | error e' =>
      rw [hOutcome] at hVerdict
      rw [hOutcome'] at hVerdict'
      have hIds := hVerdict .distinctIds
      exact absurd ((Requirement.holds_of_perm h hIds _).mp (hVerdict _)) hVerdict'.violates
  | error e =>
    cases hOutcome' : compile allowOrphans steps' with
    | ok g' =>
      rw [hOutcome] at hVerdict
      rw [hOutcome'] at hVerdict'
      have hIds' := hVerdict' .distinctIds
      exact absurd ((Requirement.holds_of_perm h.symm hIds' _).mp (hVerdict' _)) hVerdict.violates
    | error e' =>
      rw [hOutcome] at hVerdict
      rw [hOutcome'] at hVerdict'
      exact .refused (ctorIdx_eq_of_perm h hVerdict hVerdict')

/-- A condition that an action also depends on, a loop, and a step that nothing leads to. -/
def forkSteps : List Step :=
  [("s", .start, []), ("c", .condition, ["s"]), ("a", .action, ["c"]), ("l", .loop, ["s"]),
    ("x", .action, []), ("o", .action, []), ("e", .finish, ["a", "l"])].map
    fun (id, kind, dependsOn) =>
      { id, kind, dependsOn, name := none, inputMapping := []
        condition := if kind = .condition then some "1" else none
        trueBranch := if kind = .condition then some "a" else none, falseBranch := none
        loopConfig := if kind = .loop then some ⟨"1", 1, "x"⟩ else none, retryPolicy := none
        errorConfig := none, timeout := none, config := .null }

theorem sameOutcome_forkSteps :
    (compile true forkSteps).isOk = true ∧ forkSteps.Perm forkSteps.reverse ∧
      SameOutcome (compile true forkSteps) (compile true forkSteps.reverse) := by
  have hPerm : forkSteps.Perm forkSteps.reverse := (List.reverse_perm forkSteps).symm
  exact ⟨by decide +kernel, hPerm, sameOutcome_of_perm true hPerm⟩

end Workflow.Graph

/-
Workflow.Proofs.Graph.Valid — the compiler accepts the valid graphs.

A list of steps is compiled exactly if it meets all requirements, and
otherwise the error is about the first that it does not meet. Each check of
the compiler decides one requirement.

* `Refutes` — the error names the first requirement that is not met, and
  what it says is the case.
* `compile_decides_validity` — the compiler against the requirements.
-/
import Workflow.Proofs.Graph.Cycle
import Workflow.Proofs.Graph.Requirement
import Workflow.Proofs.Graph.Wired

namespace Workflow

namespace Graph

/-! ## The first three checks -/

/-- Repeated ids are found, and one that is found is repeated. -/
theorem duplicateId?_eq_none_iff {seen : List String} {steps : List Step} :
    duplicateId? seen steps = none ↔ (steps.map Step.id).Nodup ∧ ∀ s ∈ steps, s.id ∉ seen := by
  refine ⟨nodup_of_duplicateId?, ?_⟩
  induction steps generalizing seen with
  | nil => exact fun _ => rfl
  | cons s rest ih =>
    rintro ⟨hNodup, hNew⟩
    obtain ⟨hOther, hRest⟩ := List.nodup_cons.mp hNodup
    rw [duplicateId?, if_neg (hNew s List.mem_cons_self)]
    refine ih ⟨hRest, ?_⟩
    intro t ht hSeen
    rcases List.mem_cons.mp hSeen with hSame | hSeen
    · exact hOther (hSame ▸ List.mem_map_of_mem ht)
    · exact hNew t (List.mem_cons_of_mem s ht) hSeen

theorem count_of_duplicateId? {seen : List String} {steps : List Step} {id : String}
    (h : duplicateId? seen steps = some id) : 2 ≤ (seen ++ steps.map Step.id).count id := by
  induction steps generalizing seen with
  | nil => cases h
  | cons s rest ih =>
    unfold duplicateId? at h
    split at h
    · rename_i hSeen
      cases h
      have hEarlier : 0 < seen.count s.id := List.count_pos_iff.mpr hSeen
      simp only [List.map_cons, List.count_append, List.count_cons_self]
      omega
    · have hRest := ih h
      simp only [List.map_cons, List.count_append, List.count_cons] at hRest ⊢
      omega

theorem configError?_eq_none_iff {steps : List Step} :
    configError? steps = none ↔ ∀ s ∈ steps, s.WellSet := by
  simp [configError?, Step.configFault?_eq_none_iff]

theorem configError?_eq_some {steps : List Step} {e : CompileError}
    (h : configError? steps = some e) :
    e.violated = .settings ∧ Describes steps e := by
  obtain ⟨s, hs, hError⟩ := List.exists_of_findSome?_eq_some h
  obtain ⟨fault, hFault, rfl⟩ := Option.map_eq_some_iff.mp hError
  exact ⟨rfl, s, hs, rfl, hFault⟩

theorem danglingError?_eq_none_iff {steps : List Step} :
    danglingError? steps = none ↔ ∀ s ∈ steps, ∀ r ∈ s.references, ∃ t ∈ steps, t.id = r.2 := by
  simp [danglingError?]

theorem danglingError?_eq_some {steps : List Step} {e : CompileError}
    (h : danglingError? steps = some e) : e.violated = .references ∧ Describes steps e := by
  obtain ⟨s, hs, hFault⟩ := List.exists_of_findSome?_eq_some h
  obtain ⟨⟨field, target⟩, hFind, rfl⟩ := Option.map_eq_some_iff.mp hFault
  refine ⟨rfl, ⟨s, hs, rfl, List.mem_of_find?_eq_some hFind⟩, ?_⟩
  simpa using List.find?_some hFind

/-! ## Start, end, cycles and orphans -/

section

variable {steps : Array Step}

theorem idsOf_filter (p : Fin steps.size → Prop) [DecidablePred p] :
    IdsOf steps p
      (((List.finRange steps.size).filter fun i => p i).map fun i => (stepAt steps i).id) :=
  ⟨_, List.Pairwise.filter _ (List.pairwise_lt_finRange _), by simp [List.mem_finRange], rfl⟩

theorem mem_closure_targets_iff {start i : Fin steps.size} :
    i ∈ closure (Edge.targets (declaredEdges steps)) start ↔
      Relation.ReflTransGen (Joined steps) start i := by
  have hSame : Leads (Edge.targets (declaredEdges steps)) = Joined steps :=
    funext fun _ => funext fun _ => propext leads_targets_iff
  rw [mem_closure_iff, hSame]

theorem leads_successors_eq : Leads (Edge.successors (declaredEdges steps)) = Joined steps :=
  funext fun _ => funext fun _ => propext leads_successors_iff

theorem fromStart_iff {start : Fin steps.size} (hStart : (stepAt steps start).kind = .start)
    (hOnly : ∀ i, (stepAt steps i).kind = .start → i = start) {i : Fin steps.size} :
    FromStart steps i ↔ i ∈ closure (Edge.targets (declaredEdges steps)) start := by
  rw [mem_closure_targets_iff]
  constructor
  · rintro ⟨other, hOther, hWay⟩
    exact hOnly other hOther ▸ hWay
  · exact fun hWay => ⟨start, hStart, hWay⟩

/-- The Start steps, in order. -/
def starts (steps : Array Step) : List (Fin steps.size) :=
  (List.finRange steps.size).filter fun i => (stepAt steps i).kind = .start

theorem mem_starts {i : Fin steps.size} : i ∈ starts steps ↔ (stepAt steps i).kind = .start := by
  simp [starts, List.mem_finRange]

theorem findEntry_ok {start : Fin steps.size} (h : findEntry steps = .ok start) :
    (stepAt steps start).kind = .start ∧ (stepAt steps start).dependsOn = [] ∧
      ∀ i, (stepAt steps i).kind = .start → i = start := by
  unfold findEntry at h
  split at h
  · cases h
  · rename_i i hStarts
    split at h
    · rename_i hFree
      cases h
      have hOne : starts steps = [start] := hStarts
      simp only [← mem_starts, hOne, List.mem_singleton]
      exact ⟨trivial, List.isEmpty_iff.mp hFree, fun i hi => hi⟩
    · cases h
  · cases h

end

theorem findEntry_error {steps : List Step} {e : CompileError}
    (h : findEntry steps.toArray = .error e) :
    e.violated = .singleStart ∧ Describes steps e := by
  unfold findEntry at h
  split at h
  · rename_i hNone
    cases h
    have hNil : starts steps.toArray = [] := hNone
    refine ⟨rfl, fun i hi => ?_⟩
    rw [← mem_starts, hNil] at hi
    exact List.not_mem_nil hi
  · rename_i start hStarts
    split at h
    · cases h
    · rename_i hDepends
      cases h
      have hOne : starts steps.toArray = [start] := hStarts
      refine ⟨rfl, start, fun i => ?_, rfl, fun hNil => hDepends (List.isEmpty_iff.mpr hNil)⟩
      rw [← mem_starts, hOne, List.mem_singleton]
  · rename_i hNone hOne
    cases h
    refine ⟨rfl, idsOf_filter fun i => (stepAt steps.toArray i).kind = .start, ?_⟩
    rw [List.length_map]
    have hNotNil : starts steps.toArray ≠ [] := hNone
    have hNotOne : ∀ i, starts steps.toArray ≠ [i] := hOne
    show 2 ≤ (starts steps.toArray).length
    match starts steps.toArray, hNotNil, hNotOne with
    | [], hNil, _ => exact absurd rfl hNil
    | [i], _, hOne => exact absurd rfl (hOne i)
    | _ :: _ :: _, _, _ => simp

/-! ## Bodies -/

section

variable {steps : Array Step}

theorem subset_foldl_addEdge {n : Nat} (added edges : List (Edge n)) :
    edges ⊆ added.foldl addEdge edges := by
  induction added generalizing edges with
  | nil => exact List.Subset.refl edges
  | cons f rest ih =>
    refine List.Subset.trans ?_ (ih _)
    unfold addEdge
    split
    · exact List.Subset.refl edges
    · exact List.subset_append_left _ _

/-- Of the edges between two steps one is kept. -/
theorem exists_mem_foldl_addEdge {n : Nat} {added edges : List (Edge n)} {e : Edge n}
    (h : e ∈ added) :
    ∃ f ∈ added.foldl addEdge edges, f.source = e.source ∧ f.target = e.target := by
  induction added generalizing edges with
  | nil => cases h
  | cons f rest ih =>
    rcases List.mem_cons.mp h with rfl | h
    · obtain ⟨kept, hKept, hSame⟩ : ∃ kept ∈ addEdge edges e,
          kept.source = e.source ∧ kept.target = e.target := by
        unfold addEdge
        split
        · rename_i hAny
          simpa using hAny
        · exact ⟨e, by simp, rfl, rfl⟩
      exact ⟨kept, subset_foldl_addEdge rest _ hKept, hSame⟩
    · exact ih h

/-- A loop has an edge to the step that its body begins with: own edges are added before those of
dependencies, and a loop has no other. -/
theorem exists_loopBody_edge {loop first : Fin steps.size} {c : LoopConfig}
    (hKind : (stepAt steps loop).kind = .loop) (hConfig : (stepAt steps loop).loopConfig = some c)
    (hFirst : find? steps c.body = some first) :
    Edge.mk loop first .loopBody ∈ declaredEdges steps := by
  have hOwn : ownEdges steps loop = [⟨loop, first, .loopBody⟩] := by
    have hKind : steps[loop].kind = .loop := hKind
    have hConfig : steps[loop].loopConfig = some c := hConfig
    simp only [ownEdges, hKind, hConfig, edgeTo, hFirst, Option.bind_some, Option.map_some,
      Option.toList_some]
  have hMem : Edge.mk loop first .loopBody ∈
      (List.finRange steps.size).flatMap (ownEdges steps) :=
    List.mem_flatMap.mpr ⟨loop, List.mem_finRange loop, hOwn ▸ List.mem_singleton_self _⟩
  obtain ⟨f, hKept, hSource, hTarget⟩ := exists_mem_foldl_addEdge hMem
  have hDeclared := (mem_foldl_addEdge hKept).resolve_left List.not_mem_nil
  obtain ⟨i, -, hi⟩ := List.mem_flatMap.mp hDeclared
  obtain rfl : i = loop := (of_mem_ownEdges hi).1.symm.trans hSource
  rw [hOwn, List.mem_singleton] at hi
  subst hi
  unfold declaredEdges
  dsimp only
  rw [List.foldl_append]
  exact subset_foldl_addEdge _ _ hKept

/-- The members of a body, if the loop has an edge into it, are what has been called its body. -/
theorem inBody_iff {loop first : Fin steps.size}
    (hFirst : Edge.mk loop first .loopBody ∈ declaredEdges steps) {i : Fin steps.size} :
    i ∈ bodyFrom steps (declaredEdges steps) first ↔ InBody steps loop i := by
  have hSame : Leads (bodyNext steps (declaredEdges steps)) = JoinedPlainly steps :=
    funext fun _ => funext fun _ => propext leads_bodyNext_iff
  rw [mem_bodyFrom_iff, hSame]
  constructor
  · exact fun hWay => ⟨first, hFirst, hWay⟩
  · rintro ⟨other, hOther, hWay⟩
    have hEq : other = first := target_eq_of_loopBody hOther hFirst rfl rfl rfl
    exact hEq ▸ hWay

theorem memberFault?_eq_none_iff_fitsBody {loop first i : Fin steps.size}
    (hFirst : Edge.mk loop first .loopBody ∈ declaredEdges steps) :
    memberFault? steps (declaredEdges steps) loop (bodyFrom steps (declaredEdges steps) first) i =
      none ↔ FitsBody steps loop i := by
  simp only [memberFault?_eq_none_iff, inBody_iff hFirst]
  exact ⟨fun ⟨hKind, hEntered, hFree⟩ => ⟨hKind, hEntered, hFree⟩,
    fun ⟨hKind, hEntered, hFree⟩ => ⟨hKind, hEntered, hFree⟩⟩

/-- The first step in a body of a loop, as the compiler finds it. -/
theorem exists_first {loop first : Fin steps.size}
    (hFirst : Edge.mk loop first .loopBody ∈ declaredEdges steps) :
    ((Edge.outgoing (declaredEdges steps) loop).find? fun (_, tag) => tag = .loopBody) =
      some (first, .loopBody) := by
  generalize hFind : List.find? _ _ = found
  cases found with
  | none =>
    have hNone := List.find?_eq_none.mp hFind (first, .loopBody) (Edge.mem_outgoing.mpr hFirst)
    simp at hNone
  | some pair =>
    obtain ⟨other, tag⟩ := pair
    obtain rfl : tag = .loopBody := by simpa using List.find?_some hFind
    have hOther := Edge.mem_outgoing.mp (List.mem_of_find?_eq_some hFind)
    have hEq : other = first := target_eq_of_loopBody hOther hFirst rfl rfl rfl
    rw [hEq]

theorem fitsBody_of_loopBody {loop first : Fin steps.size} {members : List (Fin steps.size)}
    (hFirst : Edge.mk loop first .loopBody ∈ declaredEdges steps)
    (h : loopBody steps (declaredEdges steps) loop = .ok members) {i : Fin steps.size}
    (hi : InBody steps loop i) : FitsBody steps loop i := by
  unfold loopBody at h
  simp only [exists_first hFirst] at h
  split at h
  · cases h
  · rename_i hNone
    refine (memberFault?_eq_none_iff_fitsBody hFirst).mp ?_
    simpa using List.findSome?_eq_none_iff.mp hNone i ((inBody_iff hFirst).mpr hi)

theorem not_fitsBody_of_loopBody {loop first : Fin steps.size} {e : CompileError}
    (hFirst : Edge.mk loop first .loopBody ∈ declaredEdges steps)
    (h : loopBody steps (declaredEdges steps) loop = .error e) :
    ∃ i fault, e = .invalidLoopBody (stepAt steps loop).id (stepAt steps i).id fault ∧
      InBody steps loop i ∧ ¬ FitsBody steps loop i := by
  unfold loopBody at h
  simp only [exists_first hFirst] at h
  split at h
  · rename_i i fault hSome
    cases h
    obtain ⟨j, hj, hFault⟩ := List.exists_of_findSome?_eq_some hSome
    obtain ⟨fault', hFault, hPair⟩ := Option.map_eq_some_iff.mp hFault
    cases hPair
    refine ⟨i, fault, rfl, (inBody_iff hFirst).mp hj, fun hFits => ?_⟩
    rw [(memberFault?_eq_none_iff_fitsBody hFirst).mpr hFits] at hFault
    cases hFault
  · cases h

/-- The element at which a sequence of checks fails. -/
theorem exists_of_mapM_error {α β ε : Type} {f : α → Except ε β} {xs : List α} {e : ε}
    (h : xs.mapM f = .error e) : ∃ x ∈ xs, f x = .error e := by
  induction xs with
  | nil => cases h
  | cons x xs ih =>
    rw [List.mapM_cons] at h
    cases hx : f x with
    | error e' =>
      simp only [hx, bind, Except.bind, Except.error.injEq] at h
      exact ⟨x, List.mem_cons_self, h ▸ hx⟩
    | ok y =>
      cases hxs : xs.mapM f with
      | ok ys => simp [hx, hxs, bind, Except.bind, pure, Except.pure] at h
      | error e' =>
        simp only [hx, hxs, bind, Except.bind, Except.error.injEq] at h
        obtain ⟨z, hz, hError⟩ := ih (h ▸ hxs)
        exact ⟨z, List.mem_cons_of_mem x hz, hError⟩

end

theorem stepAt_mem (steps : List Step) (i : Fin steps.toArray.size) :
    stepAt steps.toArray i ∈ steps :=
  List.getElem_mem (by simpa using i.isLt)

/-- Every loop of steps with sound settings and references has an edge into its body. -/
theorem exists_body_edge {steps : List Step} {allowOrphans : Bool}
    (hSettings : Requirement.settings.Holds allowOrphans steps)
    (hReferences : Requirement.references.Holds allowOrphans steps)
    {loop : Fin steps.toArray.size} (hKind : (stepAt steps.toArray loop).kind = .loop) :
    ∃ first, Edge.mk loop first .loopBody ∈ declaredEdges steps.toArray := by
  have hMem : stepAt steps.toArray loop ∈ steps := stepAt_mem steps loop
  obtain ⟨c, hConfig, -⟩ := (hSettings _ hMem).loop hKind
  have hReference : (Step.ReferenceField.loopBody, c.body) ∈
      (stepAt steps.toArray loop).references := by
    simp only [Step.references, hConfig]
    simp
  obtain ⟨t, ht, hId⟩ := hReferences _ hMem _ hReference
  obtain ⟨i, hi, rfl⟩ := List.getElem_of_mem ht
  have hFound : (find? steps.toArray c.body).isSome := by
    rw [find?, List.find?_isSome]
    exact ⟨⟨i, by simpa using hi⟩, List.mem_finRange _, by simpa using hId⟩
  obtain ⟨first, hFirst⟩ := Option.isSome_iff_exists.mp hFound
  exact ⟨first, exists_loopBody_edge hKind hConfig hFirst⟩

/-! ## The verdict -/

/-- The error names the first requirement that is not met, and says what is the case. -/
structure Refutes (allowOrphans : Bool) (steps : List Step) (e : CompileError) : Prop where
  violates : ¬ e.violated.Holds allowOrphans steps
  first : ∀ r : Requirement, r.place < e.violated.place → r.Holds allowOrphans steps
  describes : Describes steps e

/-- What the outcome of a compilation says about the steps. -/
def Verdict (allowOrphans : Bool) (steps : List Step) : Except CompileError Graph → Prop
  | .ok _ => ∀ r : Requirement, r.Holds allowOrphans steps
  | .error e => Refutes allowOrphans steps e

/-- What an error about the Start step says rules out that there is a single one. -/
theorem not_singleStart_of_describes {steps : List Step} {allowOrphans : Bool} {e : CompileError}
    (hViolated : e.violated = .singleStart) (h : Describes steps e) :
    ¬ Requirement.singleStart.Holds allowOrphans steps := by
  rintro ⟨start, hStart, hFree, hOnly⟩
  cases e with
  | missingStart => exact h start hStart
  | multipleStart ids =>
    obtain ⟨⟨is, hOrdered, hIs, rfl⟩, hTwo⟩ := h
    match is, hTwo with
    | i :: j :: _, _ =>
      have hi := hOnly i ((hIs i).mp (by simp))
      have hj := hOnly j ((hIs j).mp (by simp))
      have hLt : i < j := (List.pairwise_cons.mp hOrdered).1 j (by simp)
      exact absurd hLt (by rw [hi, hj]; exact lt_irrefl _)
  | startHasDependencies id =>
    obtain ⟨other, hOther, -, hDepends⟩ := h
    obtain rfl := (hOther start).mp hStart
    exact hDepends hFree
  | _ => cases hViolated

section

variable {steps : List Step} {allowOrphans : Bool}

/-- Whether an End step is among what the search finds from a step. -/
def meetsEnd (steps : Array Step) (start : Fin steps.size) : Bool :=
  (closure (Edge.targets (declaredEdges steps)) start).any fun i =>
    (stepAt steps i).kind = .finish

/-- An End step is found if there is a path to one. -/
theorem reachableEnd_iff {start : Fin steps.toArray.size}
    (hStart : (stepAt steps.toArray start).kind = .start)
    (hOnly : ∀ i, (stepAt steps.toArray i).kind = .start → i = start) :
    Requirement.reachableEnd.Holds allowOrphans steps ↔ meetsEnd steps.toArray start = true := by
  simp only [Requirement.Holds, meetsEnd, fromStart_iff hStart hOnly, List.any_eq_true,
    decide_eq_true_eq]

theorem noCycle_iff :
    Requirement.noCycle.Holds allowOrphans steps ↔
      cycle? (Edge.successors (declaredEdges steps.toArray)) = none := by
  rw [cycle?_eq_none_iff, Acyclic, leads_successors_eq]
  rfl

theorem noOrphans_iff {start : Fin steps.toArray.size}
    (hStart : (stepAt steps.toArray start).kind = .start)
    (hOnly : ∀ i, (stepAt steps.toArray i).kind = .start → i = start) :
    Requirement.noOrphans.Holds allowOrphans steps ↔
      (!allowOrphans && !((List.finRange steps.toArray.size).filter fun i =>
        i ∉ closure (Edge.targets (declaredEdges steps.toArray)) start).isEmpty) = false := by
  simp only [Requirement.Holds, fromStart_iff hStart hOnly, Bool.and_eq_false_iff,
    Bool.not_eq_false', List.isEmpty_iff, List.filter_eq_nil_iff, decide_eq_true_eq, not_not,
    List.mem_finRange, true_implies]

/-- An error about a body is about a member that does not fit. -/
theorem describes_of_loopBodies (hSettings : Requirement.settings.Holds allowOrphans steps)
    (hReferences : Requirement.references.Holds allowOrphans steps) {e : CompileError}
    (h : loopBodies steps.toArray (declaredEdges steps.toArray) = .error e) :
    e.violated = .bodies ∧ Describes steps e := by
  obtain ⟨loop, hLoop, hMap⟩ := exists_of_mapM_error h
  have hKind : (stepAt steps.toArray loop).kind = .loop :=
    of_decide_eq_true (List.mem_filter.mp hLoop).2
  obtain ⟨first, hFirst⟩ := exists_body_edge hSettings hReferences hKind
  have hError : loopBody steps.toArray (declaredEdges steps.toArray) loop = .error e := by
    cases hBody : loopBody steps.toArray (declaredEdges steps.toArray) loop with
    | ok members => simp [hBody, Except.map] at hMap
    | error e' => simpa [hBody, Except.map] using hMap
  obtain ⟨i, fault, rfl, hIn, hNot⟩ := not_fitsBody_of_loopBody hFirst hError
  exact ⟨rfl, loop, i, hIn, hNot, rfl, rfl⟩

/-- The bodies of all loops are found exactly if all members fit. -/
theorem bodies_iff (hSettings : Requirement.settings.Holds allowOrphans steps)
    (hReferences : Requirement.references.Holds allowOrphans steps) :
    Requirement.bodies.Holds allowOrphans steps ↔
      ∃ bodies, loopBodies steps.toArray (declaredEdges steps.toArray) = .ok bodies := by
  constructor
  · intro hFits
    cases h : loopBodies steps.toArray (declaredEdges steps.toArray) with
    | ok bodies => exact ⟨bodies, rfl⟩
    | error e =>
      obtain ⟨hViolated, hDescribes⟩ := describes_of_loopBodies hSettings hReferences h
      cases e with
      | invalidLoopBody =>
        obtain ⟨loop, i, hIn, hNot, -⟩ := hDescribes
        exact absurd (hFits loop i hIn) hNot
      | _ => cases hViolated
  · rintro ⟨bodies, h⟩ loop i hIn
    obtain ⟨first, hFirst, -⟩ := id hIn
    have hKind := (find?_of_loopBody hFirst rfl).1
    obtain ⟨_, _, hMap⟩ := (mapM_ok h).1 loop
      (List.mem_filter.mpr ⟨List.mem_finRange loop, decide_eq_true hKind⟩)
    cases hBody : loopBody steps.toArray (declaredEdges steps.toArray) loop with
    | ok members => exact fitsBody_of_loopBody hFirst hBody hIn
    | error e => simp [hBody, Except.map] at hMap

/-- The checks of a list of steps with distinct ids, sound settings and sound references: each of
them decides its requirement. -/
theorem verdict_assemble (hIds : Requirement.distinctIds.Holds allowOrphans steps)
    (hSettings : Requirement.settings.Holds allowOrphans steps)
    (hReferences : Requirement.references.Holds allowOrphans steps) :
    Verdict allowOrphans steps (assemble steps.toArray allowOrphans) := by
  unfold assemble
  simp only [bind, Except.bind, pure, Except.pure, throw, throwThe, MonadExceptOf.throw]
  -- each check that passes adds its requirement to the context; where one fails, those before it are
  -- all at hand
  cases hEntry : findEntry steps.toArray with
  | error e =>
    obtain ⟨hViolated, hDescribes⟩ := findEntry_error hEntry
    refine ⟨hViolated ▸ not_singleStart_of_describes hViolated hDescribes, ?_, hDescribes⟩
    rw [hViolated]
    intro r hr
    cases r <;> first | assumption | exact absurd hr (by decide)
  | ok start =>
    obtain ⟨hStart, hFree, hOnly⟩ := findEntry_ok hEntry
    have hSingle : Requirement.singleStart.Holds allowOrphans steps :=
      ⟨start, hStart, hFree, hOnly⟩
    dsimp only
    split
    · rename_i hCheck
      have hMissed : (!meetsEnd steps.toArray start) = true := hCheck
      refine ⟨fun hEnd => ?_, fun r hr => ?_, start, hStart, rfl⟩
      · rw [(reachableEnd_iff hStart hOnly).mp hEnd] at hMissed
        exact absurd hMissed (by decide)
      · have hPlace : r.place < 5 := hr
        cases r <;> first | assumption | exact absurd hPlace (by decide)
    rename_i hCheck
    have hMet : ¬ (!meetsEnd steps.toArray start) = true := hCheck
    have hEnd : Requirement.reachableEnd.Holds allowOrphans steps :=
      (reachableEnd_iff hStart hOnly).mpr (by simpa using hMet)
    split
    · rename_i way hCycle
      have hWay := isCycle_of_cycle? hCycle
      refine ⟨fun hNone => ?_, fun r hr => ?_, way, leads_successors_eq ▸ hWay.chain, hWay.long,
        hWay.closed, rfl⟩
      · cases hCycle.symm.trans (noCycle_iff.mp hNone)
      · have hPlace : r.place < 6 := hr
        cases r <;> first | assumption | exact absurd hPlace (by decide)
    rename_i hNoCycle
    have hAcyclic : Requirement.noCycle.Holds allowOrphans steps :=
      noCycle_iff.mpr (Option.eq_none_iff_forall_ne_some.mpr hNoCycle)
    split
    · rename_i hCheck
      refine ⟨fun hNone => ?_, fun r hr => ?_, ?_⟩
      · cases hCheck.symm.trans ((noOrphans_iff hStart hOnly).mp hNone)
      · have hPlace : r.place < 7 := hr
        cases r <;> first | assumption | exact absurd hPlace (by decide)
      · simp only [Describes, fromStart_iff hStart hOnly]
        exact idsOf_filter _
    rename_i hCheck
    have hNoOrphans : Requirement.noOrphans.Holds allowOrphans steps :=
      (noOrphans_iff hStart hOnly).mpr (Bool.eq_false_iff.mpr hCheck)
    cases hBodies : loopBodies steps.toArray (declaredEdges steps.toArray) with
    | error e =>
      obtain ⟨hViolated, hDescribes⟩ := describes_of_loopBodies hSettings hReferences hBodies
      refine ⟨?_, ?_, hDescribes⟩
      · rw [hViolated, bodies_iff hSettings hReferences]
        simp [hBodies]
      · rw [hViolated]
        intro r hr
        cases r <;> first | assumption | exact absurd hr (by decide)
    | ok bodies =>
      have hFit : Requirement.bodies.Holds allowOrphans steps :=
        (bodies_iff hSettings hReferences).mpr ⟨bodies, hBodies⟩
      intro r
      cases r <;> assumption

theorem verdict_compile (allowOrphans : Bool) (steps : List Step) :
    Verdict allowOrphans steps (compile allowOrphans steps) := by
  unfold compile
  cases hDuplicate : duplicateId? [] steps with
  | some id =>
    refine ⟨fun hIds => ?_, fun r hr => ?_, count_of_duplicateId? hDuplicate⟩
    · have hNone := duplicateId?_eq_none_iff.mpr ⟨hIds, fun s _ => List.not_mem_nil⟩
      cases hDuplicate.symm.trans hNone
    · have hPlace : r.place < 1 := hr
      cases r <;> exact absurd hPlace (by decide)
  | none =>
    have hIds : Requirement.distinctIds.Holds allowOrphans steps :=
      (duplicateId?_eq_none_iff.mp hDuplicate).1
    cases hConfig : configError? steps with
    | some e =>
      obtain ⟨hViolated, hDescribes⟩ := configError?_eq_some hConfig
      refine ⟨fun hSettings => ?_, fun r hr => ?_, hDescribes⟩
      · rw [hViolated] at hSettings
        cases hConfig.symm.trans (configError?_eq_none_iff.mpr hSettings)
      · rw [hViolated] at hr
        cases r <;> first | assumption | exact absurd hr (by decide)
    | none =>
      have hSettings : Requirement.settings.Holds allowOrphans steps :=
        configError?_eq_none_iff.mp hConfig
      cases hDangling : danglingError? steps with
      | some e =>
        obtain ⟨hViolated, hDescribes⟩ := danglingError?_eq_some hDangling
        refine ⟨fun hReferences => ?_, fun r hr => ?_, hDescribes⟩
        · rw [hViolated] at hReferences
          cases hDangling.symm.trans (danglingError?_eq_none_iff.mpr hReferences)
        · rw [hViolated] at hr
          cases r <;> first | assumption | exact absurd hr (by decide)
      | none => exact verdict_assemble hIds hSettings (danglingError?_eq_none_iff.mp hDangling)

end

/-- The compiler accepts a list of steps exactly if it meets all requirements. Otherwise the error
is about the first requirement that it does not meet, and what the error says is the case: in
particular a reported cycle is one, and the orphans are exactly the steps that no path leads to
from Start. -/
theorem compile_decides_validity (allowOrphans : Bool) (steps : List Step) :
    ((∃ g, compile allowOrphans steps = .ok g) ↔
      ∀ r : Requirement, r.Holds allowOrphans steps) ∧
    ∀ e, compile allowOrphans steps = .error e → Refutes allowOrphans steps e := by
  have hVerdict := verdict_compile allowOrphans steps
  cases h : compile allowOrphans steps with
  | ok g =>
    rw [h] at hVerdict
    exact ⟨⟨fun _ => hVerdict, fun _ => ⟨g, rfl⟩⟩, fun e hError => by cases hError⟩
  | error e =>
    rw [h] at hVerdict
    refine ⟨⟨?_, ?_⟩, ?_⟩
    · rintro ⟨g, hg⟩
      cases hg
    · exact fun hAll => absurd (hAll _) hVerdict.violates
    · intro e' hError
      cases hError
      exact hVerdict

/-- Two steps that depend on each other, beside a way from Start to End. -/
def cyclicSteps : List Step :=
  [("s", .start, []), ("a", .action, ["s", "b"]), ("b", .action, ["a"]), ("e", .finish, ["s"])].map
    fun (id, kind, dependsOn) =>
      { id, kind, dependsOn, name := none, inputMapping := [], condition := none
        trueBranch := none, falseBranch := none, loopConfig := none, retryPolicy := none
        errorConfig := none, timeout := none, config := .null }

theorem refutes_cyclicSteps :
    compile false cyclicSteps = .error (.cycle ["a", "b", "a"]) ∧
      Refutes false cyclicSteps (.cycle ["a", "b", "a"]) := by
  have h : compile false cyclicSteps = .error (.cycle ["a", "b", "a"]) := by rfl
  exact ⟨h, (compile_decides_validity false cyclicSteps).2 _ h⟩

end Graph

end Workflow

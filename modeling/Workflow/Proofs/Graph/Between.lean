/-
Workflow.Proofs.Graph.Between — the edge between two steps.

Definitions name other steps by their ids, and of the edges that they
declare between two steps the first one is kept. If ids are distinct, the
edge that is kept follows from the definitions of the two steps and from
nothing else: what a condition or a loop says about the other step goes
before the dependencies of the other step, which all give the same tag.

* `tagBetween?` — the tag of the edge between two steps.
* `mem_declaredEdges_iff` — the declared edges are those with this tag.
-/
import Workflow.Proofs.Graph.Valid

namespace Workflow

/-- The edge leads from the one step to the other. -/
def Edge.between {n : Nat} (source target : Fin n) (e : Edge n) : Bool :=
  e.source = source ∧ e.target = target

theorem Edge.between_comm {n : Nat} (e f : Edge n) :
    e.between f.source f.target = f.between e.source e.target := by
  simp only [between, eq_comm]

namespace Graph

/-- The tag of the edge that a condition or a loop declares to another step. -/
def ownTag? (source target : Step) : Option EdgeTag :=
  match source.kind with
  | .condition =>
    if source.trueBranch = some target.id then some .branchTrue
    else if source.falseBranch = some target.id then some .branchFalse
    else none
  | .loop => if source.loopConfig.map LoopConfig.body = some target.id then some .loopBody else none
  | _ => none

/-- The tag of the edge that a step declares by depending on another. -/
def dependencyTag? (source target : Step) : Option EdgeTag :=
  if source.id ∈ target.dependsOn then
    if target.kind = .errorHandler then some .errorCatch
    else if source.kind = .loop then some .loopExit
    else some .dependency
  else none

/-- The tag of the edge from one step to another, if there is one. -/
def tagBetween? (source target : Step) : Option EdgeTag :=
  ownTag? source target <|> dependencyTag? source target

/-! ## The edge that is kept -/

section

variable {n : Nat}

theorem addEdge_eq (edges : List (Edge n)) (f : Edge n) :
    addEdge edges f = if edges.any (Edge.between f.source f.target) then edges else edges ++ [f] :=
  rfl

theorem find?_addEdge (edges : List (Edge n)) (f : Edge n) (i j : Fin n) :
    (addEdge edges f).find? (Edge.between i j) = (edges ++ [f]).find? (Edge.between i j) := by
  rw [addEdge_eq]
  split
  · rename_i hKnown
    cases hBetween : f.between i j with
    | false => simp [List.find?_append, hBetween]
    | true =>
      obtain ⟨rfl, rfl⟩ : f.source = i ∧ f.target = j := of_decide_eq_true hBetween
      have hFound : (edges.find? (Edge.between f.source f.target)).isSome := by
        simpa [List.find?_isSome] using hKnown
      rw [List.find?_append, Option.or_of_isSome hFound]
  · rfl

/-- Of the edges between two steps the first one is kept. -/
theorem find?_foldl_addEdge (added edges : List (Edge n)) (i j : Fin n) :
    (added.foldl addEdge edges).find? (Edge.between i j) =
      (edges ++ added).find? (Edge.between i j) := by
  induction added generalizing edges with
  | nil => rw [List.foldl_nil, List.append_nil]
  | cons f rest ih =>
    rw [List.foldl_cons, ih, List.find?_append, find?_addEdge, ← List.find?_append,
      List.append_assoc, List.singleton_append]

/-- No two edges are between the same steps. -/
def OnePerPair (edges : List (Edge n)) : Prop :=
  edges.Pairwise fun e f => f.between e.source e.target = false

theorem onePerPair_addEdge {edges : List (Edge n)} (h : OnePerPair edges) (f : Edge n) :
    OnePerPair (addEdge edges f) := by
  rw [addEdge_eq]
  split
  · exact h
  · rename_i hNew
    refine List.pairwise_append.mpr ⟨h, List.pairwise_singleton _ _, fun e he g hg => ?_⟩
    obtain rfl := List.mem_singleton.mp hg
    rw [Edge.between_comm]
    exact Bool.eq_false_iff.mpr fun hSame => hNew (List.any_eq_true.mpr ⟨e, he, hSame⟩)

theorem onePerPair_foldl_addEdge {edges : List (Edge n)} (h : OnePerPair edges)
    (added : List (Edge n)) : OnePerPair (added.foldl addEdge edges) := by
  induction added generalizing edges with
  | nil => exact h
  | cons f rest ih => exact ih (onePerPair_addEdge h f)

theorem OnePerPair.nodup {edges : List (Edge n)} (h : OnePerPair edges) : edges.Nodup := by
  refine List.Pairwise.imp ?_ h
  rintro e _ hOther rfl
  simp [Edge.between] at hOther

theorem OnePerPair.mem_iff {edges : List (Edge n)} (h : OnePerPair edges) {e : Edge n} :
    e ∈ edges ↔ edges.find? (Edge.between e.source e.target) = some e := by
  refine ⟨fun he => ?_, List.mem_of_find?_eq_some⟩
  induction h with
  | nil => cases he
  | cons hFirst hRest ih =>
    rename_i f rest
    rcases List.mem_cons.mp he with rfl | hMem
    · exact List.find?_cons_of_pos (by simp [Edge.between])
    · have hOther : f.between e.source e.target = false := by
        rw [Edge.between_comm]
        exact hFirst e hMem
      rw [List.find?_cons_of_neg (by simp [hOther]), ih hMem]

end

/-! ## What two definitions declare -/

section

variable {steps : List Step}

theorem id_of_find? {id : String} {i : Fin steps.toArray.size}
    (h : find? steps.toArray id = some i) : (stepAt steps.toArray i).id = id := by
  have hTest := List.find?_some h
  exact of_decide_eq_true hTest

/-- An id is that of one step at most. -/
theorem find?_eq_some_iff (hIds : (steps.map Step.id).Nodup) {id : String}
    {i : Fin steps.toArray.size} :
    find? steps.toArray id = some i ↔ id = (stepAt steps.toArray i).id := by
  constructor
  · exact fun h => (id_of_find? h).symm
  · rintro rfl
    cases hFind : find? steps.toArray (stepAt steps.toArray i).id with
    | none =>
      have hNone := List.find?_eq_none.mp hFind i (List.mem_finRange i)
      exact absurd (decide_eq_true rfl) hNone
    | some j =>
      rw [eq_of_id_eq hIds (id_of_find? hFind)]

/-- What one step of several gives if the others give nothing. -/
theorem findSome?_finRange {n : Nat} {α : Type} {f : Fin n → Option α} {i : Fin n}
    (h : ∀ j, j ≠ i → f j = none) : (List.finRange n).findSome? f = f i := by
  cases hFound : (List.finRange n).findSome? f with
  | none => exact (List.findSome?_eq_none_iff.mp hFound i (List.mem_finRange i)).symm
  | some a =>
    obtain ⟨j, -, hj⟩ := List.exists_of_findSome?_eq_some hFound
    by_cases hSame : j = i
    · rw [← hSame, hj]
    · cases (h j hSame).symm.trans hj

theorem find?_edgeTo (hIds : (steps.map Step.id).Nodup) (i j : Fin steps.toArray.size)
    (tag : EdgeTag) (id? : Option String) :
    (id?.bind (edgeTo steps.toArray i tag)).toList.find? (Edge.between i j) =
      if id? = some (stepAt steps.toArray j).id then some ⟨i, j, tag⟩ else none := by
  cases id? with
  | none => rfl
  | some id =>
    cases hFind : find? steps.toArray id with
    | none =>
      have hOther : id ≠ (stepAt steps.toArray j).id := fun h => by
        cases hFind.symm.trans ((find?_eq_some_iff hIds).mpr h)
      simp [edgeTo, hFind, hOther]
    | some k =>
      obtain rfl := (find?_eq_some_iff hIds).mp hFind
      by_cases hSame : k = j
      · subst hSame
        simp [edgeTo, hFind, Edge.between]
      · have hOther : (stepAt steps.toArray k).id ≠ (stepAt steps.toArray j).id :=
          fun h => hSame (eq_of_id_eq hIds h)
        simp [edgeTo, hFind, hSame, hOther, Edge.between]

/-- The first edge that a condition or a loop declares to another step. -/
theorem find?_ownEdges (hIds : (steps.map Step.id).Nodup) (i j : Fin steps.toArray.size) :
    (ownEdges steps.toArray i).find? (Edge.between i j) =
      (ownTag? (stepAt steps.toArray i) (stepAt steps.toArray j)).map (Edge.mk i j) := by
  have hKindEq : steps.toArray[i].kind = (stepAt steps.toArray i).kind := rfl
  unfold ownEdges ownTag?
  dsimp only
  rw [hKindEq]
  cases hKind : (stepAt steps.toArray i).kind with
  | condition =>
    have hTrue := find?_edgeTo hIds i j .branchTrue (stepAt steps.toArray i).trueBranch
    have hFalse := find?_edgeTo hIds i j .branchFalse (stepAt steps.toArray i).falseBranch
    refine List.find?_append.trans ?_
    refine (congrArg₂ Option.or hTrue hFalse).trans ?_
    dsimp only
    split
    · rfl
    · split <;> rfl
  | loop =>
    have hBody := find?_edgeTo hIds i j .loopBody
      ((stepAt steps.toArray i).loopConfig.map LoopConfig.body)
    rw [Option.bind_map] at hBody
    refine Eq.trans hBody ?_
    dsimp only
    split <;> rfl
  | _ => rfl

/-- The edge that a step declares by depending on another. -/
theorem find?_dependencyEdges (hIds : (steps.map Step.id).Nodup) (i j : Fin steps.toArray.size) :
    (dependencyEdges steps.toArray j).find? (Edge.between i j) =
      (dependencyTag? (stepAt steps.toArray i) (stepAt steps.toArray j)).map (Edge.mk i j) := by
  have hAll : ∀ ids : List String, (ids.filterMap fun id => (find? steps.toArray id).map
      fun source => Edge.mk source j (dependencyTag steps.toArray source j)).find?
        (Edge.between i j) = if (stepAt steps.toArray i).id ∈ ids then
          some ⟨i, j, dependencyTag steps.toArray i j⟩ else none := by
    intro ids
    induction ids with
    | nil => rfl
    | cons id rest ih =>
      cases hFind : find? steps.toArray id with
      | none =>
        have hOther : (stepAt steps.toArray i).id ≠ id := fun h => by
          cases hFind.symm.trans ((find?_eq_some_iff hIds).mpr h.symm)
        simp [hFind, hOther, ih]
      | some k =>
        obtain rfl := (find?_eq_some_iff hIds).mp hFind
        by_cases hSame : k = i
        · subst hSame
          simp [hFind, Edge.between]
        · have hOther : (stepAt steps.toArray i).id ≠ (stepAt steps.toArray k).id :=
            fun h => hSame (eq_of_id_eq hIds h.symm)
          simp [hFind, hSame, hOther, Edge.between, ih]
  refine (hAll _).trans ?_
  rw [show steps.toArray[j] = stepAt steps.toArray j from rfl, dependencyTag?]
  split
  · unfold dependencyTag
    rw [show steps.toArray[j] = stepAt steps.toArray j from rfl,
      show steps.toArray[i] = stepAt steps.toArray i from rfl]
    split
    · rfl
    · split <;> rfl
  · rfl

theorem target_of_mem_dependencyEdges {steps : Array Step} {i : Fin steps.size}
    {e : Edge steps.size} (h : e ∈ dependencyEdges steps i) : e.target = i := by
  obtain ⟨_, -, hEdge⟩ := List.mem_filterMap.mp h
  obtain ⟨_, -, rfl⟩ := Option.map_eq_some_iff.mp hEdge
  rfl

theorem onePerPair_declaredEdges (steps : Array Step) : OnePerPair (declaredEdges steps) :=
  onePerPair_foldl_addEdge List.Pairwise.nil _

theorem nodup_declaredEdges (steps : Array Step) : (declaredEdges steps).Nodup :=
  (onePerPair_declaredEdges steps).nodup

/-- The edge between two steps follows from their definitions. -/
theorem find?_declaredEdges (hIds : (steps.map Step.id).Nodup) (i j : Fin steps.toArray.size) :
    (declaredEdges steps.toArray).find? (Edge.between i j) =
      (tagBetween? (stepAt steps.toArray i) (stepAt steps.toArray j)).map (Edge.mk i j) := by
  have hOwn : ((List.finRange steps.toArray.size).flatMap (ownEdges steps.toArray)).find?
      (Edge.between i j) =
        (ownTag? (stepAt steps.toArray i) (stepAt steps.toArray j)).map (Edge.mk i j) := by
    rw [List.find?_flatMap, findSome?_finRange (i := i), find?_ownEdges hIds]
    intro k hk
    refine List.find?_eq_none.mpr fun e he hBetween => hk ?_
    rw [← (of_mem_ownEdges he).1]
    exact (of_decide_eq_true hBetween).1
  have hDeps : ((List.finRange steps.toArray.size).flatMap (dependencyEdges steps.toArray)).find?
      (Edge.between i j) =
        (dependencyTag? (stepAt steps.toArray i) (stepAt steps.toArray j)).map (Edge.mk i j) := by
    rw [List.find?_flatMap, findSome?_finRange (i := j), find?_dependencyEdges hIds]
    intro k hk
    refine List.find?_eq_none.mpr fun e he hBetween => hk ?_
    rw [← target_of_mem_dependencyEdges he]
    exact (of_decide_eq_true hBetween).2
  unfold declaredEdges tagBetween?
  dsimp only
  rw [find?_foldl_addEdge, List.nil_append, List.find?_append, hOwn, hDeps]
  cases ownTag? (stepAt steps.toArray i) (stepAt steps.toArray j) <;> rfl

/-- The edges of a list of steps with distinct ids: between two steps there is the one that their
definitions give, and no other. -/
theorem mem_declaredEdges_iff (hIds : (steps.map Step.id).Nodup) {i j : Fin steps.toArray.size}
    {tag : EdgeTag} :
    Edge.mk i j tag ∈ declaredEdges steps.toArray ↔
      tagBetween? (stepAt steps.toArray i) (stepAt steps.toArray j) = some tag := by
  rw [(onePerPair_declaredEdges _).mem_iff, find?_declaredEdges hIds]
  simp

end

end Graph

end Workflow

/-
Workflow.Proofs.Graph.Renumber — the same steps in another order.

A list of steps with distinct ids and the same steps in another order differ
by the numbers of the steps. The edge between two steps follows from their
definitions, so it is there under the one numbering exactly if it is there
under the other; hence so are paths, the bodies of loops and everything that
is required of the steps.

* `exists_renumbering` — the numbers of the same steps in the two lists.
* `Renumbering.joined_iff`, `inBody_iff`, `fitsBody_iff` — what follows from
  the definitions of the steps.
* `Requirement.holds_of_perm` — a requirement is met in any order.
-/
import Mathlib.Data.List.NodupEquivFin
import Workflow.Proofs.Graph.Between

namespace Workflow.Graph

/-- The numbers that the steps of one list have in another. -/
structure Renumbering (steps steps' : List Step) where
  index : Fin steps.toArray.size ≃ Fin steps'.toArray.size
  same : ∀ i, stepAt steps'.toArray (index i) = stepAt steps.toArray i

/-- The same steps in another order have other numbers only. -/
theorem exists_renumbering {steps steps' : List Step} (hIds : (steps.map Step.id).Nodup)
    (h : steps.Perm steps') : Nonempty (Renumbering steps steps') := by
  have hNodup : steps.Nodup := hIds.of_map
  have hNodup' : steps'.Nodup := h.nodup_iff.mp hNodup
  let toStep := List.Nodup.getEquiv steps hNodup
  let toStep' := List.Nodup.getEquiv steps' hNodup'
  let across : { s // s ∈ steps } ≃ { s // s ∈ steps' } := Equiv.subtypeEquivRight fun _ => h.mem_iff
  refine ⟨⟨(toStep.trans across).trans toStep'.symm, fun i => ?_⟩⟩
  have hBack := congrArg Subtype.val (toStep'.apply_symm_apply (across (toStep i)))
  exact hBack

/-- A step fits into a body by the steps and tags of its edges. -/
theorem fitsBody_iff_tags {steps : Array Step} {loop i : Fin steps.size} :
    FitsBody steps loop i ↔
      ((stepAt steps i).kind ≠ .start ∧ (stepAt steps i).kind ≠ .finish ∧
        (stepAt steps i).kind ≠ .loop) ∧
      (∀ j tag, Edge.mk j i tag ∈ declaredEdges steps →
        j = loop ∧ tag = .loopBody ∨ InBody steps loop j) ∧
      ∀ j, Edge.mk i j .errorCatch ∉ declaredEdges steps := by
  constructor
  · rintro ⟨hKind, hEntered, hFree⟩
    exact ⟨hKind, fun j tag he => hEntered _ he rfl, fun j he => hFree _ he rfl rfl⟩
  · rintro ⟨hKind, hEntered, hFree⟩
    refine ⟨hKind, ?_, ?_⟩
    · rintro ⟨j, _, tag⟩ he rfl
      exact hEntered j tag he
    · rintro ⟨_, j, _⟩ he rfl rfl
      exact hFree j he

namespace Renumbering

section

variable {steps steps' : List Step} (σ : Renumbering steps steps')
  (hIds : (steps.map Step.id).Nodup) (hIds' : (steps'.map Step.id).Nodup)

include hIds hIds'

theorem mem_declaredEdges_iff {i j : Fin steps.toArray.size} {tag : EdgeTag} :
    Edge.mk i j tag ∈ declaredEdges steps.toArray ↔
      Edge.mk (σ.index i) (σ.index j) tag ∈ declaredEdges steps'.toArray := by
  rw [Graph.mem_declaredEdges_iff hIds, Graph.mem_declaredEdges_iff hIds', σ.same, σ.same]

theorem joined_iff (i j : Fin steps.toArray.size) :
    Joined steps.toArray i j ↔ Joined steps'.toArray (σ.index i) (σ.index j) :=
  exists_congr fun _ => σ.mem_declaredEdges_iff hIds hIds'

theorem joinedPlainly_iff (i j : Fin steps.toArray.size) :
    JoinedPlainly steps.toArray i j ↔ JoinedPlainly steps'.toArray (σ.index i) (σ.index j) :=
  exists_congr fun _ => and_congr_right fun _ => σ.mem_declaredEdges_iff hIds hIds'

omit hIds hIds' in
/-- What has the same steps has the same paths. -/
theorem transGen_iff {r : Fin steps.toArray.size → Fin steps.toArray.size → Prop}
    {r' : Fin steps'.toArray.size → Fin steps'.toArray.size → Prop}
    (h : ∀ i j, r i j ↔ r' (σ.index i) (σ.index j)) {i j : Fin steps.toArray.size} :
    Relation.TransGen r i j ↔ Relation.TransGen r' (σ.index i) (σ.index j) := by
  refine ⟨Relation.TransGen.lift σ.index (fun _ _ => (h _ _).mp) i j, fun hWay => ?_⟩
  have hBack : Relation.TransGen r (σ.index.symm (σ.index i)) (σ.index.symm (σ.index j)) :=
    Relation.TransGen.lift σ.index.symm (fun a b hab => (h _ _).mpr (by simpa using hab)) _ _ hWay
  simpa using hBack

omit hIds hIds' in
theorem reflTransGen_iff {r : Fin steps.toArray.size → Fin steps.toArray.size → Prop}
    {r' : Fin steps'.toArray.size → Fin steps'.toArray.size → Prop}
    (h : ∀ i j, r i j ↔ r' (σ.index i) (σ.index j)) {i j : Fin steps.toArray.size} :
    Relation.ReflTransGen r i j ↔ Relation.ReflTransGen r' (σ.index i) (σ.index j) := by
  rw [Relation.reflTransGen_iff_eq_or_transGen, Relation.reflTransGen_iff_eq_or_transGen,
    σ.transGen_iff h, σ.index.injective.eq_iff]

theorem fromStart_iff (i : Fin steps.toArray.size) :
    FromStart steps.toArray i ↔ FromStart steps'.toArray (σ.index i) := by
  refine σ.index.exists_congr fun start => ?_
  rw [σ.same, σ.reflTransGen_iff (σ.joined_iff hIds hIds')]

theorem inBody_iff (loop i : Fin steps.toArray.size) :
    InBody steps.toArray loop i ↔ InBody steps'.toArray (σ.index loop) (σ.index i) := by
  refine σ.index.exists_congr fun first => ?_
  rw [σ.mem_declaredEdges_iff hIds hIds', σ.reflTransGen_iff (σ.joinedPlainly_iff hIds hIds')]

theorem fitsBody_iff (loop i : Fin steps.toArray.size) :
    FitsBody steps.toArray loop i ↔ FitsBody steps'.toArray (σ.index loop) (σ.index i) := by
  rw [fitsBody_iff_tags, fitsBody_iff_tags, σ.same]
  refine and_congr_right fun _ => and_congr ?_ ?_
  · refine σ.index.forall_congr fun j => forall_congr' fun tag => ?_
    rw [σ.mem_declaredEdges_iff hIds hIds', ← σ.inBody_iff hIds hIds', σ.index.apply_eq_iff_eq]
  · refine σ.index.forall_congr fun j => ?_
    rw [σ.mem_declaredEdges_iff hIds hIds']

end

end Renumbering

/-! ## Requirements -/

/-- The first requirement says that the steps can be told apart; the others are met in any order
if it is. -/
theorem Requirement.holds_of_perm {allowOrphans : Bool} {steps steps' : List Step}
    (h : steps.Perm steps') (hIds : (steps.map Step.id).Nodup) (r : Requirement) :
    r.Holds allowOrphans steps ↔ r.Holds allowOrphans steps' := by
  have hIds' : (steps'.map Step.id).Nodup := (h.map Step.id).nodup_iff.mp hIds
  obtain ⟨σ⟩ := exists_renumbering hIds h
  cases r with
  | distinctIds => exact (h.map Step.id).nodup_iff
  | settings => simp only [Holds, h.mem_iff]
  | references => simp only [Holds, h.mem_iff]
  | singleStart =>
    refine σ.index.exists_congr fun start => ?_
    rw [σ.same]
    refine and_congr_right fun _ => and_congr_right fun _ => σ.index.forall_congr fun i => ?_
    rw [σ.same, σ.index.apply_eq_iff_eq]
  | reachableEnd =>
    refine σ.index.exists_congr fun i => ?_
    rw [σ.same, σ.fromStart_iff hIds hIds']
  | noCycle =>
    refine σ.index.forall_congr fun i => not_congr ?_
    exact σ.transGen_iff (σ.joined_iff hIds hIds')
  | noOrphans =>
    exact or_congr_right (σ.index.forall_congr fun i => σ.fromStart_iff hIds hIds' i)
  | bodies =>
    refine σ.index.forall_congr fun loop => σ.index.forall_congr fun i => ?_
    rw [σ.inBody_iff hIds hIds', σ.fitsBody_iff hIds hIds']

end Workflow.Graph

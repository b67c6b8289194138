/-
Workflow.Proofs.Graph.Sound — what every compiled graph is like.

The checks of the compiler leave graphs whose edges go up in some
numbering, in which every step but the orphans is reached from the entry,
only error handlers catch errors, and the body of a loop is entered only by
the loop and left nowhere.

* `Graph.Sound` — what every compiled graph is like; `sound_of_compile`.
* `Sound.owner?_eq_some_iff` — the bodies of two loops have no step in
  common.
-/
import Mathlib.Algebra.Order.BigOperators.Group.List
import Mathlib.Algebra.Order.Group.Nat
import Workflow.Graph.Compile
import Workflow.Proofs.Graph.Search

namespace Workflow.Graph

/-! ## Edges as pairs -/

theorem mem_incoming_iff {g : Graph} {i j : g.Index} {tag : EdgeTag} :
    (j, tag) ∈ g.incoming i ↔ Edge.mk j i tag ∈ g.edges := by
  rw [incoming_eq, Edge.mem_incoming]

theorem mem_outgoing_iff {g : Graph} {i j : g.Index} {tag : EdgeTag} :
    (j, tag) ∈ g.outgoing i ↔ Edge.mk i j tag ∈ g.edges := by
  rw [outgoing_eq, Edge.mem_outgoing]

theorem mem_guarded_iff {g : Graph} {h i : g.Index} :
    i ∈ g.guarded h ↔ Edge.mk i h .errorCatch ∈ g.edges := by
  rw [← mem_incoming_iff]
  simp [guarded]

theorem mem_handlersOf_iff {g : Graph} {h i : g.Index} :
    h ∈ g.handlersOf i ↔ Edge.mk i h .errorCatch ∈ g.edges := by
  rw [← mem_outgoing_iff]
  simp [handlersOf]

theorem leads_targets_iff {n : Nat} {edges : List (Edge n)} {i j : Fin n} :
    Leads (Edge.targets edges) i j ↔ ∃ tag, Edge.mk i j tag ∈ edges := by
  simp only [Leads, Edge.targets, List.mem_map, List.mem_filter, decide_eq_true_eq]
  constructor
  · rintro ⟨⟨_, _, tag⟩, ⟨hMem, rfl⟩, rfl⟩
    exact ⟨tag, hMem⟩
  · rintro ⟨tag, hMem⟩
    exact ⟨_, ⟨hMem, rfl⟩, rfl⟩

theorem leads_successors_iff {n : Nat} {edges : List (Edge n)} {i j : Fin n} :
    Leads (Edge.successors edges) i j ↔ ∃ tag, Edge.mk i j tag ∈ edges := by
  simp only [Leads, Edge.successors, List.mem_map, Prod.exists, exists_and_right, exists_eq_right,
    Edge.mem_outgoing]

/-! ## Sound graphs -/

/-- What every compiled graph is like. -/
structure Sound (g : Graph) : Prop where
  /-- A run starts with the Start step, which is no orphan. -/
  entry_start : g.kindOf g.entry = .start
  entry_reached : g.entry ∉ g.orphans
  /-- Every edge goes up in some numbering. -/
  ranked : ∃ rank : g.Index → Nat, ∀ e ∈ g.edges, rank e.source < rank e.target
  /-- Only error handlers catch errors. -/
  catch_handler : ∀ e ∈ g.edges, e.tag = .errorCatch → g.kindOf e.target = .errorHandler
  /-- What an orphan does not lead to is reached from the entry. -/
  origin : ∀ i, i ∉ g.orphans → i ≠ g.entry → ∃ e ∈ g.edges, e.target = i ∧ e.source ∉ g.orphans
  reached : ∀ e ∈ g.edges, e.source ∉ g.orphans → e.target ∉ g.orphans
  /-- Every loop has a body, and only loops have one. -/
  body_loop : ∀ loop, ∀ i ∈ g.body loop, g.kindOf loop = .loop
  body_first : ∀ loop, g.kindOf loop = .loop →
    ∃ i ∈ g.body loop, Edge.mk loop i .loopBody ∈ g.edges
  body_kind : ∀ loop, ∀ i ∈ g.body loop,
    g.kindOf i ≠ .start ∧ g.kindOf i ≠ .finish ∧ g.kindOf i ≠ .loop
  /-- A body is entered by its loop and left nowhere, and nothing in it is guarded. -/
  body_source : ∀ loop, ∀ i ∈ g.body loop, ∀ e ∈ g.edges, e.target = i →
    e.source = loop ∧ e.tag = .loopBody ∨ e.source ∈ g.body loop
  body_target : ∀ loop, ∀ i ∈ g.body loop, ∀ e ∈ g.edges, e.source = i →
    e.tag ≠ .errorCatch ∧ e.target ∈ g.body loop
  /-- A loop leads to every step of its body. -/
  body_origin : ∀ loop, ∀ i ∈ g.body loop,
    ∃ e ∈ g.edges, e.target = i ∧ (e.source = loop ∨ e.source ∈ g.body loop)
  /-- The owner of a step has it in its body. -/
  owner_mem : ∀ i loop, g.owner? i = some loop → i ∈ g.body loop
  owner_isSome : ∀ i loop, i ∈ g.body loop → (g.owner? i).isSome

namespace Sound

variable {g : Graph} (hg : g.Sound)
include hg

/-- What holds of a step if it holds of all steps with an edge to it holds of every step. -/
theorem induction_on_sources {P : g.Index → Prop}
    (h : ∀ i, (∀ e ∈ g.edges, e.target = i → P e.source) → P i) (i : g.Index) : P i := by
  obtain ⟨rank, hRank⟩ := hg.ranked
  induction hr : rank i using Nat.strong_induction_on generalizing i with
  | _ r ih =>
    refine h i fun e he hTarget => ih (rank e.source) ?_ e.source rfl
    have hLt := hRank e he
    rw [hTarget] at hLt
    omega

/-- What holds of a step if it holds of all steps with an edge from it holds of every step. -/
theorem induction_on_targets {P : g.Index → Prop}
    (h : ∀ i, (∀ e ∈ g.edges, e.source = i → P e.target) → P i) (i : g.Index) : P i := by
  obtain ⟨rank, hRank⟩ := hg.ranked
  have hBound : ∀ j, rank j ≤ (g.indices.map rank).sum := fun j =>
    List.single_le_sum (fun _ _ => Nat.zero_le _) _ (List.mem_map_of_mem (List.mem_finRange j))
  induction hr : (g.indices.map rank).sum - rank i using Nat.strong_induction_on
      generalizing i with
  | _ r ih =>
    refine h i fun e he hSource => ih ((g.indices.map rank).sum - rank e.target) ?_ e.target rfl
    have hLt := hRank e he
    have hTop := hBound e.target
    rw [hSource] at hLt
    omega

theorem not_mem_own_body (loop : g.Index) : loop ∉ g.body loop := by
  intro hMem
  exact (hg.body_kind loop loop hMem).2.2 (hg.body_loop loop loop hMem)

/-- What holds of a step in a body if the loop enters it, or if it holds of a step of the body before
it, holds of every step in the body. -/
theorem body_induction {loop : g.Index} {P : g.Index → Prop}
    (h : ∀ e ∈ g.edges, e.target ∈ g.body loop →
      (e.source = loop ∨ e.source ∈ g.body loop ∧ P e.source) → P e.target)
    (i : g.Index) (hi : i ∈ g.body loop) : P i := by
  obtain ⟨rank, hRank⟩ := hg.ranked
  induction hr : rank i using Nat.strong_induction_on generalizing i with
  | _ r ih =>
    obtain ⟨e, he, rfl, hSource⟩ := hg.body_origin loop i hi
    have hLt := hRank e he
    refine h e he hi (hSource.imp id fun hBody => ⟨hBody, ?_⟩)
    exact ih (rank e.source) (by omega) e.source hBody rfl

/-- A step that two bodies have in common would be entered by both loops. -/
theorem body_disjoint {loop loop' i : g.Index} (hi : i ∈ g.body loop) (hi' : i ∈ g.body loop') :
    loop = loop' := by
  refine hg.body_induction (P := fun i => i ∈ g.body loop' → loop = loop') ?_ i hi hi'
  intro e he hMem hSource hMem'
  rcases hg.body_source loop' e.target hMem' e he rfl with ⟨hLoop', _⟩ | hBody'
  · rcases hSource with hLoop | ⟨hBody, -⟩
    · exact hLoop.symm.trans hLoop'
    · have hKind := (hg.body_kind loop e.source hBody).2.2
      exact absurd (hLoop' ▸ hg.body_loop loop' _ hMem') hKind
  · rcases hSource with hLoop | ⟨-, hSame⟩
    · have hKind := (hg.body_kind loop' e.source hBody').2.2
      exact absurd (hLoop ▸ hg.body_loop loop _ hMem) hKind
    · exact hSame hBody'

/-- The bodies of two loops have no step in common. -/
theorem owner?_eq_some_iff {i loop : g.Index} : g.owner? i = some loop ↔ i ∈ g.body loop := by
  constructor
  · exact hg.owner_mem i loop
  · intro hi
    obtain ⟨loop', hOwner⟩ := Option.isSome_iff_exists.mp (hg.owner_isSome i loop hi)
    rw [hOwner, hg.body_disjoint hi (hg.owner_mem i loop' hOwner)]

theorem not_mem_body_of_owner?_eq_none {i : g.Index} (h : g.owner? i = none) (loop : g.Index) :
    i ∉ g.body loop := by
  intro hi
  rw [hg.owner?_eq_some_iff.mpr hi] at h
  cases h

theorem owner?_eq_none_of_loop {i : g.Index} (h : g.kindOf i = .loop) : g.owner? i = none := by
  rw [Option.eq_none_iff_forall_ne_some]
  intro loop hOwner
  exact (hg.body_kind loop i (hg.owner_mem i loop hOwner)).2.2 h

/-- A guarded step is in no body, and neither is a handler that guards something. -/
theorem owner?_eq_none_of_catch {i h : g.Index} (hEdge : Edge.mk i h .errorCatch ∈ g.edges) :
    g.owner? i = none ∧ g.owner? h = none := by
  rw [Option.eq_none_iff_forall_ne_some, Option.eq_none_iff_forall_ne_some]
  constructor
  · intro loop hOwner
    exact (hg.body_target loop i (hg.owner_mem i loop hOwner) _ hEdge rfl).1 rfl
  · intro loop hOwner
    rcases hg.body_source loop h (hg.owner_mem h loop hOwner) _ hEdge rfl with ⟨_, hTag⟩ | hBody
    · cases hTag
    · exact (hg.body_target loop i hBody _ hEdge rfl).1 rfl

/-- What a loop that is reached has in its body is reached. -/
theorem body_reached {loop i : g.Index} (hLoop : loop ∉ g.orphans) (hi : i ∈ g.body loop) :
    i ∉ g.orphans := by
  refine hg.body_induction (P := fun i => i ∉ g.orphans)
    (fun e he _ hSource => hg.reached e he ?_) i hi
  rcases hSource with rfl | ⟨-, hReached⟩
  · exact hLoop
  · exact hReached

end Sound

/-! ## Compiled graphs are sound -/

/-- What has been checked of a graph when it is put together. -/
theorem assemble_ok {steps : Array Step} {allowOrphans : Bool} {g : Graph}
    (h : assemble steps allowOrphans = .ok g) :
    ∃ (start : Fin steps.size) (bodies : List (Fin steps.size × List (Fin steps.size))),
      findEntry steps = .ok start ∧ cycle? (Edge.successors (declaredEdges steps)) = none ∧
      loopBodies steps (declaredEdges steps) = .ok bodies ∧
      g = { steps, edges := declaredEdges steps, entry := start, bodies
            orphans := (List.finRange steps.size).filter fun i =>
              i ∉ closure (Edge.targets (declaredEdges steps)) start } := by
  unfold assemble at h
  simp only [bind, Except.bind, pure, Except.pure, throw, throwThe, MonadExceptOf.throw] at h
  split at h
  · cases h
  · rename_i start hStart
    split at h
    · cases h
    · split at h
      · cases h
      · rename_i hCycle
        split at h
        · cases h
        · split at h
          · cases h
          · rename_i bodies hBodies
            cases h
            have hNone := Option.eq_none_iff_forall_ne_some.mpr hCycle
            exact ⟨start, bodies, hStart, hNone, hBodies, rfl⟩

theorem findEntry_kind {g : Graph} {start : g.Index} (h : findEntry g.steps = .ok start) :
    g.kindOf start = .start := by
  unfold findEntry at h
  split at h
  · cases h
  · rename_i i hStarts
    split at h
    · cases h
      have hMem : start ∈ (List.finRange g.size).filter fun i => g.kindOf i = .start := by
        refine (congrArg (start ∈ ·) hStarts).mpr ?_
        exact List.mem_singleton_self _
      simpa using (List.mem_filter.mp hMem).2
    · cases h
  · cases h

theorem mem_foldl_addEdge {n : Nat} {added edges : List (Edge n)} {e : Edge n}
    (h : e ∈ added.foldl addEdge edges) : e ∈ edges ∨ e ∈ added := by
  induction added generalizing edges with
  | nil => exact .inl h
  | cons f rest ih =>
    rcases ih h with hMem | hMem
    · unfold addEdge at hMem
      split at hMem
      · exact .inl hMem
      · rcases List.mem_append.mp hMem with hMem | hMem
        · exact .inl hMem
        · rw [List.mem_singleton.mp hMem]
          exact .inr List.mem_cons_self
    · exact .inr (List.mem_cons_of_mem f hMem)

/-- The edges that a step declares itself lead from it, and none of them catches errors. -/
theorem of_mem_ownEdges {steps : Array Step} {i : Fin steps.size} {e : Edge steps.size}
    (h : e ∈ ownEdges steps i) : e.source = i ∧ e.tag ≠ .errorCatch := by
  unfold ownEdges at h
  dsimp only at h
  split at h
  all_goals
    simp only [List.mem_append, Option.mem_toList, Option.bind_eq_some_iff, edgeTo,
      Option.map_eq_some_iff, List.not_mem_nil] at h
  · rcases h with ⟨_, _, _, _, rfl⟩ | ⟨_, _, _, _, rfl⟩ <;> exact ⟨rfl, nofun⟩
  · obtain ⟨_, _, _, _, rfl⟩ := h
    exact ⟨rfl, nofun⟩

/-- Only error handlers catch errors. -/
theorem target_kind_of_errorCatch {steps : Array Step} {e : Edge steps.size}
    (h : e ∈ declaredEdges steps) (hTag : e.tag = .errorCatch) :
    steps[e.target].kind = .errorHandler := by
  have hMem := (mem_foldl_addEdge h).resolve_left List.not_mem_nil
  rcases List.mem_append.mp hMem with hOwn | hDep
  · obtain ⟨i, _, hOwn⟩ := List.mem_flatMap.mp hOwn
    exact absurd hTag ((of_mem_ownEdges hOwn).2)
  · obtain ⟨i, _, hDep⟩ := List.mem_flatMap.mp hDep
    simp only [dependencyEdges, List.mem_filterMap, Option.map_eq_some_iff] at hDep
    obtain ⟨_, _, _, _, rfl⟩ := hDep
    by_contra hKind
    unfold dependencyTag at hTag
    split at hTag
    · contradiction
    · split at hTag <;> cases hTag

theorem mapM_ok {α β ε : Type} {f : α → Except ε β} {xs : List α} {ys : List β}
    (h : xs.mapM f = .ok ys) :
    (∀ x ∈ xs, ∃ y ∈ ys, f x = .ok y) ∧ ∀ y ∈ ys, ∃ x ∈ xs, f x = .ok y := by
  induction xs generalizing ys with
  | nil =>
    simp only [List.mapM_nil, pure, Except.pure, Except.ok.injEq] at h
    subst h
    simp
  | cons x xs ih =>
    rw [List.mapM_cons] at h
    cases hx : f x with
    | error e => simp [hx, bind, Except.bind] at h
    | ok y =>
      cases hxs : xs.mapM f with
      | error e => simp [hx, hxs, bind, Except.bind] at h
      | ok rest =>
        simp only [hx, hxs, bind, Except.bind, pure, Except.pure, Except.ok.injEq] at h
        subst h
        obtain ⟨hOut, hIn⟩ := ih hxs
        constructor
        · intro u hu
          rcases List.mem_cons.mp hu with rfl | hu
          · exact ⟨y, List.mem_cons_self, hx⟩
          · obtain ⟨z, hz, hf⟩ := hOut u hu
            exact ⟨z, List.mem_cons_of_mem y hz, hf⟩
        · intro z hz
          rcases List.mem_cons.mp hz with rfl | hz
          · exact ⟨x, List.mem_cons_self, hx⟩
          · obtain ⟨u, hu, hf⟩ := hIn z hz
            exact ⟨u, List.mem_cons_of_mem x hu, hf⟩

/-- The step with a number. -/
def stepAt (steps : Array Step) : Fin steps.size → Step
  | ⟨k, _⟩ => steps[k]

/-- What has been checked of the body of a loop. -/
structure CheckedBody (g : Graph) (loop : g.Index) (members : List g.Index) : Prop where
  first : ∃ i ∈ members, Edge.mk loop i .loopBody ∈ g.edges
  origin : ∀ i ∈ members, ∃ e ∈ g.edges, e.target = i ∧ (e.source = loop ∨ e.source ∈ members)
  kind : ∀ i ∈ members, g.kindOf i ≠ .start ∧ g.kindOf i ≠ .finish ∧ g.kindOf i ≠ .loop
  source : ∀ i ∈ members, ∀ e ∈ g.edges, e.target = i →
    e.source = loop ∧ e.tag = .loopBody ∨ e.source ∈ members
  target : ∀ i ∈ members, ∀ e ∈ g.edges, e.source = i → e.tag ≠ .errorCatch ∧ e.target ∈ members

theorem memberFault?_eq_none_iff {steps : Array Step} {edges : List (Edge steps.size)}
    {loop i : Fin steps.size} {members : List (Fin steps.size)} :
    memberFault? steps edges loop members i = none ↔
      ((stepAt steps i).kind ≠ .start ∧ (stepAt steps i).kind ≠ .finish ∧
        (stepAt steps i).kind ≠ .loop) ∧
      (∀ e ∈ edges, e.target = i → e.source = loop ∧ e.tag = .loopBody ∨ e.source ∈ members) ∧
      ∀ e ∈ edges, e.source = i → e.tag ≠ .errorCatch := by
  unfold memberFault?
  rw [show steps[i] = stepAt steps i from rfl]
  -- kind, sources and guards are checked in this order; each finds nothing or refutes its condition
  constructor
  · intro h
    split at h
    · cases h
    · cases h
    · cases h
    · rename_i hStart hFinish hLoop
      refine ⟨⟨hStart, hFinish, hLoop⟩, ?_⟩
      dsimp only at h
      split at h
      · cases h
      · rename_i hSources
        split at h
        · cases h
        · rename_i hTags
          constructor
          · rintro ⟨source, target, tag⟩ he rfl
            have hAllowed := List.find?_eq_none.mp hSources (source, tag) (Edge.mem_incoming.mpr he)
            simpa [Classical.or_iff_not_imp_left] using hAllowed
          · rintro ⟨source, target, tag⟩ he rfl hTag
            refine hTags (List.any_eq_true.mpr ⟨(target, tag), Edge.mem_outgoing.mpr he, ?_⟩)
            simpa using hTag
  · rintro ⟨⟨hStart, hFinish, hLoop⟩, hSources, hTags⟩
    split
    · exact absurd ‹_› hStart
    · exact absurd ‹_› hFinish
    · exact absurd ‹_› hLoop
    · dsimp only
      split
      · rename_i source tag hOutside
        have he := Edge.mem_incoming.mp (List.mem_of_find?_eq_some hOutside)
        have hRefused : ¬ (source = loop ∧ tag = .loopBody ∨ source ∈ members) := by
          simpa only [Bool.not_eq_true', decide_eq_false_iff_not] using List.find?_some hOutside
        exact absurd (hSources _ he rfl) hRefused
      · split
        · rename_i hGuarded
          obtain ⟨⟨target, tag⟩, hOut, hTag⟩ := List.any_eq_true.mp hGuarded
          exact absurd (of_decide_eq_true hTag) (hTags _ (Edge.mem_outgoing.mp hOut) rfl)
        · rfl

theorem leads_bodyNext_iff {steps : Array Step} {edges : List (Edge steps.size)}
    {i j : Fin steps.size} :
    Leads (bodyNext steps edges) i j ↔ ∃ tag, tag ≠ .errorCatch ∧ Edge.mk i j tag ∈ edges := by
  simp [Leads, bodyNext, Edge.mem_outgoing, and_comm]

theorem mem_bodyFrom_iff {steps : Array Step} {edges : List (Edge steps.size)}
    {first i : Fin steps.size} :
    i ∈ bodyFrom steps edges first ↔
      Relation.ReflTransGen (Leads (bodyNext steps edges)) first i := by
  rw [← mem_closure_iff]
  simp [bodyFrom, List.mem_finRange]

theorem loopBody_ok {g : Graph} {loop : g.Index} {members : List g.Index}
    (h : loopBody g.steps g.edges loop = .ok members) : CheckedBody g loop members := by
  unfold loopBody at h
  split at h
  · cases h
  · rename_i first tag hFirst
    have hEdge : Edge.mk loop first .loopBody ∈ g.edges := by
      have hTag : tag = .loopBody := by simpa using List.find?_some hFirst
      rw [← hTag]
      exact Edge.mem_outgoing.mp (List.mem_of_find?_eq_some hFirst)
    dsimp only at h
    split at h
    · cases h
    · rename_i hFaults
      cases h
      have hChecked : ∀ i ∈ bodyFrom g.steps g.edges first,
          memberFault? g.steps g.edges loop (bodyFrom g.steps g.edges first) i = none := by
        intro i hi
        simpa using List.findSome?_eq_none_iff.mp hFaults i hi
      refine ⟨⟨first, mem_bodyFrom_iff.mpr .refl, hEdge⟩, ?_, ?_, ?_, ?_⟩
      · intro i hi
        rcases Relation.ReflTransGen.cases_tail (mem_bodyFrom_iff.mp hi) with rfl | ⟨j, hj, hStep⟩
        · exact ⟨_, hEdge, rfl, .inl rfl⟩
        · obtain ⟨tag, _, he⟩ := leads_bodyNext_iff.mp hStep
          exact ⟨_, he, rfl, .inr (mem_bodyFrom_iff.mpr hj)⟩
      · intro i hi
        exact (memberFault?_eq_none_iff.mp (hChecked i hi)).1
      · intro i hi
        exact (memberFault?_eq_none_iff.mp (hChecked i hi)).2.1
      · rintro i hi ⟨source, target, tag⟩ he rfl
        have hTag := (memberFault?_eq_none_iff.mp (hChecked source hi)).2.2 _ he rfl
        have hNext := leads_bodyNext_iff.mpr ⟨tag, hTag, he⟩
        exact ⟨hTag, mem_bodyFrom_iff.mpr ((mem_bodyFrom_iff.mp hi).tail hNext)⟩

/-- Every loop has a body, and each body belongs to a loop. -/
theorem loopBodies_ok {g : Graph} {bodies : List (g.Index × List g.Index)}
    (h : loopBodies g.steps g.edges = .ok bodies) :
    (∀ loop, g.kindOf loop = .loop → ∃ members, (loop, members) ∈ bodies) ∧
    ∀ loop members, (loop, members) ∈ bodies →
      g.kindOf loop = .loop ∧ loopBody g.steps g.edges loop = .ok members := by
  obtain ⟨hOut, hIn⟩ := mapM_ok h
  have hMap {loop : g.Index} {b : g.Index × List g.Index}
      (hOk : (loopBody g.steps g.edges loop).map (loop, ·) = .ok b) :
      b.1 = loop ∧ loopBody g.steps g.edges loop = .ok b.2 := by
    cases hBody : loopBody g.steps g.edges loop with
    | error e => simp [hBody, Except.map] at hOk
    | ok members =>
      simp only [hBody, Except.map, Except.ok.injEq] at hOk
      subst hOk
      exact ⟨rfl, rfl⟩
  constructor
  · intro loop hKind
    obtain ⟨⟨loop', members⟩, hMem, hOk⟩ := hOut loop
      (List.mem_filter.mpr ⟨List.mem_finRange loop, decide_eq_true hKind⟩)
    obtain ⟨rfl, _⟩ := hMap hOk
    exact ⟨members, hMem⟩
  · intro loop members hMem
    obtain ⟨loop', hLoop', hOk⟩ := hIn _ hMem
    obtain ⟨rfl, hBody⟩ := hMap hOk
    exact ⟨of_decide_eq_true (List.mem_filter.mp hLoop').2, hBody⟩

/-- The body of a loop is the first one in the table of bodies. -/
theorem body_cases (g : Graph) (loop : g.Index) :
    (∃ b ∈ g.bodies, b.1 = loop ∧ g.body loop = b.2) ∨
      (∀ b ∈ g.bodies, b.1 ≠ loop) ∧ g.body loop = [] := by
  unfold body
  generalize hFind : List.find? _ _ = found
  cases found with
  | none =>
    have hNone := List.find?_eq_none.mp hFind
    exact .inr ⟨fun b hb hLoop => hNone b hb (decide_eq_true hLoop), rfl⟩
  | some b =>
    have hLoop : b.1 = loop := by simpa using List.find?_some hFind
    exact .inl ⟨b, List.mem_of_find?_eq_some hFind, hLoop, rfl⟩

/-- What a graph with checked bodies has in its table of bodies. -/
theorem checkedBody_of_mem_body {g : Graph} (h : loopBodies g.steps g.edges = .ok g.bodies)
    (loop : g.Index) :
    (∀ i ∈ g.body loop, g.kindOf loop = .loop) ∧
    (g.kindOf loop = .loop → CheckedBody g loop (g.body loop)) := by
  obtain ⟨hSome, hAll⟩ := loopBodies_ok h
  rcases g.body_cases loop with ⟨b, hb, rfl, hBody⟩ | ⟨hNone, hBody⟩
  · obtain ⟨hKind, hOk⟩ := hAll b.1 b.2 hb
    exact ⟨fun _ _ => hKind, fun _ => hBody ▸ loopBody_ok hOk⟩
  · refine ⟨by simp [hBody], ?_⟩
    intro hKind
    obtain ⟨members, hMem⟩ := hSome loop hKind
    exact absurd rfl (hNone _ hMem)

/-- The owner of a step is the loop whose body has it. -/
theorem owner?_of_loopBodies {g : Graph} (h : loopBodies g.steps g.edges = .ok g.bodies)
    (i loop : g.Index) :
    (g.owner? i = some loop → i ∈ g.body loop) ∧ (i ∈ g.body loop → (g.owner? i).isSome) := by
  obtain ⟨_, hAll⟩ := loopBodies_ok h
  constructor
  · intro hOwner
    obtain ⟨b, hFind, rfl⟩ := Option.map_eq_some_iff.mp hOwner
    have hMem := List.mem_of_find?_eq_some hFind
    have hIn : i ∈ b.2 := by simpa using List.find?_some hFind
    obtain ⟨hKind, hOk⟩ := hAll b.1 b.2 hMem
    rcases g.body_cases b.1 with ⟨b', hMem', hLoop, hBody⟩ | ⟨hNone, -⟩
    · have hOk' := (hAll b'.1 b'.2 hMem').2
      rw [hLoop, hOk] at hOk'
      rw [hBody, ← Except.ok.inj hOk']
      exact hIn
    · exact absurd rfl (hNone b hMem)
  · intro hi
    unfold owner?
    rw [Option.isSome_map, List.find?_isSome]
    rcases g.body_cases loop with ⟨b, hMem, -, hBody⟩ | ⟨-, hBody⟩
    · exact ⟨b, hMem, by simpa [hBody] using hi⟩
    · simp [hBody] at hi

/-- The checks of the compiler leave sound graphs. -/
theorem sound_of_assemble {steps : Array Step} {allowOrphans : Bool} {g : Graph}
    (h : assemble steps allowOrphans = .ok g) : g.Sound := by
  obtain ⟨start, bodies, hStart, hCycle, hBodies, hg⟩ := assemble_ok h
  have hTable : loopBodies g.steps g.edges = .ok g.bodies := by
    subst hg; exact hBodies
  have hBody := checkedBody_of_mem_body hTable
  have hOwner := owner?_of_loopBodies hTable
  subst hg
  have hReached {i : Fin steps.size} :
      i ∉ ((List.finRange steps.size).filter fun i =>
        i ∉ closure (Edge.targets (declaredEdges steps)) start) ↔
      Relation.ReflTransGen (Leads (Edge.targets (declaredEdges steps))) start i := by
    rw [← mem_closure_iff]
    simp [List.mem_finRange]
  obtain ⟨rank, hRank⟩ := exists_rank hCycle
  exact
    { entry_start := findEntry_kind hStart
      entry_reached := hReached.mpr .refl
      ranked := ⟨rank, fun e he => hRank _ _ (leads_successors_iff.mpr ⟨e.tag, he⟩)⟩
      catch_handler := fun e he hTag => target_kind_of_errorCatch he hTag
      origin := by
        intro i hi hEntry
        rcases Relation.ReflTransGen.cases_tail (hReached.mp hi) with hEq | ⟨j, hj, hStep⟩
        · exact absurd hEq hEntry
        · obtain ⟨tag, he⟩ := leads_targets_iff.mp hStep
          exact ⟨_, he, rfl, hReached.mpr hj⟩
      reached := fun e he hSource =>
        hReached.mpr ((hReached.mp hSource).tail (leads_targets_iff.mpr ⟨e.tag, he⟩))
      body_loop := fun loop => (hBody loop).1
      body_first := fun loop hKind => ((hBody loop).2 hKind).first
      body_kind := fun loop i hi => ((hBody loop).2 ((hBody loop).1 i hi)).kind i hi
      body_source := fun loop i hi => ((hBody loop).2 ((hBody loop).1 i hi)).source i hi
      body_target := fun loop i hi => ((hBody loop).2 ((hBody loop).1 i hi)).target i hi
      body_origin := fun loop i hi => ((hBody loop).2 ((hBody loop).1 i hi)).origin i hi
      owner_mem := fun i loop => (hOwner i loop).1
      owner_isSome := fun i loop => (hOwner i loop).2 }

/-- Every compiled graph is sound. -/
theorem sound_of_compile {allowOrphans : Bool} {steps : List Step} {g : Graph}
    (h : compile allowOrphans steps = .ok g) : g.Sound := by
  unfold compile at h
  split at h
  · cases h
  · split at h
    · cases h
    · exact sound_of_assemble h

end Workflow.Graph

/-
Workflow.Proofs.Graph.Search — the search through a graph finds what it
should.

* `mem_closure_iff` — the closure of a vertex holds what a path leads to.
* `exists_rank` — if the depth-first search meets no cycle, the vertices
  can be numbered so that every edge goes up.
-/
import Mathlib.Data.List.FinRange
import Mathlib.Data.Fintype.Card
import Mathlib.Logic.Relation
import Workflow.Graph.Search

namespace Workflow.Graph

variable {n : Nat} {next : Fin n → List (Fin n)}

/-! ## Reachability -/

/-- One vertex is a successor of the other. -/
abbrev Leads (next : Fin n → List (Fin n)) (u w : Fin n) : Prop := w ∈ next u

theorem mem_fresh {seen candidates : List (Fin n)} {u : Fin n} :
    u ∈ fresh seen candidates ↔ u ∈ candidates ∧ u ∉ seen := by
  induction candidates generalizing seen with
  | nil => simp [fresh]
  | cons v rest ih =>
    unfold fresh
    split
    · rename_i hSeen
      rw [ih, List.mem_cons]
      constructor
      · rintro ⟨hRest, hNot⟩
        exact ⟨.inr hRest, hNot⟩
      · rintro ⟨rfl | hRest, hNot⟩
        · exact absurd hSeen hNot
        · exact ⟨hRest, hNot⟩
    · rename_i hSeen
      rw [List.mem_cons, ih, List.mem_cons, List.mem_cons]
      by_cases hEq : u = v
      · subst hEq; simp [hSeen]
      · simp [hEq]

theorem nodup_fresh (seen candidates : List (Fin n)) : (fresh seen candidates).Nodup := by
  induction candidates generalizing seen with
  | nil => simp [fresh]
  | cons v rest ih =>
    unfold fresh
    split
    · exact ih seen
    · refine List.nodup_cons.mpr ⟨?_, ih _⟩
      intro hMem
      exact (mem_fresh.mp hMem).2 List.mem_cons_self

theorem nodup_append_fresh {seen : List (Fin n)} (h : seen.Nodup) (candidates : List (Fin n)) :
    (seen ++ fresh seen candidates).Nodup := by
  refine List.nodup_append.mpr ⟨h, nodup_fresh seen candidates, ?_⟩
  rintro u hSeen w hFresh rfl
  exact (mem_fresh.mp hFresh).2 hSeen

theorem subset_closureFrom (fuel : Nat) (seen queue : List (Fin n)) :
    seen ⊆ closureFrom next fuel seen queue := by
  induction fuel generalizing seen queue with
  | zero => exact List.Subset.refl seen
  | succ fuel ih =>
    cases queue with
    | nil => exact List.Subset.refl seen
    | cons v queue => exact List.Subset.trans (List.subset_append_left _ _) (ih _ _)

/-- Only what a path leads to is found. -/
theorem closureFrom_sound {start : Fin n} {fuel : Nat} {seen queue : List (Fin n)}
    (hQueue : queue ⊆ seen) (hSeen : ∀ u ∈ seen, Relation.ReflTransGen (Leads next) start u) :
    ∀ u ∈ closureFrom next fuel seen queue, Relation.ReflTransGen (Leads next) start u := by
  induction fuel generalizing seen queue with
  | zero => exact hSeen
  | succ fuel ih =>
    cases queue with
    | nil => exact hSeen
    | cons v queue =>
      refine ih ?_ ?_
      · intro u hu
        rcases List.mem_append.mp hu with hu | hu
        · exact List.mem_append_left _ (hQueue (List.mem_cons_of_mem v hu))
        · exact List.mem_append_right _ hu
      · intro u hu
        rcases List.mem_append.mp hu with hu | hu
        · exact hSeen u hu
        · exact (hSeen v (hQueue List.mem_cons_self)).tail (mem_fresh.mp hu).1

/-- With a turn for each vertex in the queue and each vertex not seen, the successors of all that is
found are found too. -/
theorem closureFrom_closed {fuel : Nat} {seen queue : List (Fin n)} (hNodup : seen.Nodup)
    (hFuel : queue.length + n ≤ fuel + seen.length)
    (hDone : ∀ u ∈ seen, u ∈ queue ∨ next u ⊆ seen) :
    ∀ u ∈ closureFrom next fuel seen queue, next u ⊆ closureFrom next fuel seen queue := by
  have hLength {l : List (Fin n)} (h : l.Nodup) : l.length ≤ n := by
    simpa using h.length_le_card
  induction fuel generalizing seen queue with
  | zero =>
    have hEmpty : queue = [] := by
      have := hLength hNodup
      exact List.eq_nil_of_length_eq_zero (by omega)
    subst hEmpty
    intro u hu
    exact (hDone u hu).resolve_left List.not_mem_nil
  | succ fuel ih =>
    cases queue with
    | nil =>
      intro u hu
      exact (hDone u hu).resolve_left List.not_mem_nil
    | cons v queue =>
      refine ih (nodup_append_fresh hNodup _) ?_ ?_
      · rw [List.length_cons] at hFuel
        rw [List.length_append, List.length_append]
        omega
      · intro u hu
        rcases List.mem_append.mp hu with hu | hu
        · rcases hDone u hu with hQueue | hSub
          · rcases List.mem_cons.mp hQueue with rfl | hQueue
            · right
              intro w hw
              by_cases hSeen : w ∈ seen
              · exact List.mem_append_left _ hSeen
              · exact List.mem_append_right _ (mem_fresh.mpr ⟨hw, hSeen⟩)
            · exact .inl (List.mem_append_left _ hQueue)
          · exact .inr fun w hw => List.mem_append_left _ (hSub hw)
        · exact .inl (List.mem_append_right _ hu)

theorem mem_closure_self (start : Fin n) : start ∈ closure next start :=
  subset_closureFrom _ _ _ List.mem_cons_self

theorem mem_closure_of_leads {start u w : Fin n} (hu : u ∈ closure next start)
    (hw : Leads next u w) : w ∈ closure next start := by
  refine closureFrom_closed (List.nodup_singleton start) ?_ ?_ u hu hw
  · simp only [List.length_singleton]; omega
  · intro v hv
    exact .inl hv

/-- The closure of a vertex holds what a path leads to. -/
theorem mem_closure_iff {start u : Fin n} :
    u ∈ closure next start ↔ Relation.ReflTransGen (Leads next) start u := by
  constructor
  · refine closureFrom_sound (List.Subset.refl _) ?_ u
    intro v hv
    rw [List.mem_singleton.mp hv]
  · intro h
    induction h with
    | refl => exact mem_closure_self start
    | tail _ hLeads ih => exact mem_closure_of_leads ih hLeads

/-! ## The depth-first search -/

/-- Each vertex of a list stands in front of its successors, and stands there once. -/
def Ordered (next : Fin n → List (Fin n)) : List (Fin n) → Prop
  | [] => True
  | v :: rest => v ∉ rest ∧ next v ⊆ rest ∧ Ordered next rest

theorem Ordered.next_subset {l : List (Fin n)} (h : Ordered next l) {u : Fin n} (hu : u ∈ l) :
    next u ⊆ l := by
  induction l with
  | nil => cases hu
  | cons v rest ih =>
    obtain ⟨_, hNext, hRest⟩ := h
    rcases List.mem_cons.mp hu with rfl | hu
    · exact List.Subset.trans hNext (List.subset_cons_self _ _)
    · exact List.Subset.trans (ih hRest hu) (List.subset_cons_self _ _)

theorem Ordered.idxOf_lt {l : List (Fin n)} (h : Ordered next l) {u w : Fin n} (hu : u ∈ l)
    (hw : Leads next u w) : l.idxOf u < l.idxOf w := by
  induction l with
  | nil => cases hu
  | cons v rest ih =>
    obtain ⟨hNot, hNext, hRest⟩ := h
    have hwRest : w ∈ rest := by
      rcases List.mem_cons.mp hu with rfl | hu
      · exact hNext hw
      · exact hRest.next_subset hu hw
    have hvw : v ≠ w := fun hEq => hNot (hEq ▸ hwRest)
    rw [List.idxOf_cons_ne _ hvw]
    by_cases hEq : v = u
    · subst hEq
      rw [List.idxOf_cons_self]
      exact Nat.succ_pos _
    · rw [List.idxOf_cons_ne _ hEq]
      exact Nat.succ_lt_succ (ih hRest ((List.mem_cons.mp hu).resolve_left (Ne.symm hEq)))

/-- What a visit does to the vertices already left: it keeps their order and leaves nothing that is
still on the path. -/
structure Visited (next : Fin n → List (Fin n)) (path left left' : List (Fin n)) : Prop where
  ordered : Ordered next left'
  subset : left ⊆ left'
  path_kept : ∀ u ∈ path, u ∈ left' → u ∈ left

theorem Visited.refl {path left : List (Fin n)} (h : Ordered next left) :
    Visited next path left left :=
  ⟨h, List.Subset.refl left, fun _ _ hu => hu⟩

theorem Visited.trans {path a b c : List (Fin n)} (h₁ : Visited next path a b)
    (h₂ : Visited next path b c) : Visited next path a c :=
  ⟨h₂.ordered, List.Subset.trans h₁.subset h₂.subset,
    fun u hPath hu => h₁.path_kept u hPath (h₂.path_kept u hPath hu)⟩

/-- Visits one after the other, if each of them does what a visit does. -/
theorem foldlM_visit {f : List (Fin n) → Fin n → Except (List (Fin n)) (List (Fin n))}
    (path : List (Fin n))
    (hVisit : ∀ left left' v, Ordered next left → f left v = .ok left' →
      Visited next path left left' ∧ v ∈ left')
    {vs left left' : List (Fin n)} (hLeft : Ordered next left)
    (hOk : vs.foldlM f left = .ok left') : Visited next path left left' ∧ vs ⊆ left' := by
  induction vs generalizing left with
  | nil =>
    simp only [List.foldlM_nil, pure, Except.pure, Except.ok.injEq] at hOk
    subst hOk
    exact ⟨.refl hLeft, List.nil_subset _⟩
  | cons v vs ih =>
    rw [List.foldlM_cons] at hOk
    cases hFirst : f left v with
    | error cycle => simp [hFirst, bind, Except.bind] at hOk
    | ok middle =>
      obtain ⟨hMiddle, hv⟩ := hVisit left middle v hLeft hFirst
      obtain ⟨hRest, hSub⟩ := ih hMiddle.ordered (by simpa [hFirst, bind, Except.bind] using hOk)
      exact ⟨hMiddle.trans hRest, List.cons_subset.mpr ⟨hRest.subset hv, hSub⟩⟩

/-- A path has each vertex at most once, so the fuel lasts. -/
theorem visit_ok {fuel : Nat} {path : List (Fin n)} (hFuel : fuel + path.length = n + 1)
    (hPath : path.Nodup) (left left' : List (Fin n)) (v : Fin n) (hLeft : Ordered next left)
    (hOk : visit next fuel path left v = .ok left') :
    Visited next path left left' ∧ v ∈ left' := by
  induction fuel generalizing path left left' v with
  | zero =>
    have hCard : path.length ≤ n := by simpa using hPath.length_le_card
    omega
  | succ fuel ih =>
    unfold visit at hOk
    split at hOk
    · cases hOk
    · rename_i hNotPath
      split at hOk
      · rename_i hIn
        cases hOk
        exact ⟨.refl hLeft, hIn⟩
      · rename_i hNotLeft
        split at hOk
        · cases hOk
        · rename_i after hFold
          cases hOk
          have hStep := foldlM_visit (v :: path)
            (fun l l' w => ih (by simp only [List.length_cons]; omega)
              (List.nodup_cons.mpr ⟨hNotPath, hPath⟩) l l' w) hLeft hFold
          obtain ⟨hAfter, hNext⟩ := hStep
          have hv : v ∉ after := fun hMem =>
            hNotLeft (hAfter.path_kept v List.mem_cons_self hMem)
          refine ⟨⟨⟨hv, hNext, hAfter.ordered⟩, ?_, ?_⟩, List.mem_cons_self⟩
          · exact List.Subset.trans hAfter.subset (List.subset_cons_self _ _)
          · intro u hu hMem
            rcases List.mem_cons.mp hMem with rfl | hMem
            · exact absurd hu hNotPath
            · exact hAfter.path_kept u (List.mem_cons_of_mem _ hu) hMem

/-- A search without a cycle leaves all vertices, each in front of its successors. -/
theorem depthFirst_ok {order : List (Fin n)} (h : depthFirst next = .ok order) :
    Ordered next order ∧ ∀ u, u ∈ order := by
  have hEmpty : Ordered next [] := trivial
  have hVisit := foldlM_visit [] (fun l l' w => visit_ok (by simp) List.nodup_nil l l' w) hEmpty h
  exact ⟨hVisit.1.ordered, fun u => hVisit.2 (List.mem_finRange u)⟩

/-- Without a cycle the vertices can be numbered so that every edge goes up. -/
theorem exists_rank (h : cycle? next = none) :
    ∃ rank : Fin n → Nat, ∀ u w, Leads next u w → rank u < rank w := by
  unfold cycle? at h
  cases hSearch : depthFirst next with
  | error cycle => simp [hSearch] at h
  | ok order =>
    obtain ⟨hOrdered, hAll⟩ := depthFirst_ok hSearch
    exact ⟨order.idxOf, fun u w hw => hOrdered.idxOf_lt (hAll u) hw⟩

end Workflow.Graph

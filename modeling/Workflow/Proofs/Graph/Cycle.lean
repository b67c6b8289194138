/-
Workflow.Proofs.Graph.Cycle — the cycles that the search reports.

While the depth-first search goes down, the vertices on its path are each a
successor of the one below. So the vertex that it meets again closes a
cycle, and the part of the path from there on is one. Where the search
reports none there is none, for the vertices can be numbered upwards.

* `IsCycle` — a way along successors that ends where it starts.
* `isCycle_of_cycle?` — what is reported is a cycle.
* `cycle?_eq_none_iff` — nothing is reported exactly when there is none.
-/
import Mathlib.Data.List.Chain
import Workflow.Proofs.Graph.Search

namespace Workflow.Graph

variable {n : Nat} {next : Fin n → List (Fin n)}

/-- A way along successors, of one step at least, that ends where it starts. -/
structure IsCycle (next : Fin n → List (Fin n)) (way : List (Fin n)) : Prop where
  chain : way.IsChain (Leads next)
  long : 2 ≤ way.length
  closed : way.head? = way.getLast?

/-- No vertex leads back to itself. -/
def Acyclic (next : Fin n → List (Fin n)) : Prop := ∀ v, ¬ Relation.TransGen (Leads next) v v

theorem IsCycle.not_acyclic {way : List (Fin n)} (h : IsCycle next way) : ¬ Acyclic next := by
  obtain ⟨hChain, hLong, hClosed⟩ := h
  match way, hLong with
  | u :: w :: rest, _ =>
    obtain ⟨hStep, hRest⟩ := List.isChain_cons_cons.mp hChain
    have hWay := List.relationReflTransGen_of_exists_isChain_cons rest hRest rfl
    have hLast : (w :: rest).getLast (List.cons_ne_nil _ _) = u := by
      simpa [List.getLast?_eq_some_getLast, eq_comm] using hClosed
    exact fun hAcyclic => hAcyclic u (Relation.TransGen.head' hStep (hLast ▸ hWay))

/-! ## What the search reports -/

/-- Going down the path, each vertex is a successor of the next one. -/
abbrev Downward (next : Fin n → List (Fin n)) (path : List (Fin n)) : Prop :=
  path.IsChain fun u w => Leads next w u

/-- A vertex that is met again closes a cycle. -/
theorem isCycle_of_mem_path {path : List (Fin n)} {v : Fin n} (hPath : Downward next (v :: path))
    (hMem : v ∈ path) : IsCycle next (v :: (path.takeWhile (· ≠ v)).reverse ++ [v]) := by
  obtain ⟨before, more, rfl, hNew⟩ := List.eq_append_cons_of_mem hMem
  have hBefore : (before ++ v :: more).takeWhile (· ≠ v) = before := by
    rw [List.takeWhile_append_of_pos fun u hu => by simpa using fun hEq : u = v => hNew (hEq ▸ hu)]
    simp
  rw [hBefore]
  refine ⟨?_, by simp, by rw [List.getLast?_concat]; rfl⟩
  have hRound : Downward next (v :: before ++ [v]) := by
    refine hPath.prefix ⟨more, ?_⟩
    simp
  have hBack : (v :: before ++ [v]).reverse = v :: before.reverse ++ [v] := by simp
  rw [← hBack]
  exact List.isChain_reverse.mpr hRound

/-- The vertex whose visit ends with a cycle. -/
theorem exists_of_foldlM_error {α β ε : Type} {f : β → α → Except ε β} {vs : List α} {start : β}
    {e : ε} (h : vs.foldlM f start = .error e) : ∃ v ∈ vs, ∃ state, f state v = .error e := by
  induction vs generalizing start with
  | nil => cases h
  | cons v vs ih =>
    rw [List.foldlM_cons] at h
    cases hFirst : f start v with
    | error e' =>
      simp only [hFirst, bind, Except.bind, Except.error.injEq] at h
      exact ⟨v, List.mem_cons_self, start, h ▸ hFirst⟩
    | ok state =>
      obtain ⟨w, hw, hError⟩ := ih (by simpa [hFirst, bind, Except.bind] using h)
      exact ⟨w, List.mem_cons_of_mem v hw, hError⟩

/-- The induction is on the fuel; the path stays downward because a visit goes on to successors. -/
theorem isCycle_of_visit {fuel : Nat} {path left cycle : List (Fin n)} {v : Fin n}
    (hPath : Downward next (v :: path)) (h : visit next fuel path left v = .error cycle) :
    IsCycle next cycle := by
  induction fuel generalizing path left v with
  | zero => cases h
  | succ fuel ih =>
    unfold visit at h
    split at h
    · rename_i hMem
      cases h
      exact isCycle_of_mem_path hPath hMem
    · split at h
      · cases h
      · split at h
        · rename_i found hFold
          cases h
          obtain ⟨w, hw, before, hVisit⟩ := exists_of_foldlM_error hFold
          exact ih (List.isChain_cons_cons.mpr ⟨hw, hPath⟩) hVisit
        · cases h

/-- What the search reports is a cycle. -/
theorem isCycle_of_cycle? {cycle : List (Fin n)} (h : cycle? next = some cycle) :
    IsCycle next cycle := by
  unfold cycle? at h
  cases hSearch : depthFirst next with
  | ok order => simp [hSearch] at h
  | error found =>
    obtain rfl : found = cycle := by simpa [hSearch] using h
    obtain ⟨v, -, before, hVisit⟩ := exists_of_foldlM_error hSearch
    exact isCycle_of_visit (List.isChain_singleton v) hVisit

/-- Where every edge goes up in some numbering, no vertex leads back to itself. -/
theorem acyclic_of_rank {rank : Fin n → Nat} (h : ∀ u w, Leads next u w → rank u < rank w) :
    Acyclic next := by
  have hUp {u w : Fin n} (hWay : Relation.TransGen (Leads next) u w) : rank u < rank w := by
    induction hWay with
    | single hStep => exact h _ _ hStep
    | tail _ hStep ih => exact Nat.lt_trans ih (h _ _ hStep)
  exact fun v hRound => Nat.lt_irrefl _ (hUp hRound)

/-- The search reports nothing exactly when no vertex leads back to itself. -/
theorem cycle?_eq_none_iff : cycle? next = none ↔ Acyclic next := by
  constructor
  · intro h
    obtain ⟨rank, hRank⟩ := exists_rank h
    exact acyclic_of_rank hRank
  · intro hAcyclic
    cases h : cycle? next with
    | none => rfl
    | some cycle => exact absurd hAcyclic (isCycle_of_cycle? h).not_acyclic

end Workflow.Graph

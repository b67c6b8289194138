/-
Workflow.Proofs.Text.Pieces — a text between the matches of a separator.

The matches are found from the left: a piece goes up to the first place where
the separator stands, also where the matches of the separator overlap each
other, and the next piece begins behind the whole match. So the separator is
in no piece, and between the pieces it gives the text back.

* `Cut` — the pieces of a text between the matches of a separator.
* `cut_splitOn` — the pieces are those that are cut at the matches.
* `Cut.intercalate` — the text from its pieces.
* `Cut.not_infix` — no piece has the separator in it.
-/
import Mathlib.Data.List.Infix
import Workflow.Text.Search

namespace Workflow.Text

variable {sep pre cs piece rest : List Char}

/-! ## Matches -/

theorem afterPrefix?_append (pre rest : List Char) :
    afterPrefix? pre (pre ++ rest) = some rest := by
  induction pre with
  | nil => rfl
  | cons p ps ih => rw [List.cons_append, afterPrefix?, if_pos rfl, ih]

theorem afterPrefix?_eq_none_iff : afterPrefix? pre cs = none ↔ ¬ pre <+: cs := by
  refine ⟨?_, fun h => ?_⟩
  · rintro hNone ⟨rest, rfl⟩
    rw [afterPrefix?_append] at hNone
    cases hNone
  · cases hAfter : afterPrefix? pre cs with
    | none => rfl
    | some rest => exact absurd ⟨rest, (eq_append_of_afterPrefix? hAfter).symm⟩ h

/-- The separator stands at one of the first places of a text. -/
def MatchesWithin (sep cs : List Char) (places : Nat) : Prop := ∃ k < places, sep <+: cs.drop k

theorem not_matchesWithin_zero (sep cs : List Char) : ¬ MatchesWithin sep cs 0 := by
  rintro ⟨k, hNone, -⟩
  exact Nat.not_lt_zero k hNone

theorem matchesWithin_append (hSep : sep ≠ []) (h : sep <:+: piece) (rest : List Char) :
    MatchesWithin sep (piece ++ rest) piece.length := by
  obtain ⟨front, back, rfl⟩ := h
  refine ⟨front.length, ?_, back ++ rest, ?_⟩
  · have := List.length_pos_iff.mpr hSep
    simp only [List.length_append]
    omega
  · simp only [List.append_assoc, List.drop_left]

/-! ## Pieces -/

/-- The pieces of a text: where the separator does not occur, the whole text; where it does, what
stands in front of its first match, and the pieces of what stands behind. -/
inductive Cut (sep : List Char) : List Char → List (List Char) → Prop where
  | whole {cs : List Char} (h : ¬ sep <:+: cs) : Cut sep cs [cs]
  | atMatch {piece rest : List Char} {pieces : List (List Char)}
      (h : ¬ MatchesWithin sep (piece ++ (sep ++ rest)) piece.length)
      (hRest : Cut sep rest pieces) : Cut sep (piece ++ (sep ++ rest)) (piece :: pieces)

/-- The search for the next match. Its invariant: the separator has stood at no place of the
current piece, not even one that reaches beyond it. -/
theorem cut_piecesFrom {s : Char} {more : List Char}
    (h : ¬ MatchesWithin (s :: more) (piece.reverse ++ cs) piece.length) :
    Cut (s :: more) (piece.reverse ++ cs) (piecesFrom s more piece cs) := by
  fun_induction piecesFrom s more piece cs with
  | case1 piece =>
    rw [List.append_nil]
    refine .whole fun hInfix => h ?_
    have hWithin := matchesWithin_append (by simp) hInfix []
    rwa [List.length_reverse] at hWithin
  | case2 piece c rest after hAfter ih =>
    rw [eq_append_of_afterPrefix? hAfter] at h ⊢
    rw [← List.length_reverse] at h
    exact .atMatch h (ih (not_matchesWithin_zero _ _))
  | case3 piece c rest hAfter ih =>
    have hText : (c :: piece).reverse ++ rest = piece.reverse ++ c :: rest := by simp
    rw [hText] at ih
    refine ih fun ⟨k, hPlace, hMatch⟩ => ?_
    -- The piece has one more place: the one where the search has just failed.
    rcases Nat.lt_succ_iff_lt_or_eq.mp hPlace with hOld | rfl
    · exact h ⟨k, hOld, hMatch⟩
    · rw [← List.length_reverse, List.drop_left] at hMatch
      exact afterPrefix?_eq_none_iff.mp hAfter hMatch

/-- A separator that is not empty cuts a text at its matches. -/
theorem cut_splitOn (hSep : sep ≠ []) (cs : List Char) : Cut sep cs (splitOn sep cs) := by
  cases sep with
  | nil => exact absurd rfl hSep
  | cons s more =>
    change Cut (s :: more) ([].reverse ++ cs) (piecesFrom s more [] cs)
    exact cut_piecesFrom (not_matchesWithin_zero _ _)

theorem Cut.ne_nil {pieces : List (List Char)} (h : Cut sep cs pieces) : pieces ≠ [] := by
  cases h <;> exact List.cons_ne_nil _ _

/-- The pieces with the separator between them are the text. -/
theorem Cut.intercalate {pieces : List (List Char)} (h : Cut sep cs pieces) :
    sep.intercalate pieces = cs := by
  induction h with
  | whole => exact List.intercalate_singleton
  | atMatch h hRest ih =>
    rw [List.intercalate_cons_of_ne_nil hRest.ne_nil, ih, List.append_assoc]

/-- No piece has the separator in it. -/
theorem Cut.not_infix {pieces : List (List Char)} (hSep : sep ≠ []) (h : Cut sep cs pieces) :
    ∀ piece ∈ pieces, ¬ sep <:+: piece := by
  induction h with
  | whole h => exact List.forall_mem_singleton.mpr h
  | atMatch h hRest ih =>
    exact List.forall_mem_cons.mpr ⟨mt (matchesWithin_append hSep · _) h, ih⟩

/-- The pieces of a text give it back, also those between all its characters. -/
theorem intercalate_splitOn (sep cs : List Char) : sep.intercalate (splitOn sep cs) = cs := by
  by_cases hSep : sep = []
  · subst hSep
    rw [splitOn]
    induction cs with
    | nil => rfl
    | cons c cs ih => cases cs <;> simp_all
  · exact (cut_splitOn hSep cs).intercalate

end Workflow.Text

/-
Workflow.Proofs.Expr.Methods — methods that undo each other.

A text that is split at a separator is an array of texts, and joining that
array with the same separator gives the text back, whether the separator
occurs in it or not and also where it is empty.

* `callMethod_split`, `callMethod_join` — what the two methods answer.
* `join_split` — the one behind the other.
-/
import Workflow.Expr.Function
import Workflow.Proofs.Text.Pieces

namespace Workflow.Expr

/-- The pieces of a text at a separator. -/
def piecesOf (s sep : String) : List String :=
  (Text.splitOn sep.toList s.toList).map String.ofList

theorem callMethod_split (s sep : String) :
    callMethod (.str s) "split" [.str sep] = .ok (.arr ((piecesOf s sep).map .str)) := by
  have hPieces : (piecesOf s sep).map Json.str =
      (Text.splitOn sep.toList s.toList).map fun piece => .str (String.ofList piece) := by
    rw [piecesOf, List.map_map]
    rfl
  rw [hPieces]
  rfl

theorem callMethod_join (parts : List String) (sep : String) :
    callMethod (.arr (parts.map .str)) "join" [.str sep] = .ok (.str (sep.intercalate parts)) := by
  have hTexts : (parts.map Json.str).map textOf = parts := by
    rw [List.map_map]
    exact List.map_id parts
  calc callMethod (.arr (parts.map .str)) "join" [.str sep]
      = .ok (.str (sep.intercalate ((parts.map Json.str).map textOf))) := rfl
    _ = .ok (.str (sep.intercalate parts)) := by rw [hTexts]

theorem toList_piecesOf (s sep : String) :
    (piecesOf s sep).map String.toList = Text.splitOn sep.toList s.toList := by
  rw [piecesOf, List.map_map]
  simp [Function.comp_def]

/-- Splitting a text at a separator and joining the parts with it gives the text back. Unless the
separator is empty, it is in none of the parts. -/
theorem join_split (s sep : String) :
    ∃ parts : List String,
      callMethod (.str s) "split" [.str sep] = .ok (.arr (parts.map .str)) ∧
      callMethod (.arr (parts.map .str)) "join" [.str sep] = .ok (.str s) ∧
      (sep ≠ "" → ∀ part ∈ parts, ¬ sep.toList <:+: part.toList) := by
  refine ⟨piecesOf s sep, callMethod_split s sep, ?_, fun hSep part hPart => ?_⟩
  · have hText : sep.intercalate (piecesOf s sep) = s := String.toList_inj.mp <| by
      rw [String.toList_intercalate, toList_piecesOf, Text.intercalate_splitOn]
    rw [callMethod_join, hText]
  · have hCut := Text.cut_splitOn (mt String.toList_eq_nil_iff.mp hSep) s.toList
    refine hCut.not_infix (mt String.toList_eq_nil_iff.mp hSep) part.toList ?_
    rw [← toList_piecesOf]
    exact List.mem_map_of_mem hPart

/-- The matches are taken from the left: `aa` at its first place in `aaa`. -/
example : piecesOf "aaabaa" "aa" = ["", "ab", ""] := by decide +kernel

/-- Between the characters of the empty text there is nothing. -/
example : piecesOf "" "" = [] := by decide

end Workflow.Expr

/-
Workflow.Proofs.Text.Order — putting texts in order.

`inOrder` is a linear order, so the texts of a list have one order, which
does not depend on how the list has them.

* `pairwise_sorted` — the result is in order.
* `sorted_eq_of_perm` — the same texts give the same result.
-/
import Workflow.Text.Order

namespace Workflow.Text

theorem inOrder_iff {a b : String} : inOrder a b = true ↔ a ≤ b := by
  rw [inOrder, Bool.not_eq_true', decide_eq_false_iff_not, String.not_lt]

theorem inOrder_total (a b : String) : (inOrder a b || inOrder b a) = true := by
  simpa only [Bool.or_eq_true, inOrder_iff] using String.le_total a b

theorem inOrder_trans (a b c : String) (hab : inOrder a b = true) (hbc : inOrder b c = true) :
    inOrder a c = true :=
  inOrder_iff.mpr (String.le_trans (inOrder_iff.mp hab) (inOrder_iff.mp hbc))

theorem pairwise_sorted (texts : List String) : (sorted texts).Pairwise (· ≤ ·) :=
  (List.pairwise_mergeSort inOrder_trans inOrder_total texts).imp inOrder_iff.mp

theorem sorted_perm (texts : List String) : (sorted texts).Perm texts :=
  List.mergeSort_perm texts inOrder

/-- The order of the result does not depend on the order of the texts. -/
theorem sorted_eq_of_perm {texts texts' : List String} (h : texts.Perm texts') :
    sorted texts = sorted texts' :=
  ((sorted_perm texts).trans (h.trans (sorted_perm texts').symm)).eq_of_pairwise
    (fun _ _ _ _ => String.le_antisymm) (pairwise_sorted texts) (pairwise_sorted texts')

end Workflow.Text

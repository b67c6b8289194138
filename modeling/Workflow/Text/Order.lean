/-
Workflow.Text.Order — texts in order.

Texts are ordered by their code points, which is also the order of their
bytes.

* `inOrder` — whether one text comes before another or is the same.
* `sorted` — a list of texts in order.
-/

namespace Workflow.Text

/-- Whether one text comes before another or is the same. -/
def inOrder (a b : String) : Bool := !(b < a)

/-- A list of texts in order. -/
def sorted (texts : List String) : List String := texts.mergeSort inOrder

end Workflow.Text

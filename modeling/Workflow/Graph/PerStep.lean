/-
Workflow.Graph.PerStep — something for each step of a graph.

* `PerStep` — the values, in the order of the steps.
* `fill`, `tabulate`, `get`, `update` — its operations. `get_update` says
  that an update changes the value of one step and nothing else.
-/

namespace Workflow

/-- A value for each of so many steps. -/
structure PerStep (count : Nat) (α : Type) where
  items : Vector α count
deriving DecidableEq, Repr

namespace PerStep

variable {count : Nat} {α : Type}

/-- The same value for all steps. -/
def fill (count : Nat) (value : α) : PerStep count α := ⟨Vector.replicate count value⟩

/-- For each step the value that a function gives. -/
def tabulate (f : Fin count → α) : PerStep count α := ⟨Vector.ofFn f⟩

/-- The value of a step. -/
def get (t : PerStep count α) (i : Fin count) : α := t.items[i]

/-- Change the value of a step. -/
def update (t : PerStep count α) (i : Fin count) (f : α → α) : PerStep count α :=
  ⟨t.items.set i (f (t.get i))⟩

@[simp] theorem get_fill (value : α) (i : Fin count) : (fill count value).get i = value := by
  simp [fill, get]

@[simp] theorem get_tabulate (f : Fin count → α) (i : Fin count) :
    (tabulate f).get i = f i := by
  simp [tabulate, get]

/-- An update changes the value of one step. -/
@[grind =] theorem get_update (t : PerStep count α) (i j : Fin count) (f : α → α) :
    (t.update i f).get j = if i = j then f (t.get i) else t.get j := by
  simp [update, get, Vector.getElem_set, Fin.ext_iff]

end PerStep

end Workflow

/-
Workflow.Graph.Search — reachability, cycles and topological order.

A finite graph is given by the successors of each of its vertices, in the
order in which they are to be visited.

* `closure` — the vertices reachable from one.
* `depthFirst` — a search through all vertices, which ends with a cycle or
  with the vertices in the reverse of the order in which they were left.
* `cycle?`, `topologicalOrder` — the two ends of it.
-/

namespace Workflow.Graph

variable {n : Nat}

/-- Whether a vertex is neither in a list nor earlier among the candidates: the candidates that are
new. -/
def fresh (seen : List (Fin n)) : List (Fin n) → List (Fin n)
  | [] => []
  | v :: rest => if v ∈ seen then fresh seen rest else v :: fresh (v :: seen) rest

/-- Add what is reachable from a queue to the vertices seen; the queue holds those whose successors
have not been looked at. -/
def closureFrom (next : Fin n → List (Fin n)) : Nat → List (Fin n) → List (Fin n) → List (Fin n)
  | 0, seen, _ => seen
  | _ + 1, seen, [] => seen
  | fuel + 1, seen, v :: queue =>
    let found := fresh seen (next v)
    closureFrom next fuel (seen ++ found) (queue ++ found)

/-- The vertices reachable from one, itself included. Each enters the queue once. -/
def closure (next : Fin n → List (Fin n)) (start : Fin n) : List (Fin n) :=
  closureFrom next (n + 1) [start] [start]

/-- Visit a vertex and, before leaving it, everything behind it. `path` leads to the vertex, the
nearest first; `left` holds the vertices already left, the last one first. A vertex on the path
closes a cycle, which is given from that vertex back to itself. -/
def visit (next : Fin n → List (Fin n)) :
    Nat → List (Fin n) → List (Fin n) → Fin n → Except (List (Fin n)) (List (Fin n))
  | 0, _, left, _ => .ok left
  | fuel + 1, path, left, v =>
    if v ∈ path then .error (v :: (path.takeWhile (· ≠ v)).reverse ++ [v])
    else if v ∈ left then .ok left
    else
      match (next v).foldlM (visit next fuel (v :: path)) left with
      | .error cycle => .error cycle
      | .ok left => .ok (v :: left)

/-- Visit all vertices. A path has each vertex at most once, so none is longer than `n`. -/
def depthFirst (next : Fin n → List (Fin n)) : Except (List (Fin n)) (List (Fin n)) :=
  (List.finRange n).foldlM (visit next (n + 1) []) []

/-- The first cycle that the search meets. -/
def cycle? (next : Fin n → List (Fin n)) : Option (List (Fin n)) :=
  match depthFirst next with
  | .error cycle => some cycle
  | .ok _ => none

/-- All vertices, each in front of its successors; nothing if there is a cycle. -/
def topologicalOrder (next : Fin n → List (Fin n)) : List (Fin n) :=
  match depthFirst next with
  | .error _ => []
  | .ok order => order

end Workflow.Graph

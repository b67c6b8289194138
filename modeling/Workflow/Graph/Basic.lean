/-
Workflow.Graph.Basic — step graphs.

A graph has the steps of a workflow as its vertices and one tagged edge for
each pair of steps that a definition relates. Steps are numbered in the
order of their definitions.

* `EdgeTag`, `Edge` — what an edge stands for.
* `Graph` — a compiled graph, with the steps that nothing leads to and the
  bodies of loops.
* `Graph.incoming`, `Graph.outgoing` — the edges of a step, by the other
  step.
* `Graph.executionOrder` — an order in which every edge points forward.
-/
import Workflow.Definition.Step
import Workflow.Graph.PerStep
import Workflow.Graph.Search
import Workflow.Text.Order

namespace Workflow

/-- What an edge stands for. -/
inductive EdgeTag where
  | dependency
  | branchTrue
  | branchFalse
  | loopBody
  | loopExit
  | errorCatch
deriving DecidableEq, Repr

/-- The name of a tag. -/
def EdgeTag.name : EdgeTag → String
  | .dependency => "dependency"
  | .branchTrue => "branch-true"
  | .branchFalse => "branch-false"
  | .loopBody => "loop-body"
  | .loopExit => "loop-exit"
  | .errorCatch => "error-catch"

/-- An edge between two of `n` steps. -/
structure Edge (n : Nat) where
  source : Fin n
  target : Fin n
  tag : EdgeTag
deriving DecidableEq, Repr

namespace Edge

variable {n : Nat}

/-- Steps with tags, in the order of the steps. -/
def inStepOrder (tagged : List (Fin n × EdgeTag)) : List (Fin n × EdgeTag) :=
  (List.finRange n).flatMap fun i => tagged.filter fun t => t.1 = i

/-- The edges into a step as source and tag, in the order of the sources. -/
def incoming (edges : List (Edge n)) (i : Fin n) : List (Fin n × EdgeTag) :=
  inStepOrder ((edges.filter fun e => e.target = i).map fun e => (e.source, e.tag))

/-- The edges out of a step as target and tag, in the order of the targets. -/
def outgoing (edges : List (Edge n)) (i : Fin n) : List (Fin n × EdgeTag) :=
  inStepOrder ((edges.filter fun e => e.source = i).map fun e => (e.target, e.tag))

/-- The targets of the edges out of a step, in the order in which the edges were declared. -/
def targets (edges : List (Edge n)) (i : Fin n) : List (Fin n) :=
  (edges.filter fun e => e.source = i).map Edge.target

/-- The targets of the edges out of a step, in the order of the steps. -/
def successors (edges : List (Edge n)) (i : Fin n) : List (Fin n) :=
  (outgoing edges i).map (·.1)

/-- Putting steps in order keeps them all. -/
theorem mem_inStepOrder {tagged : List (Fin n × EdgeTag)} {t : Fin n × EdgeTag} :
    t ∈ inStepOrder tagged ↔ t ∈ tagged := by
  simp [inStepOrder, List.mem_finRange]

/-- What leads into a step is what the edges say. -/
theorem mem_incoming {edges : List (Edge n)} {source target : Fin n} {tag : EdgeTag} :
    (source, tag) ∈ incoming edges target ↔ Edge.mk source target tag ∈ edges := by
  simp only [incoming, mem_inStepOrder, List.mem_map, List.mem_filter, decide_eq_true_eq,
    Prod.mk.injEq]
  constructor
  · rintro ⟨⟨_, _, _⟩, ⟨hMem, rfl⟩, rfl, rfl⟩
    exact hMem
  · intro hMem
    exact ⟨_, ⟨hMem, rfl⟩, rfl, rfl⟩

/-- What leads out of a step is what the edges say. -/
theorem mem_outgoing {edges : List (Edge n)} {source target : Fin n} {tag : EdgeTag} :
    (target, tag) ∈ outgoing edges source ↔ Edge.mk source target tag ∈ edges := by
  simp only [outgoing, mem_inStepOrder, List.mem_map, List.mem_filter, decide_eq_true_eq,
    Prod.mk.injEq]
  constructor
  · rintro ⟨⟨_, _, _⟩, ⟨hMem, rfl⟩, rfl, rfl⟩
    exact hMem
  · intro hMem
    exact ⟨_, ⟨hMem, rfl⟩, rfl, rfl⟩

end Edge

/-- A compiled graph. -/
structure Graph where
  steps : Array Step
  edges : List (Edge steps.size)
  /-- The step that a run starts with. -/
  entry : Fin steps.size
  /-- The steps that nothing leads to from the entry. -/
  orphans : List (Fin steps.size)
  /-- The loops with the steps of their bodies, in order. -/
  bodies : List (Fin steps.size × List (Fin steps.size))
  /-- The edges into each step and out of each step, ready for use. -/
  into : PerStep steps.size (List (Fin steps.size × EdgeTag)) :=
    PerStep.tabulate (Edge.incoming edges)
  outOf : PerStep steps.size (List (Fin steps.size × EdgeTag)) :=
    PerStep.tabulate (Edge.outgoing edges)
  into_eq : into = PerStep.tabulate (Edge.incoming edges) := by rfl
  outOf_eq : outOf = PerStep.tabulate (Edge.outgoing edges) := by rfl

namespace Graph

/-- The number of steps. -/
abbrev size (g : Graph) : Nat := g.steps.size

/-- The number of a step. -/
abbrev Index (g : Graph) : Type := Fin g.steps.size

/-- All steps in order. -/
def indices (g : Graph) : List g.Index := List.finRange g.size

/-- The definition of a step. -/
def step (g : Graph) (i : g.Index) : Step := g.steps[i]

/-- The id of a step. -/
def idOf (g : Graph) (i : g.Index) : String := (g.step i).id

/-- The kind of a step. -/
def kindOf (g : Graph) (i : g.Index) : StepKind := (g.step i).kind

/-- The step with an id. -/
def index? (g : Graph) (id : String) : Option g.Index := g.indices.find? fun i => g.idOf i = id

/-- The edges into a step as source and tag, in the order of the sources. -/
def incoming (g : Graph) (i : g.Index) : List (g.Index × EdgeTag) := g.into.get i

/-- The edges out of a step as target and tag, in the order of the targets. -/
def outgoing (g : Graph) (i : g.Index) : List (g.Index × EdgeTag) := g.outOf.get i

theorem incoming_eq (g : Graph) (i : g.Index) : g.incoming i = Edge.incoming g.edges i := by
  simp [incoming, g.into_eq]

theorem outgoing_eq (g : Graph) (i : g.Index) : g.outgoing i = Edge.outgoing g.edges i := by
  simp [outgoing, g.outOf_eq]

/-- The steps that an error handler guards. -/
def guarded (g : Graph) (handler : g.Index) : List g.Index :=
  ((g.incoming handler).filter fun (_, tag) => tag = .errorCatch).map (·.1)

/-- The error handlers that guard a step, in the order of their definitions. -/
def handlersOf (g : Graph) (i : g.Index) : List g.Index :=
  ((g.outgoing i).filter fun (_, tag) => tag = .errorCatch).map (·.1)

/-- Whether nothing leads to a step. -/
def isOrphan (g : Graph) (i : g.Index) : Bool := g.orphans.contains i

/-- The steps in the body of a loop, in order. -/
def body (g : Graph) (loop : g.Index) : List g.Index :=
  ((g.bodies.find? fun (l, _) => l = loop).map (·.2)).getD []

/-- The loop that has a step in its body. -/
def owner? (g : Graph) (i : g.Index) : Option g.Index :=
  (g.bodies.find? fun (_, members) => i ∈ members).map (·.1)

/-- All edges by ids, sorted. -/
def edgeList (g : Graph) : List (String × String × EdgeTag) :=
  (g.edges.map fun e => (g.idOf e.source, g.idOf e.target, e.tag)).mergeSort fun a b =>
    a.1 < b.1 || (a.1 = b.1 && Text.inOrder a.2.1 b.2.1)

/-- The ids of the steps that each step leads to, sorted. -/
def adjacency (g : Graph) : List (String × List String) :=
  g.indices.map fun i =>
    (g.idOf i, Text.sorted ((g.outgoing i).map fun (j, _) => g.idOf j))

/-- The ids of the steps that lead to each step, sorted. -/
def reverseAdjacency (g : Graph) : List (String × List String) :=
  g.indices.map fun i =>
    (g.idOf i, Text.sorted ((g.incoming i).map fun (j, _) => g.idOf j))

/-- The steps in an order in which every edge points forward. -/
def executionOrder (g : Graph) : List g.Index := topologicalOrder (Edge.targets g.edges)

end Graph

end Workflow

/-
Workflow.Run.Scheduler.Frontier — which pending steps may start.

A step waits until every edge into it is decided. It becomes ready if one
of them is live, and is skipped if all are dead. An error handler waits for
a failure instead, and is skipped once the steps it guards are through.

* `EdgeState`, `Scheduler.edgeState` — how an edge stands.
* `Scheduler.promotion?` — what becomes of a pending step.
* `Scheduler.refreshFrontier` — promote until nothing changes.
-/
import Workflow.Run.Scheduler.Basic

namespace Workflow

/-- How an edge stands. -/
inductive EdgeState where
  | undecided
  | live
  | dead
deriving DecidableEq, Repr

namespace Scheduler

variable {g : Graph}

/-- How an edge with a source and a tag stands. -/
def edgeState (s : Scheduler g) (source : g.Index) (tag : EdgeTag) : EdgeState :=
  let chosen (b : Bool) := if (s.controlOf source).branch = some b then .live else .dead
  match s.statusOf source, tag with
  | .skipped, _ => .dead
  | .running, .loopBody => if (s.controlOf source).frame.isSome then .live else .undecided
  | .completed, .loopBody => .dead
  | .completed, .branchTrue => chosen true
  | .completed, .branchFalse => chosen false
  | .completed, _ => .live
  | _, _ => .undecided

/-- What becomes of a pending step. -/
inductive Promotion where
  | start
  | skip
deriving DecidableEq, Repr

/-- What becomes of a pending error handler that has nothing to deal with. -/
def handlerPromotion? (s : Scheduler g) (i : g.Index) : Option Promotion :=
  if (g.guarded i).all fun j => (s.statusOf j).isSettled then some .skip else none

/-- What the edges into a pending step decide. -/
def edgePromotion? (s : Scheduler g) (i : g.Index) : Option Promotion :=
  let states := (g.incoming i).map fun (source, tag) => s.edgeState source tag
  if states.isEmpty || states.contains .undecided then none
  else if states.contains .live then some .start
  else some .skip

/-- What becomes of a step, if it is pending and decided. The entry waits for nobody, and a step
that waits for a retry has been decided before. -/
def promotion? (s : Scheduler g) (i : g.Index) : Option Promotion :=
  if s.statusOf i ≠ .pending || (s.controlOf i).waiting || i = g.entry then none
  else if g.kindOf i = .errorHandler then s.handlerPromotion? i
  else s.edgePromotion? i

/-- Promote a step, if it is pending and decided. -/
def promote (s : Scheduler g) (i : g.Index) : Scheduler g :=
  match s.promotion? i with
  | some .start => s.setStatus i .ready
  | some .skip => s.skip i
  | none => s

/-- The number of pending steps. -/
def pendingCount (s : Scheduler g) : Nat :=
  g.indices.countP fun i => s.statusOf i = .pending

/-- Promote all steps in order, over and over until nothing changes. Each promotion leaves one
pending step less. -/
def refreshFrontier (s : Scheduler g) : Scheduler g :=
  let next := g.indices.foldl promote s
  if next.pendingCount < s.pendingCount then next.refreshFrontier else next
termination_by s.pendingCount

end Scheduler

end Workflow

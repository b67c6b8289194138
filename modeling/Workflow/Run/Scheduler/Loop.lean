/-
Workflow.Run.Scheduler.Loop — rounds of loops.

A loop runs the steps of its body once for each item. A round is through
when every step of the body is completed or skipped; then the next one
starts with the body as if it had never run, or the loop is completed.

* `Scheduler.resetBody` — the body as if it had never run.
* `Scheduler.closeRound` — end the round of a loop that is through.
* `Scheduler.settle` — promote steps and end rounds until nothing changes.
-/
import Workflow.Run.Scheduler.Frontier

namespace Workflow.Scheduler

variable {g : Graph}

/-- A step of a body as if it had never run. -/
def resetMember (s : Scheduler g) (i : g.Index) : Scheduler g :=
  (s.mapState fun st => st.reset i).mapControl i fun c => { c with retries := 0, branch := none }

/-- The body of a loop as if it had never run. -/
def resetBody (s : Scheduler g) (loop : g.Index) : Scheduler g :=
  (g.body loop).foldl resetMember s

/-- Whether every step in the body of a loop is completed or skipped. -/
def bodySettled (s : Scheduler g) (loop : g.Index) : Bool :=
  (g.body loop).all fun i => (s.statusOf i).isSettled

/-- The outputs of the completed ones among some steps, by id. -/
def outputsOf (s : Scheduler g) (steps : List g.Index) : Dict Json :=
  Dict.ofEntries <| steps.filterMap fun i =>
    let r := s.state.result i
    if r.status = .completed then r.output.map (g.idOf i, ·) else none

/-- The output of a loop. -/
def loopOutput (iterations : List Iteration) : Json :=
  .obj [("count", Json.ofNat iterations.length),
    ("results", .arr (iterations.map fun it => .obj it.outputs))]

/-- The loop is completed with its rounds. -/
def completeLoop (s : Scheduler g) (loop : g.Index) (iterations : List Iteration) : Scheduler g :=
  ((s.mapControl loop fun c => { c with frame := none }).mapState fun st =>
    st.mapResult loop fun r => { r with iterations }).complete loop (loopOutput iterations)

/-- End the round of a loop if it is through. -/
def closeRound (s : Scheduler g) (loop : g.Index) : Scheduler g :=
  match (s.controlOf loop).frame with
  | none => s
  | some frame =>
    match frame.items[frame.position]? with
    | none => s
    | some item =>
      if s.bodySettled loop then
        let iterations := frame.iterations ++
          [⟨frame.position, item, s.outputsOf (g.body loop)⟩]
        if frame.position + 1 < frame.items.length then
          (s.mapControl loop fun c =>
            { c with frame := some ⟨frame.items, frame.position + 1, iterations⟩ }).resetBody loop
        else s.completeLoop loop iterations
      else s

/-- The rounds of a loop that are not through. -/
def Frame.remaining (f : Frame) : Nat := f.items.length - f.position

/-- The rounds of all loops that are not through. -/
def remainingRounds (s : Scheduler g) : Nat :=
  (g.indices.map fun i => ((s.controlOf i).frame.map Frame.remaining).getD 0).foldr (· + ·) 0

/-- Promote steps and end the rounds that are through, over and over until nothing changes. Every
time but the last leaves fewer rounds. -/
def settle (s : Scheduler g) : Scheduler g :=
  let next := g.indices.foldl closeRound s.refreshFrontier
  if next.remainingRounds < s.remainingRounds then next.settle else next
termination_by s.remainingRounds

end Workflow.Scheduler

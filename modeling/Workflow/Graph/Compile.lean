/-
Workflow.Graph.Compile — graphs from step definitions.

A list of steps forms a graph if it passes the checks below; the first
check that fails gives the error.

* `Step.configFault?` — the settings of one step.
* `declaredEdges` — the edges that definitions declare.
* `loopBodies` — the bodies of loops.
* `Graph.compile` — the graph.
-/
import Workflow.Graph.Basic
import Workflow.Graph.Error
import Workflow.Text.Blank

namespace Workflow

/-! ## Settings of one step -/

/-- Settings that belong to steps of another kind. -/
def Step.strayFault? (s : Step) : Option ConfigFault :=
  if s.kind ≠ .condition ∧ (s.condition.isSome ∨ s.trueBranch.isSome ∨ s.falseBranch.isSome) then
    some .straySettings
  else if s.kind ≠ .loop ∧ s.loopConfig.isSome then some .strayLoop
  else if s.kind ≠ .errorHandler ∧ s.errorConfig.isSome then some .strayHandler
  else none

/-- What is wrong with the settings of the step's own kind. -/
def Step.kindFault? (s : Step) : Option ConfigFault :=
  match s.kind with
  | .condition =>
    if Text.isBlankText (s.condition.getD "") then some .noCondition
    else if s.trueBranch.isSome ∧ s.trueBranch = s.falseBranch then some .sameBranches
    else none
  | .loop =>
    match s.loopConfig with
    | none => some .noLoopConfig
    | some c =>
      if Text.isBlankText c.collectionExpr then some .noCollection
      else if c.maxIterations = 0 then some .noIterations
      else if c.body = s.id then some .ownBody
      else none
  | .errorHandler =>
    if s.errorConfig.isNone then some .noErrorConfig
    else if s.dependsOn.isEmpty then some .guardsNothing
    else none
  | _ => none

/-- What is wrong with a retry policy. -/
def RetryPolicy.fault? (p : RetryPolicy) : Option ConfigFault :=
  if p.backoffMultiplier.isBelowOne then some .shrinkingBackoff
  else if p.maxDelay.nanos < p.initialDelay.nanos then some .delaysOutOfOrder
  else none

/-- What is wrong with the settings of a step. -/
def Step.configFault? (s : Step) : Option ConfigFault :=
  s.strayFault? <|> s.kindFault? <|> s.retryPolicy.bind RetryPolicy.fault?

namespace Graph

/-! ## Ids and references -/

/-- The first id that an earlier step has. -/
def duplicateId? (seen : List String) : List Step → Option String
  | [] => none
  | s :: rest => if s.id ∈ seen then some s.id else duplicateId? (s.id :: seen) rest

/-- The error of the first step with wrong settings. -/
def configError? (steps : List Step) : Option CompileError :=
  steps.findSome? fun s => s.configFault?.map (CompileError.invalidStep s.id)

/-- The error of the first reference to a step that does not exist. -/
def danglingError? (steps : List Step) : Option CompileError :=
  steps.findSome? fun s =>
    (s.references.find? fun (_, target) => !steps.any fun t => t.id = target).map
      fun (field, target) => .danglingReference s.id field target

/-! ## Edges -/

variable (steps : Array Step)

/-- The step with an id. -/
def find? (id : String) : Option (Fin steps.size) :=
  (List.finRange steps.size).find? fun i => steps[i].id = id

/-- The edge to the step with an id. -/
def edgeTo (source : Fin steps.size) (tag : EdgeTag) (id : String) : Option (Edge steps.size) :=
  (find? steps id).map fun target => ⟨source, target, tag⟩

/-- The edges that a condition or a loop declares. -/
def ownEdges (i : Fin steps.size) : List (Edge steps.size) :=
  let s := steps[i]
  match s.kind with
  | .condition =>
    (s.trueBranch.bind (edgeTo steps i .branchTrue)).toList ++
      (s.falseBranch.bind (edgeTo steps i .branchFalse)).toList
  | .loop => (s.loopConfig.bind fun c => edgeTo steps i .loopBody c.body).toList
  | _ => []

/-- The tag of a dependency. -/
def dependencyTag (source target : Fin steps.size) : EdgeTag :=
  if steps[target].kind = .errorHandler then .errorCatch
  else if steps[source].kind = .loop then .loopExit
  else .dependency

/-- The edges that the dependencies of a step declare. -/
def dependencyEdges (i : Fin steps.size) : List (Edge steps.size) :=
  steps[i].dependsOn.filterMap fun id =>
    (find? steps id).map fun source => ⟨source, i, dependencyTag steps source i⟩

/-- Add an edge unless there is one between the two steps. -/
def addEdge {n : Nat} (edges : List (Edge n)) (e : Edge n) : List (Edge n) :=
  if edges.any fun f => f.source = e.source ∧ f.target = e.target then edges else edges ++ [e]

/-- The edges of a list of steps: branches and bodies first, then dependencies. -/
def declaredEdges : List (Edge steps.size) :=
  let all := List.finRange steps.size
  (all.flatMap (ownEdges steps) ++ all.flatMap (dependencyEdges steps)).foldl addEdge []

/-! ## Start and end -/

/-- The step that a run starts with: the only Start, which depends on nothing. -/
def findEntry : Except CompileError (Fin steps.size) :=
  match (List.finRange steps.size).filter fun i => steps[i].kind = .start with
  | [] => .error .missingStart
  | [i] =>
    if steps[i].dependsOn.isEmpty then .ok i else .error (.startHasDependencies steps[i].id)
  | many => .error (.multipleStart (many.map fun i => steps[i].id))

/-! ## Bodies of loops -/

variable (edges : List (Edge steps.size))

/-- The steps that a step leads to without the help of a handler. -/
def bodyNext (i : Fin steps.size) : List (Fin steps.size) :=
  ((Edge.outgoing edges i).filter fun (_, tag) => tag ≠ .errorCatch).map (·.1)

/-- The steps that are reachable from the first step of a body without the help of a handler, in
order. -/
def bodyFrom (first : Fin steps.size) : List (Fin steps.size) :=
  let members := closure (bodyNext steps edges) first
  (List.finRange steps.size).filter fun i => i ∈ members

/-- What is wrong with a step in the body of a loop. -/
def memberFault? (loop : Fin steps.size) (members : List (Fin steps.size)) (i : Fin steps.size) :
    Option LoopBodyFault :=
  match steps[i].kind with
  | .start | .finish => some .startOrEnd
  | .loop => some .nestedLoop
  | _ =>
    let outside := (Edge.incoming edges i).find? fun (source, tag) =>
      !((source = loop ∧ tag = .loopBody) ∨ source ∈ members)
    match outside with
    | some (source, _) => some (.dependsOutside steps[source].id)
    | none =>
      if (Edge.outgoing edges i).any fun (_, tag) => tag = .errorCatch then some .guarded else none

/-- The body of a loop. -/
def loopBody (loop : Fin steps.size) : Except CompileError (List (Fin steps.size)) :=
  match (Edge.outgoing edges loop).find? fun (_, tag) => tag = .loopBody with
  | none => .error (.invalidLoopBody steps[loop].id steps[loop].id .noBody)
  | some (first, _) =>
    let members := bodyFrom steps edges first
    match members.findSome? fun i => (memberFault? steps edges loop members i).map (i, ·) with
    | some (i, fault) => .error (.invalidLoopBody steps[loop].id steps[i].id fault)
    | none => .ok members

/-- The bodies of all loops. -/
def loopBodies : Except CompileError (List (Fin steps.size × List (Fin steps.size))) :=
  ((List.finRange steps.size).filter fun i => steps[i].kind = .loop).mapM fun loop =>
    (loopBody steps edges loop).map (loop, ·)

/-! ## Graphs -/

/-- The graph of steps whose ids and references are sound. -/
def assemble (allowOrphans : Bool) : Except CompileError Graph := do
  let start ← findEntry steps
  let edges := declaredEdges steps
  let reached := closure (Edge.targets edges) start
  let ids (is : List (Fin steps.size)) := is.map fun i => steps[i].id
  if !reached.any fun i => steps[i].kind = .finish then
    throw (.missingEnd steps[start].id)
  if let some path := cycle? (Edge.successors edges) then
    throw (.cycle (ids path))
  let orphans := (List.finRange steps.size).filter fun i => i ∉ reached
  if !allowOrphans && !orphans.isEmpty then
    throw (.orphanSteps (ids orphans))
  let bodies ← loopBodies steps edges
  return { steps, edges, entry := start, orphans, bodies }

/-- The graph of a list of steps. Steps that nothing leads to are an error unless allowed. -/
def compile (allowOrphans : Bool) (steps : List Step) : Except CompileError Graph :=
  match duplicateId? [] steps with
  | some id => .error (.duplicateStep id)
  | none =>
    match configError? steps <|> danglingError? steps with
    | some e => .error e
    | none => assemble steps.toArray allowOrphans

end Graph

end Workflow

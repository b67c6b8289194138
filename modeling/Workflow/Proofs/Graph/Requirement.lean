/-
Workflow.Proofs.Graph.Requirement — what is required of steps.

Eight things are required of a list of steps that is to form a graph. They
speak about steps and declared edges only: reachability is a path along
edges, and the body of a loop is what its edge leads to without the help of
a handler.

* `Step.WellSet` — settings that belong to the kind of step and make sense.
* `Requirement`, `Requirement.Holds` — what is required, in the order of the
  checks.
* `CompileError.violated`, `Describes` — what an error says.
-/
import Mathlib.Data.List.Chain
import Mathlib.Data.Option.Basic
import Workflow.Proofs.Graph.Sound

namespace Workflow

/-! ## Settings -/

/-- The settings of a step are those of its kind, and they make sense. -/
structure Step.WellSet (s : Step) : Prop where
  ofCondition : s.condition.isSome ∨ s.trueBranch.isSome ∨ s.falseBranch.isSome →
    s.kind = .condition
  ofLoop : s.loopConfig.isSome → s.kind = .loop
  ofHandler : s.errorConfig.isSome → s.kind = .errorHandler
  condition : s.kind = .condition → Text.isBlankText (s.condition.getD "") = false ∧
    (s.trueBranch.isSome → s.trueBranch ≠ s.falseBranch)
  loop : s.kind = .loop → ∃ c, s.loopConfig = some c ∧
    Text.isBlankText c.collectionExpr = false ∧ c.maxIterations ≠ 0 ∧ c.body ≠ s.id
  handler : s.kind = .errorHandler → s.errorConfig.isSome ∧ s.dependsOn ≠ []
  policy : ∀ p, s.retryPolicy = some p → p.backoffMultiplier.isBelowOne = false ∧
    p.initialDelay.nanos ≤ p.maxDelay.nanos

theorem RetryPolicy.fault?_eq_none_iff {p : RetryPolicy} :
    p.fault? = none ↔
      p.backoffMultiplier.isBelowOne = false ∧ p.initialDelay.nanos ≤ p.maxDelay.nanos := by
  unfold RetryPolicy.fault?
  cases p.backoffMultiplier.isBelowOne <;> simp

/-- Nothing is wrong with the settings of a step exactly if they are those of its kind and make
sense. -/
theorem Step.configFault?_eq_none_iff {s : Step} : s.configFault? = none ↔ s.WellSet := by
  have hStray : s.strayFault? = none ↔
      (s.condition.isSome ∨ s.trueBranch.isSome ∨ s.falseBranch.isSome → s.kind = .condition) ∧
      (s.loopConfig.isSome → s.kind = .loop) ∧
      (s.errorConfig.isSome → s.kind = .errorHandler) := by
    unfold Step.strayFault?
    grind
  have hKind : s.kindFault? = none ↔
      (s.kind = .condition → Text.isBlankText (s.condition.getD "") = false ∧
        (s.trueBranch.isSome → s.trueBranch ≠ s.falseBranch)) ∧
      (s.kind = .loop → ∃ c, s.loopConfig = some c ∧
        Text.isBlankText c.collectionExpr = false ∧ c.maxIterations ≠ 0 ∧ c.body ≠ s.id) ∧
      (s.kind = .errorHandler → s.errorConfig.isSome ∧ s.dependsOn ≠ []) := by
    unfold Step.kindFault?
    cases hCase : s.kind with
    | condition => grind
    | loop => cases hConfig : s.loopConfig <;> grind
    | errorHandler => cases hConfig : s.errorConfig <;> cases hDeps : s.dependsOn <;> simp
    | _ => simp
  have hPolicy : s.retryPolicy.bind RetryPolicy.fault? = none ↔
      ∀ p, s.retryPolicy = some p → p.backoffMultiplier.isBelowOne = false ∧
        p.initialDelay.nanos ≤ p.maxDelay.nanos := by
    simp [Option.bind_eq_none_iff, RetryPolicy.fault?_eq_none_iff]
  simp only [Step.configFault?, Option.orElse_eq_none, hStray, hKind, hPolicy]
  constructor
  · rintro ⟨⟨hOwn, hLoop, hHandler⟩, ⟨hCondition, hConfig, hGuards⟩, hRetry⟩
    exact ⟨hOwn, hLoop, hHandler, hCondition, hConfig, hGuards, hRetry⟩
  · rintro ⟨hOwn, hLoop, hHandler, hCondition, hConfig, hGuards, hRetry⟩
    exact ⟨⟨hOwn, hLoop, hHandler⟩, ⟨hCondition, hConfig, hGuards⟩, hRetry⟩

namespace Graph

/-! ## Requirements -/

section

variable (steps : Array Step)

/-- An edge leads from one step to the other. -/
def Joined (i j : Fin steps.size) : Prop := ∃ tag, Edge.mk i j tag ∈ declaredEdges steps

/-- An edge leads from one step to the other without the help of a handler. -/
def JoinedPlainly (i j : Fin steps.size) : Prop :=
  ∃ tag, tag ≠ .errorCatch ∧ Edge.mk i j tag ∈ declaredEdges steps

/-- A path along edges leads to the step from a Start step. -/
def FromStart (i : Fin steps.size) : Prop :=
  ∃ start, (stepAt steps start).kind = .start ∧ Relation.ReflTransGen (Joined steps) start i

/-- The step is in the body of the loop: the edge of the loop leads to it or to a step from which it
is reached without the help of a handler. -/
def InBody (loop i : Fin steps.size) : Prop :=
  ∃ first, Edge.mk loop first .loopBody ∈ declaredEdges steps ∧
    Relation.ReflTransGen (JoinedPlainly steps) first i

/-- A step that may stand in the body of the loop. -/
structure FitsBody (loop i : Fin steps.size) : Prop where
  kind : (stepAt steps i).kind ≠ .start ∧ (stepAt steps i).kind ≠ .finish ∧
    (stepAt steps i).kind ≠ .loop
  entered : ∀ e ∈ declaredEdges steps, e.target = i →
    e.source = loop ∧ e.tag = .loopBody ∨ InBody steps loop e.source
  unguarded : ∀ e ∈ declaredEdges steps, e.source = i → e.tag ≠ .errorCatch

/-- The ids of exactly the steps with a property, in the order of the definitions. -/
def IdsOf (p : Fin steps.size → Prop) (ids : List String) : Prop :=
  ∃ is : List (Fin steps.size), is.Pairwise (· < ·) ∧ (∀ i, i ∈ is ↔ p i) ∧
    ids = is.map fun i => (stepAt steps i).id

end

/-- What is required of a list of steps, in the order of the checks. -/
inductive Requirement where
  | distinctIds
  | settings
  | references
  | singleStart
  | reachableEnd
  | noCycle
  | noOrphans
  | bodies
deriving DecidableEq, Repr

namespace Requirement

/-- The place of a requirement in the order of the checks. -/
def place : Requirement → Nat
  | distinctIds => 1
  | settings => 2
  | references => 3
  | singleStart => 4
  | reachableEnd => 5
  | noCycle => 6
  | noOrphans => 7
  | bodies => 8

/-- The requirement is met by a list of steps. -/
def Holds (allowOrphans : Bool) (steps : List Step) : Requirement → Prop
  | distinctIds => (steps.map Step.id).Nodup
  | settings => ∀ s ∈ steps, s.WellSet
  | references => ∀ s ∈ steps, ∀ r ∈ s.references, ∃ t ∈ steps, t.id = r.2
  | singleStart => ∃ start, (stepAt steps.toArray start).kind = .start ∧
      (stepAt steps.toArray start).dependsOn = [] ∧
        ∀ i, (stepAt steps.toArray i).kind = .start → i = start
  | reachableEnd => ∃ i, FromStart steps.toArray i ∧ (stepAt steps.toArray i).kind = .finish
  | noCycle => ∀ i, ¬ Relation.TransGen (Joined steps.toArray) i i
  | noOrphans => allowOrphans = true ∨ ∀ i, FromStart steps.toArray i
  | bodies => ∀ loop i, InBody steps.toArray loop i → FitsBody steps.toArray loop i

end Requirement

end Graph

/-! ## What errors say -/

/-- The requirement that an error says is not met. -/
def CompileError.violated : CompileError → Graph.Requirement
  | .duplicateStep _ => .distinctIds
  | .invalidStep _ _ => .settings
  | .danglingReference _ _ _ => .references
  | .missingStart | .multipleStart _ | .startHasDependencies _ => .singleStart
  | .missingEnd _ => .reachableEnd
  | .cycle _ => .noCycle
  | .orphanSteps _ => .noOrphans
  | .invalidLoopBody _ _ _ => .bodies

namespace Graph

/-- What an error says is the case with a list of steps. -/
def Describes (steps : List Step) : CompileError → Prop
  | .duplicateStep id => 2 ≤ (steps.map Step.id).count id
  | .invalidStep id fault => ∃ s ∈ steps, s.id = id ∧ s.configFault? = some fault
  | .danglingReference id field target =>
    (∃ s ∈ steps, s.id = id ∧ (field, target) ∈ s.references) ∧ ∀ t ∈ steps, t.id ≠ target
  | .missingStart => ∀ i, (stepAt steps.toArray i).kind ≠ .start
  | .multipleStart ids =>
    IdsOf steps.toArray (fun i => (stepAt steps.toArray i).kind = .start) ids ∧ 2 ≤ ids.length
  | .startHasDependencies id => ∃ start,
    (∀ i, (stepAt steps.toArray i).kind = .start ↔ i = start) ∧
      (stepAt steps.toArray start).id = id ∧ (stepAt steps.toArray start).dependsOn ≠ []
  | .missingEnd id => ∃ start,
    (stepAt steps.toArray start).kind = .start ∧ (stepAt steps.toArray start).id = id
  | .cycle path => ∃ way : List (Fin steps.toArray.size),
    way.IsChain (Joined steps.toArray) ∧ 2 ≤ way.length ∧ way.head? = way.getLast? ∧
      path = way.map fun i => (stepAt steps.toArray i).id
  | .orphanSteps ids => IdsOf steps.toArray (fun i => ¬ FromStart steps.toArray i) ids
  | .invalidLoopBody loopId id _ => ∃ loop i,
    InBody steps.toArray loop i ∧ ¬ FitsBody steps.toArray loop i ∧
      (stepAt steps.toArray loop).id = loopId ∧ (stepAt steps.toArray i).id = id

end Graph

end Workflow

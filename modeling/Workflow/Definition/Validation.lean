/-
Workflow.Definition.Validation — what is wrong with a definition before it runs.

A report says whether the steps form a graph and whether every expression
has sound form. Expressions of unsound form are errors in strict validation
and warnings otherwise; settings without effect are warnings.

* `ValidationError`, `Report` — what is found.
* `Definition.validate` — the report on a definition.
-/
import Workflow.Definition.Basic
import Workflow.Expr.Template
import Workflow.Graph.Compile

namespace Workflow

/-- An error in a definition. -/
inductive ValidationError where
  | graph (error : CompileError)
  | expression (step field : String) (error : Expr.EvaluationError)
deriving DecidableEq, Repr

/-- The wording of an error. -/
def ValidationError.message : ValidationError → String
  | .graph e => e.message
  | .expression step field e =>
    "Invalid expression in step '" ++ step ++ "' field '" ++ field ++ "': " ++ e.message

/-- How strict a validation is. -/
structure Strictness where
  /-- Expressions of unsound form are errors. -/
  expressions : Bool
  /-- Steps that nothing leads to are allowed. -/
  allowOrphans : Bool
deriving DecidableEq, Repr

/-- What is wrong with a definition. -/
structure Report where
  errors : List ValidationError
  warnings : List String
  /-- The ids of the steps in an order of execution, if they form a graph. -/
  order : List String
deriving DecidableEq, Repr

/-- Whether there are no errors. -/
def Report.isValid (r : Report) : Bool := r.errors.isEmpty

namespace Step

/-- The expressions of a step: the name of the field, the text and its check. -/
def checks (s : Step) : List (String × Except Expr.Fault Unit) :=
  (s.inputMapping.map fun (param, text) => ("inputMapping." ++ param, Expr.checkTemplate text)) ++
    (s.condition.map fun text => ("condition", Expr.checkBare text)).toList ++
    (s.loopConfig.map fun c =>
      ("loopConfig.collectionExpr", Expr.checkBare c.collectionExpr)).toList

/-- The expressions of unsound form; nothing if one of them crashes. -/
def problems? (s : Step) : Option (List ValidationError) :=
  s.checks.foldr
    (fun (field, check) found? =>
      match check, found? with
      | .error .crash, _ | _, none => none
      | .error (.error e), some found => some (.expression s.id field e :: found)
      | .ok _, some found => some found)
    (some [])

/-- Settings that have no effect, or not the one they seem to have. -/
def policyWarnings (s : Step) : List String :=
  let retries :=
    if s.retryPolicy.isSome && !s.kind.isExecutable then
      ["Step '" ++ s.id ++ "' is a " ++ s.kind.name ++
        " step; its retryPolicy only applies to executor failures"]
    else []
  let fallback :=
    if s.errorConfig.any fun c => c.recoveryAction = .fallback && c.fallbackValue.isNone then
      ["Error handler '" ++ s.id ++ "' uses fallback without fallbackValue; null will be used"]
    else []
  retries ++ fallback

end Step

namespace Definition

/-- The report on the graph of a definition. -/
def graphReport (w : Definition) (allowOrphans : Bool) : Report :=
  match Graph.compile allowOrphans w.steps with
  | .ok g =>
    { errors := []
      warnings := g.orphans.map fun i =>
        "Step '" ++ g.idOf i ++ "' is unreachable from Start and will be skipped"
      order := g.executionOrder.map g.idOf }
  | .error e => ⟨[.graph e], [], []⟩

/-- The report on a step. -/
def stepReport? (strict : Bool) (s : Step) : Option Report :=
  s.problems?.map fun found =>
    if strict then ⟨found, s.policyWarnings, []⟩
    else ⟨[], found.map ValidationError.message ++ s.policyWarnings, []⟩

/-- The report on a definition; nothing if the check of an expression crashes. -/
def validate (w : Definition) (how : Strictness) : Option Report :=
  (w.steps.mapM (stepReport? how.expressions)).map fun reports =>
    let all := w.graphReport how.allowOrphans :: reports
    ⟨all.flatMap (·.errors), all.flatMap (·.warnings), all.flatMap (·.order)⟩

end Definition

end Workflow

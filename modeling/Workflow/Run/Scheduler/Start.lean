/-
Workflow.Run.Scheduler.Start — starting a ready step.

Start, End, Condition and Loop steps are done by the scheduler itself;
agents, actions and error handlers are calls to the executor. Every step
sees the same kinds of data: the input of the run or the item of its loop,
the outputs of finished steps, the variables, the workflow and the
execution itself.

* `Scheduler.dataContext` — what the expressions of a step see.
* `Scheduler.resolveInput` — the input of a step.
* `Scheduler.startStep` — start a ready step.
-/
import Workflow.Expr.Template
import Workflow.Run.Scheduler.Failure
import Workflow.Run.Scheduler.Loop

namespace Workflow.Scheduler

variable {g : Graph}

/-- The progress of the loop that a step is in. -/
def frameOf? (s : Scheduler g) (i : g.Index) : Option Frame :=
  (g.owner? i).bind fun loop => (s.controlOf loop).frame

/-- What the expressions of a step see. -/
def dataContext (s : Scheduler g) (i : g.Index) : Expr.DataContext :=
  let frame := s.frameOf? i
  { json :=
      match frame with
      | some f => f.items[f.position]?.getD .null
      | none => s.state.input
    node := s.state.outputs
    context := s.state.vars
    workflow := .obj [("id", .str s.state.workflowId), ("name", .str s.state.workflowName)]
    execution := .obj (
      [("id", .str s.state.runId), ("runId", .str s.state.runId), ("stepId", .str (g.idOf i))] ++
        (frame.map fun f => ("iteration", Json.ofNat f.position)).toList)
    now := s.now }

/-- Why a step could not be prepared: its own error, or a crash of an expression. -/
inductive StartFault where
  | error (e : StepError)
  | crash
deriving DecidableEq, Repr

/-- A fault of the expression in a field. -/
def expressionFault (field : String) : Expr.Fault → StartFault
  | .crash => .crash
  | .error e => .error (StepError.of .evaluation (field ++ ": " ++ e.message))

/-- The value of a parameter; a path that leads nowhere gives null. -/
def resolveParam (ctx : Expr.DataContext) (param text : String) : Except StartFault Json :=
  match Expr.evaluate ctx text with
  | .ok v => .ok v
  | .error (.error (.undefinedPath _)) => .ok .null
  | .error fault => .error (expressionFault ("inputMapping." ++ param) fault)

/-- The input of a step: the values of its parameters, up to the first fault. -/
def resolveInput (ctx : Expr.DataContext) : Dict String → Except StartFault (Dict Json)
  | [] => .ok []
  | (param, text) :: rest =>
    match resolveParam ctx param text with
    | .error fault => .error fault
    | .ok v => (resolveInput ctx rest).map ((param, v) :: ·)

/-- A step could not be prepared. -/
def failStart (s : Scheduler g) (i : g.Index) : StartFault → Scheduler g
  | .crash => { s with crashed := true }
  | .error e => s.failStep i e

/-- A new attempt of a step starts. -/
def begin (s : Scheduler g) (i : g.Index) : Scheduler g :=
  s.mapState fun st => st.start s.now i

/-- The end of a workflow gives its input or, without any, the outputs of the steps before it. -/
def runEnd (s : Scheduler g) (i : g.Index) : Scheduler g :=
  match resolveInput (s.dataContext i) (g.step i).inputMapping with
  | .error fault => s.failStart i fault
  | .ok [] => s.complete i (.obj (s.outputsOf ((g.incoming i).map (·.1))))
  | .ok input => s.complete i (.obj input)

/-- A condition takes one of its branches. -/
def runCondition (s : Scheduler g) (i : g.Index) : Scheduler g :=
  let step := g.step i
  match Expr.evaluateCondition (s.dataContext i) (step.condition.getD "") with
  | .error fault => s.failStart i (expressionFault "condition" fault)
  | .ok taken =>
    let branch := if taken then step.trueBranch else step.falseBranch
    (s.mapControl i fun c => { c with branch := some taken }).complete i
      (.obj [("result", .bool taken), ("branch", encodeOption .str branch)])

/-- A loop starts its first round, or is completed at once if there are no items. -/
def startLoop (s : Scheduler g) (i : g.Index) : Scheduler g :=
  let s := s.mapState fun st => st.mapResult i fun r => { r with iterations := [] }
  match (g.step i).loopConfig with
  | none => s.failStep i (StepError.of .evaluation "loop step has no loopConfig")
  | some config =>
    match Expr.evaluateCollection (s.dataContext i) config.collectionExpr with
    | .error fault => s.failStart i (expressionFault "collectionExpr" fault)
    | .ok all =>
      let items := all.take config.maxIterations
      let s := s.resetBody i
      if items.isEmpty then s.complete i (loopOutput [])
      else s.mapControl i fun c => { c with frame := some ⟨items, 0, []⟩ }

/-- What an error handler is told about the failure, beside its own input. -/
def failureInput (g : Graph) (a : Activation g) : Dict Json :=
  [("error", .str a.error.message), ("errorType", .str a.error.kind.name),
    ("errorCategory", .str a.error.category.name), ("failedStep", .str (g.idOf a.failed))]

/-- A call to the executor. -/
def dispatch (s : Scheduler g) (i : g.Index) : Scheduler g :=
  let step := g.step i
  match resolveInput (s.dataContext i) step.inputMapping with
  | .error fault => s.failStart i fault
  | .ok own =>
    let input :=
      match (s.controlOf i).activation with
      | some a => Dict.insertAll own (failureInput g a)
      | none => own
    let token := s.lastToken + 1
    let invocation : Invocation :=
      { runId := s.state.runId
        stepId := step.id
        kind := step.kind
        input
        config := step.config
        attempt := (s.state.result i).attempt }
    ({ s with lastToken := token, running := s.running + 1 }.mapControl i fun c =>
      { c with call := some token }).request
        (.call i token invocation (step.timeout <|> s.stepTimeout))

/-- Start a ready step. -/
def startStep (s : Scheduler g) (i : g.Index) : Scheduler g :=
  let s := s.begin i
  match g.kindOf i with
  | .start => s.complete i s.state.input
  | .finish => s.runEnd i
  | .condition => s.runCondition i
  | .loop => s.startLoop i
  | .agent | .action | .errorHandler => s.dispatch i

end Workflow.Scheduler

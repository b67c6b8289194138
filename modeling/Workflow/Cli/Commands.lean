/-
Workflow.Cli.Commands — what the commands do.

* `CliCommand.perform` — the commands.
* `Snapshot.reportLines` — a run that has ended, in lines.
-/
import Workflow.Cli.Arguments
import Workflow.Cli.Input
import Workflow.Definition.Files
import Workflow.Definition.Validation
import Workflow.Store.Files

namespace Workflow

/-- What a command finds around it. -/
structure Surroundings where
  /-- The variables of the environment. -/
  lookup : String → Option String
  home : Option String
  /-- An id that no other run has. -/
  newRunId : String
  now : Instant

/-! ## Lines -/

/-- A step that has been run, in lines. -/
def StepResult.reportLines (r : StepResult) : List String :=
  let attempts := if r.attempt > 1 then " (" ++ toString r.attempt ++ " attempts)" else ""
  ["  Step '" ++ r.stepId ++ "': " ++ r.status.name ++ attempts] ++
    (r.output.map fun v => "    Output: " ++ v.compress).toList ++
    (r.error.map fun e => "    Error: " ++ e.text).toList

/-- A run that has ended, in lines. -/
def Snapshot.reportLines (s : Snapshot) : List String :=
  let n := s.summary
  ["Workflow '" ++ s.workflowName ++ "' run " ++ s.runId ++ " finished with status: " ++
      s.status.name] ++
    (s.stepResults.flatMap fun (_, r) => r.reportLines) ++
    ["  " ++ toString n.completed ++ " completed, " ++ toString n.skipped ++ " skipped, " ++
      toString n.failed ++ " failed"]

/-- A graph, in lines. -/
def Graph.reportLines (g : Graph) (name : String) : List String :=
  ["Workflow '" ++ name ++ "' (" ++ toString g.size ++ " steps)"] ++
    (g.edgeList.map fun (source, target, tag) =>
      "  " ++ source ++ " -[" ++ tag.name ++ "]-> " ++ target) ++
    g.orphans.map fun i => "  " ++ g.idOf i ++ " (unreachable)"

/-! ## Commands -/

variable {m : Type → Type} [Monad m] [FileSystem m]

/-- The definition in a file. -/
def loadWorkflow (path : String) : ExceptT CommandError m Definition :=
  ExceptT.mk do
    match ← Definition.load path with
    | .ok w => return .ok w
    | .error e => return .error (.definition e)

/-- The graph of a definition. -/
def compileWorkflow (c : Config) (w : Definition) : Except CommandError Graph :=
  (Graph.compile c.allowOrphans w.steps).mapError .compile

/-- How a run ended. -/
def Snapshot.commandEnding (s : Snapshot) : CommandEnding :=
  if s.status = .completed then .done else .failed (.notCompleted s.runId s.status s.error)

/-- Keep snapshots in a directory. What cannot be kept is let go. -/
def keepAll (directory : String) : List Snapshot → m Unit
  | [] => return ()
  | snapshot :: rest => do
    let _ ← FileStore.save ⟨directory⟩ snapshot
    keepAll directory rest

/-- Tell of a run that has ended: in a file, or in lines. -/
def tell (output : Option String) (s : Snapshot) : m CommandReport := do
  match output with
  | none => return ⟨s.reportLines, s.commandEnding⟩
  | some path =>
    match ← FileSystem.write path s.encode.pretty with
    | .error _ => return .failed (.unwritable path)
    | .ok () => return ⟨[], s.commandEnding⟩

/-- Run a workflow to its end. -/
def runWorkflow (c : Config) (around : Surroundings) (w : Definition) (input : Json)
    (output : Option String) : m CommandReport := do
  let archive := c.stateDir.map fun _ => Archive.mk .empty none
  let service : Service := ⟨World.initial around.now (.registry .builtins) archive, c.engine⟩
  let (service, result) := service.execute around.newRunId w input World.patience
  match c.stateDir with
  | none => pure ()
  | some directory => keepAll directory service.world.saves
  match result with
  | none => return .failed (.endless around.newRunId)
  | some (.error (.limitTooHigh _)) => return ⟨[], .crashed⟩
  | some (.error e) => return .failed (.run e)
  | some (.ok snapshot) => tell output snapshot

/-- Check a workflow. -/
def validateWorkflow (c : Config) (strict : Bool) (w : Definition) : CommandReport :=
  match w.validate ⟨strict, c.allowOrphans⟩ with
  | none => ⟨[], .crashed⟩
  | some r =>
    let warnings := r.warnings.map ("  warning: " ++ ·)
    if r.isValid then
      .done (warnings ++
        ["✓ Workflow '" ++ w.name ++ "' is valid", "  Steps: " ++ toString w.steps.length,
          "  Execution order: " ++ " -> ".intercalate r.order])
    else
      ⟨warnings ++ r.errors.map fun e => "  error: " ++ e.message,
        .failed (.invalidWorkflow w.name r.errors.length)⟩

/-- A workflow to start from. -/
def starterWorkflow (name : String) : Json :=
  let texts (words : List String) : Json := .arr (words.map .str)
  .obj
    [("name", .str name), ("description", .str "Starter workflow"), ("version", .str "1.0"),
      ("variables", .obj [("greeting", .str "Hello")]),
      ("steps", .arr
        [.obj [("id", .str "start"), ("kind", .str "Start")],
          .obj [("id", .str "agent"), ("kind", .str "Agent"), ("dependsOn", texts ["start"]),
            ("inputMapping", .obj
              [("prompt",
                .str "\x7b\x7b $context.greeting \x7d\x7d, \x7b\x7b $json.name \x7d\x7d")]),
            ("retryPolicy", .obj
              [("maxRetries", Json.ofNat 2), ("initialDelay", .str "1s")]),
            ("timeout", .str "30s")],
          .obj [("id", .str "end"), ("kind", .str "End"), ("dependsOn", texts ["agent"]),
            ("inputMapping", .obj [("result", .str "\x7b\x7b $node.agent \x7d\x7d")])]])]

/-- Write a workflow to start from into a new file of a directory. -/
def initWorkflow (name directory : String) : m CommandReport := do
  match ← FileSystem.makeDirectory directory with
  | .error fault => return .failed (.file fault)
  | .ok () =>
    let path := Path.join directory (name ++ ".json")
    if ← FileSystem.present path then return .failed (.workflowExists path)
    match ← FileSystem.write path (starterWorkflow name).pretty with
    | .error fault => return .failed (.file fault)
    | .ok () => return .done ["Created workflow file: " ++ path]

/-- Do what a command line asks for. -/
def CliCommand.perform (c : Config) (around : Surroundings) :
    CliCommand → ExceptT CommandError m CommandReport
  | .run path input inputJson vars dryRun output maxConcurrent => do
    let overrides ← parseVariables vars
    let c := { c with maxConcurrentSteps := maxConcurrent.getD c.maxConcurrentSteps }
    let input ← ExceptT.mk (loadInput input inputJson)
    let w ← loadWorkflow path
    let vars := Dict.insertAll (Dict.insertAll c.vars w.vars) overrides
    let w := { w with vars }
    if dryRun then
      let g ← compileWorkflow c w
      return .done ["✓ Workflow '" ++ w.name ++ "' compiled: " ++ toString g.size ++ " steps"]
    else ExceptT.lift (runWorkflow c around w input output)
  | .validate path strict => do
    return validateWorkflow c strict (← loadWorkflow path)
  | .graph path => do
    let w ← loadWorkflow path
    return .done ((← compileWorkflow c w).reportLines w.name)
  | .init name directory => ExceptT.lift (initWorkflow name directory)

end Workflow

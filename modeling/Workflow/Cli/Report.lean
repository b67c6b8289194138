/-
Workflow.Cli.Report — what a command leaves behind.

A command prints lines and then ends well, fails with an error, or crashes.

* `CommandError` — why a command fails; `CommandError.message` is its
  wording.
* `CommandReport` — the lines of a command and how it ended.
-/
import Workflow.Cli.Config

namespace Workflow

/-- Why a command fails. -/
inductive CommandError where
  | config (error : ConfigError)
  | badVariable (text : String)
  | unreadableInput (path : String)
  | badInputFile (path : String)
  | badInlineInput
  | definition (error : DefinitionError)
  | compile (error : CompileError)
  | run (error : ServiceError)
  /-- The run has ended, but not well. -/
  | notCompleted (runId : String) (status : RunStatus) (failure : Option RunFailure)
  /-- The run waits for something that never happens. -/
  | endless (runId : String)
  | invalidWorkflow (name : String) (errors : Nat)
  | unwritable (path : String)
  | file (fault : FileFault)
  | workflowExists (path : String)
deriving DecidableEq, Repr

/-- The wording of an error. -/
def CommandError.message : CommandError → String
  | .config e => e.message
  | .badVariable text => "Invalid variable format '" ++ text ++ "'. Expected 'key=value'"
  | .unreadableInput path => "Failed to read input file " ++ path
  | .badInputFile path => "Input file " ++ path ++ " is not valid JSON"
  | .badInlineInput => "--input-json is not valid JSON"
  | .definition e => "Failed to parse workflow: " ++ e.message
  | .compile e => "Workflow compilation failed: " ++ e.message
  | .run e => "Workflow execution failed: " ++ e.message
  | .notCompleted runId status failure =>
    "Workflow run " ++ runId ++ " finished with status " ++ status.name ++
      failure.elim "" fun f => ": " ++ f.text
  | .endless runId => "Workflow run " ++ runId ++ " never finishes"
  | .invalidWorkflow name errors =>
    "Workflow '" ++ name ++ "' is invalid (" ++ toString errors ++ " errors)"
  | .unwritable path => "Failed to write " ++ path
  | .file fault => fault.message
  | .workflowExists path => "Workflow file already exists: " ++ path

/-- How a command ends. -/
inductive CommandEnding where
  | done
  | failed (error : CommandError)
  | crashed
deriving DecidableEq, Repr

/-- The lines that a command has printed and how it ended. -/
structure CommandReport where
  lines : List String
  ending : CommandEnding
deriving DecidableEq, Repr

namespace CommandReport

/-- A command that has printed lines and ended well. -/
def done (lines : List String) : CommandReport := ⟨lines, .done⟩

/-- A command that has failed before it printed anything. -/
def failed (e : CommandError) : CommandReport := ⟨[], .failed e⟩

/-- The exit code. -/
def exitCode (r : CommandReport) : Nat :=
  match r.ending with
  | .done => 0
  | .failed _ => 1
  | .crashed => 101

/-- The line that tells of an error. -/
def errorLine? (r : CommandReport) : Option String :=
  match r.ending with
  | .failed e => some ("Error: " ++ e.message)
  | _ => none

end CommandReport

end Workflow

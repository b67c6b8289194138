/-
Workflow.Cli.Program — the whole program, from its words to its exit code.

* `ProgramResult` — what the program leaves behind.
* `Program.run` — the program.
-/
import Workflow.Cli.Commands

namespace Workflow

/-- What the program leaves behind. -/
structure ProgramResult where
  code : Nat
  /-- The lines on the standard output. -/
  lines : List String
  /-- What is said about an error. -/
  errorLine : Option String
deriving DecidableEq, Repr

namespace Program

/-- The name of the program and its version. -/
def versionLine : String := "agentflow 0.1.0"

/-- How the program is used. -/
def usage : List String :=
  ["Run declarative agent workflows: compile step graphs and drive them to completion", "",
    "Usage: agentflow [OPTIONS] <COMMAND>", "", "Commands:",
    "  run <WORKFLOW> [--input FILE | --input-json TEXT] [-V KEY=VALUE]... [--dry-run]",
    "      [-o FILE] [--max-concurrent COUNT]",
    "  validate <WORKFLOW> [--strict]", "  graph <WORKFLOW>", "  init <NAME> [-o DIRECTORY]", "",
    "Options:", "  -v, --verbose", "  -c, --config FILE", "      --no-color", "  -h, --help",
    "  -V, --version"]

/-- The wording of what is wrong with a command line. -/
def argumentFault : ArgumentError → String
  | .unknownArgument => "unexpected argument"
  | .missingArgument => "a required argument is missing"
  | .conflict => "an argument cannot be used here"
  | .missingValue => "an argument needs a value"
  | .invalidValue => "an argument has an invalid value"
  | .needlessValue => "an argument takes no value"
  | .unknownCommand => "unknown command"
  | .missingCommand | .nothingGiven => "a command is missing"
  | .help | .version => ""

/-- What comes of a command line that names nothing to do. -/
def refusal : ArgumentError → ProgramResult
  | .help => ⟨0, usage, none⟩
  | .version => ⟨0, [versionLine], none⟩
  | e => ⟨2, [], some ("error: " ++ argumentFault e)⟩

variable {m : Type → Type} [Monad m] [FileSystem m]

/-- Do what a command line asks for, with the settings that it names. -/
def perform (l : CommandLine) (around : Surroundings) : m CommandReport := do
  match ← Config.load l.config around.lookup around.home with
  | .error e => return .failed (.config e)
  | .ok c =>
    match ← (l.command.perform c around).run with
    | .error e => return .failed e
    | .ok r => return r

/-- The program. -/
def run (words : List String) (around : Surroundings) : m ProgramResult :=
  match CommandLine.parse words with
  | .error e => return refusal e
  | .ok l => do
    let r ← perform l around
    return ⟨r.exitCode, r.lines, r.errorLine?⟩

end Program

end Workflow

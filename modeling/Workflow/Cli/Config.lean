/-
Workflow.Cli.Config — settings of the command line.

Settings come from a YAML file and from environment variables, which win
over the file.

* `Config` — the settings.
* `Config.decode?`, `Config.encode` — from a file and back.
* `Config.mergeEnvironment` — settings with environment variables.
* `Config.locations` — the files that are looked for.
-/
import Workflow.Definition.Decode
import Workflow.Definition.Encode
import Workflow.Engine.Service
import Workflow.Number.Reading

namespace Workflow

/-- How much is logged, and in which form. -/
structure Logging where
  level : String
  format : String
deriving DecidableEq, Repr

/-- Settings of the command line. -/
structure Config where
  maxConcurrentSteps : Nat
  stepTimeout : Option Duration
  allowOrphans : Bool
  /-- The directory in which snapshots of runs are kept. -/
  stateDir : Option String
  /-- Variables of all workflows, unless they set them. -/
  vars : Dict Json
  logging : Logging
deriving DecidableEq, Repr

/-- Why settings are refused. -/
inductive ConfigError where
  | unreadable (path : String)
  | invalid (path : String)
  | notANumber (text : String)
  | notADuration (text : String)
deriving DecidableEq, Repr

/-- The wording of an error. -/
def ConfigError.message : ConfigError → String
  | .unreadable path => "Failed to read config " ++ path
  | .invalid path => "Invalid config " ++ path
  | .notANumber text => "AGENTFLOW_MAX_CONCURRENT is not a number: " ++ text
  | .notADuration text => "AGENTFLOW_STEP_TIMEOUT is not a duration: " ++ text

namespace Config

/-- The logging unless set. -/
def standardLogging : Logging := ⟨"info", "pretty"⟩

/-- The settings unless set. -/
def standard : Config :=
  { maxConcurrentSteps := EngineSettings.defaultConcurrency
    stepTimeout := none
    allowOrphans := false
    stateDir := none
    vars := []
    logging := standardLogging }

open Document in
/-- The logging of a document. -/
def decodeLogging? (d : Document) : Option Logging := do
  match ← d.fields? false [["level"], ["format"]] with
  | [level, format] =>
    let level ← required? level asText?
    let format ← required? format asText?
    return { level, format }
  | _ => none

open Document in
/-- The settings of a document. -/
def decode? (d : Document) : Option Config := do
  match ← d.fields? false [["max_concurrent_steps"], ["step_timeout"], ["allow_orphans"],
    ["state_dir"], ["variables"], ["logging"]] with
  | [steps, timeout, orphans, stateDir, vars, logging] =>
    return {
      maxConcurrentSteps := ←
        defaulted? steps EngineSettings.defaultConcurrency (asNatBelow? countBound)
      stepTimeout := ← optional? timeout Duration.decode?
      allowOrphans := ← defaulted? orphans false asBool?
      stateDir := ← optional? stateDir asText?
      vars := ← defaulted? vars [] (asDictOf? toJson?)
      logging := ← defaulted? logging standardLogging decodeLogging? }
  | _ => none

/-- The settings of a YAML text. -/
def parse? (text : String) : Option Config := (Yaml.readDocument? text).bind decode?

/-- The settings as a value. -/
def encode (c : Config) : Json :=
  .obj [("max_concurrent_steps", Json.ofNat c.maxConcurrentSteps),
    ("step_timeout", (c.stepTimeout.map Duration.encode).getD .null),
    ("allow_orphans", .bool c.allowOrphans),
    ("state_dir", (c.stateDir.map Json.str).getD .null), ("variables", .obj c.vars),
    ("logging", .obj [("level", .str c.logging.level), ("format", .str c.logging.format)])]

/-- The settings of the engine. -/
def engine (c : Config) : EngineSettings := ⟨c.maxConcurrentSteps, c.stepTimeout, c.allowOrphans⟩

/-! ## Environment variables -/

/-- Whether a word says yes. -/
def isYes (word : String) : Bool :=
  ["1", "true", "yes"].contains (String.ofList (word.toList.map Char.toLower))

/-- The greatest number of concurrent steps that a text gives. -/
def readConcurrency (c : Config) (text : String) : Except ConfigError Config :=
  match (Number.readNat? text.toList).filter (· < countBound) with
  | some n => .ok { c with maxConcurrentSteps := n }
  | none => .error (.notANumber text)

/-- The time limit that a text gives. -/
def readTimeout (c : Config) (text : String) : Except ConfigError Config :=
  match Duration.read? text with
  | some d => .ok { c with stepTimeout := some d }
  | none => .error (.notADuration text)

/-- The environment variables that count, in order, and what each one sets. -/
def environment : List (String × (Config → String → Except ConfigError Config)) :=
  [("AGENTFLOW_LOG_LEVEL", fun c v => .ok { c with logging := { c.logging with level := v } }),
    ("AGENTFLOW_LOG_FORMAT", fun c v => .ok { c with logging := { c.logging with format := v } }),
    ("AGENTFLOW_MAX_CONCURRENT", readConcurrency),
    ("AGENTFLOW_STEP_TIMEOUT", readTimeout),
    ("AGENTFLOW_ALLOW_ORPHANS", fun c v => .ok { c with allowOrphans := isYes v }),
    ("AGENTFLOW_STATE_DIR", fun c v => .ok { c with stateDir := some v })]

/-- Set what variables say, in order and up to the first that is refused. -/
def mergeAll (lookup : String → Option String) (c : Config) :
    List (String × (Config → String → Except ConfigError Config)) → Config × Option ConfigError
  | [] => (c, none)
  | (name, set) :: rest =>
    match lookup name with
    | none => mergeAll lookup c rest
    | some value =>
      match set c value with
      | .ok c => mergeAll lookup c rest
      | .error e => (c, some e)

/-- The settings with environment variables, and the error if a variable is refused. -/
def mergeEnvironment (c : Config) (lookup : String → Option String) :
    Config × Option ConfigError := mergeAll lookup c environment

/-! ## Files -/

/-- The files that are looked for in the working directory, the first ones first. -/
def localFiles : List String :=
  ["agentflow.yaml", "agentflow.yml", ".agentflow.yaml", ".agentflow.yml"]

/-- The files that are looked for, given the home directory. -/
def locations (home : Option String) : List String :=
  localFiles ++ (home.map fun h => Path.join (Path.join h ".agentflow") "config.yaml").toList

variable {m : Type → Type} [Monad m] [FileSystem m]

/-- The first of some files that is there. -/
def firstPresent? : List String → m (Option String)
  | [] => return none
  | path :: rest => do
    if ← FileSystem.present path then return some path
    firstPresent? rest

/-- The settings of a file. -/
def readFile (path : String) : m (Except ConfigError Config) := do
  match ← FileSystem.read path with
  | .error _ => return .error (.unreadable path)
  | .ok text =>
    match parse? text with
    | some c => return .ok c
    | none => return .error (.invalid path)

/-- The settings of the file that is asked for or found, with environment variables. A file that
is not there counts as one that sets nothing. -/
def load (path : Option String) (lookup : String → Option String) (home : Option String) :
    m (Except ConfigError Config) := do
  let path? ←
    match path with
    | some p => do
      let isPresent ← FileSystem.present p
      pure (if isPresent then some p else none)
    | none => firstPresent? (locations home)
  let fromFile ←
    match path? with
    | some p => readFile p
    | none => pure (.ok standard)
  match fromFile with
  | .error e => return .error e
  | .ok c =>
    match c.mergeEnvironment lookup with
    | (c, none) => return .ok c
    | (_, some e) => return .error e

end Config

end Workflow

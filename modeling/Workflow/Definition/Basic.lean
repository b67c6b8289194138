/-
Workflow.Definition.Basic — definitions of workflows.

* `Settings` — settings that a workflow may bring for its own runs.
* `Definition` — a workflow: its name, variables, steps and settings.
* `Definition.structureError?` — what keeps a definition from being one.
* `Format` — the two written forms, told apart by file name or by content.
-/
import Workflow.Definition.Step
import Workflow.Files.Basic
import Workflow.Files.Path

namespace Workflow

/-- Settings that a workflow may bring for its own runs. -/
structure Settings where
  maxConcurrentSteps : Option Nat
  stepTimeout : Option Duration
deriving DecidableEq, Repr

/-- The definition of a workflow. -/
structure Definition where
  id : Option String
  name : String
  description : Option String
  version : String
  vars : Dict Json
  steps : List Step
  settings : Option Settings
deriving DecidableEq, Repr

/-- Why a text is no definition. -/
inductive DefinitionError where
  | unreadableFile (fault : FileFault)
  | badYaml
  | badJson
  | missingField (field : String)
  | noSteps
deriving DecidableEq, Repr

/-- The wording of an error, where it is the library's own. -/
def DefinitionError.message : DefinitionError → String
  | .unreadableFile fault => "Failed to read workflow file: " ++ fault.message
  | .badYaml => "Failed to parse YAML"
  | .badJson => "Failed to parse JSON"
  | .missingField field => "Missing required field: " ++ field
  | .noSteps => "Empty workflow: no steps defined"

namespace Definition

/-- The version of definitions that give none. -/
def defaultVersion : String := "1.0"

/-- What keeps a definition from being one: a blank name, no steps, or a step with a blank id. -/
def structureError? (w : Definition) : Option DefinitionError :=
  if Text.isBlankText w.name then some (.missingField "name")
  else if w.steps.isEmpty then some .noSteps
  else
    (w.steps.find? fun s => Text.isBlankText s.id).map fun s =>
      .missingField ("id (step '" ++ s.displayName ++ "')")

/-- The id of a workflow: the given one, or its name. -/
def workflowId (w : Definition) : String := w.id.getD w.name

/-- The first step with an id. -/
def step? (w : Definition) (id : String) : Option Step := w.steps.find? fun s => s.id = id

/-- The steps that list a step in `dependsOn`. -/
def dependents (w : Definition) (id : String) : List String :=
  (w.steps.filter fun s => s.dependsOn.contains id).map (·.id)

/-- The definition with further variables, which replace those of the same name. -/
def mergeVariables (w : Definition) (vars : Dict Json) : Definition :=
  { w with vars := Dict.insertAll w.vars vars }

end Definition

/-- The written forms of a definition. -/
inductive Format where
  | json
  | yaml
deriving DecidableEq, Repr

namespace Format

/-- The form of a file: JSON if its extension says so, YAML otherwise. -/
def ofPath (path : String) : Format :=
  match Path.extension? path with
  | some e => if e.toList.map Char.toLower == "json".toList then .json else .yaml
  | none => .yaml

/-- The form of a text: JSON if it starts with a brace, YAML otherwise. -/
def ofContent (text : String) : Format :=
  match Text.trimStart text.toList with
  | '\x7b' :: _ => .json
  | _ => .yaml

end Format

end Workflow

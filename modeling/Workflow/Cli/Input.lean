/-
Workflow.Cli.Input — what a run is given on the command line.

* `parseVariables` — variables from words with an equals sign.
* `loadInput` — the input, from a file or a word.
-/
import Workflow.Cli.Report
import Workflow.Json.Reader

namespace Workflow

/-- A variable: what stands before the first equals sign is its name. What stands behind it is its
value, which is a text unless it reads as a value of another kind. -/
def parseVariable (word : String) : Except CommandError (String × Json) :=
  match word.toList.dropWhile (· != '=') with
  | [] => .error (.badVariable word)
  | _ :: value =>
    let value := String.ofList value
    .ok (String.ofList (word.toList.takeWhile (· != '=')), (Json.read? value).getD (.str value))

/-- Variables; of two with one name the last counts. -/
def parseVariables (words : List String) : Except CommandError (Dict Json) :=
  (words.mapM parseVariable).map Dict.ofEntries

/-- The value of a text, or an error. -/
def readInput (e : CommandError) (text : String) : Except CommandError Json :=
  (Json.read? text).elim (.error e) .ok

/-- The input in a file, else the one given as a word, else nothing in braces. -/
def loadInput {m : Type → Type} [Monad m] [FileSystem m] (path inline : Option String) :
    m (Except CommandError Json) := do
  match path, inline with
  | some path, _ =>
    match ← FileSystem.read path with
    | .error _ => return .error (.unreadableInput path)
    | .ok text => return readInput (.badInputFile path) text
  | none, some text => return readInput .badInlineInput text
  | none, none => return .ok (.obj [])

end Workflow

/-
Workflow.Definition.Files — definitions in files.

The name of a file says in which form the definition is written.

* `Definition.load`, `Definition.save` — from a file and into one.
-/
import Workflow.Definition.Decode
import Workflow.Definition.Encode
import Workflow.Files.Basic

namespace Workflow.Definition

variable {m : Type → Type} [Monad m] [FileSystem m]

/-- The definition in a file. -/
def load (path : String) : m (Except DefinitionError Definition) := do
  match ← FileSystem.read path with
  | .error fault => return .error (.unreadableFile fault)
  | .ok text => return parse (Format.ofPath path) text

/-- Write a definition into a file. -/
def save (w : Definition) (path : String) : m (Except FileFault Unit) :=
  FileSystem.write path (w.toText (Format.ofPath path))

end Workflow.Definition

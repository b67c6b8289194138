/-
Workflow.Expr.Context — the data that expressions see.

An expression reaches data only through the eight roots `$json`, `$node`,
`$context`, `$now`, `$today`, `$timestamp`, `$workflow` and `$execution`.

* `DataContext` — the data behind the roots.
* `DataContext.root?` — the value of a root; unknown names have none.
-/
import Workflow.Json.Value
import Workflow.Time.Timestamp

namespace Workflow.Expr

/-- The data of one evaluation. -/
structure DataContext where
  /-- The current item of a loop, or the input of the run outside loops. -/
  json : Json
  /-- Outputs of finished steps by step id. -/
  node : Dict Json
  /-- The variables of the run. -/
  context : Dict Json
  workflow : Json
  execution : Json
  now : Instant

namespace DataContext

/-- The names of the roots. -/
def rootNames : List String :=
  ["json", "node", "context", "now", "today", "timestamp", "workflow", "execution"]

/-- The seconds since 1970 with milliseconds as a fraction. -/
def timestampSeconds (now : Instant) : Float := Number.ofInt now.millis / 1000.0

/-- The value of a root. -/
def root? (ctx : DataContext) (name : String) : Option Json :=
  match name with
  | "json" => some ctx.json
  | "node" => some (.obj ctx.node)
  | "context" => some (.obj ctx.context)
  | "now" => some (.str (Timestamp.write ctx.now))
  | "today" => some (.str (String.ofList (Timestamp.dateText ctx.now.date)))
  | "timestamp" => some (Json.ofFloat (timestampSeconds ctx.now))
  | "workflow" => some ctx.workflow
  | "execution" => some ctx.execution
  | _ => none

end DataContext

end Workflow.Expr

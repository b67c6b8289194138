/-
Workflow.Run.StepError — why an attempt of a step failed.

An error has a kind, which says where it arose, and a category, which says
what it is about. The category of an executor's error is found by the words
in its message; filters of error handlers name kinds and categories.

* `ErrorKind`, `ErrorCategory`, `StepError` — errors.
* `ErrorCategory.classify` — the category that a message suggests.
* `StepError.passes` — whether a filter lets an error through.
-/
import Workflow.Text.Case
import Workflow.Text.Search

namespace Workflow

/-- Where an error arose. -/
inductive ErrorKind where
  | evaluation
  | execution
  | timeout
deriving DecidableEq, Repr

namespace ErrorKind

/-- All kinds. -/
def all : List ErrorKind := [.evaluation, .execution, .timeout]

/-- The name of a kind. -/
def name : ErrorKind → String
  | .evaluation => "evaluation"
  | .execution => "execution"
  | .timeout => "timeout"

/-- The kind with a name. -/
def ofName? (s : String) : Option ErrorKind := all.find? fun k => k.name = s

end ErrorKind

/-- What an error is about. -/
inductive ErrorCategory where
  | network
  | timeout
  | authentication
  | validation
  | resourceLimit
  | businessLogic
  | unknown
deriving DecidableEq, Repr

namespace ErrorCategory

/-- All categories. -/
def all : List ErrorCategory :=
  [.network, .timeout, .authentication, .validation, .resourceLimit, .businessLogic, .unknown]

/-- The name of a category. -/
def name : ErrorCategory → String
  | .network => "network"
  | .timeout => "timeout"
  | .authentication => "authentication"
  | .validation => "validation"
  | .resourceLimit => "resource_limit"
  | .businessLogic => "business_logic"
  | .unknown => "unknown"

/-- The category with a name. -/
def ofName? (s : String) : Option ErrorCategory := all.find? fun c => c.name = s

/-- The words that suggest a category; earlier categories come first. -/
def keywords : List (ErrorCategory × List String) :=
  [(.timeout, ["timeout", "timed out", "deadline"]),
    (.network, ["connection", "network", "unreachable", "dns", "socket"]),
    (.authentication, ["unauthorized", "forbidden", "authentication", "api key", "401", "403"]),
    (.resourceLimit, ["rate limit", "quota", "too many requests", "429", "out of memory"]),
    (.validation, ["invalid", "validation", "missing", "required", "malformed"]),
    (.businessLogic, ["business", "rule", "policy", "not allowed"])]

/-- The first category that a message has a word of. -/
def classify (message : String) : ErrorCategory :=
  let text := (Text.toLower message).toList
  match keywords.find? fun (_, words) => words.any fun w => Text.occursIn w.toList text with
  | some (category, _) => category
  | none => .unknown

end ErrorCategory

/-- Why an attempt of a step failed. -/
structure StepError where
  kind : ErrorKind
  category : ErrorCategory
  message : String
deriving DecidableEq, Repr

namespace StepError

/-- An error with the category that its kind and message give. -/
def of (kind : ErrorKind) (message : String) : StepError :=
  let category :=
    match kind with
    | .timeout => .timeout
    | .evaluation => .validation
    | .execution => ErrorCategory.classify message
  ⟨kind, category, message⟩

/-- Whether two texts differ at most in the case of ASCII letters. -/
def sameWord (a b : String) : Bool := a.toList.map Char.toLower == b.toList.map Char.toLower

/-- Whether a filter lets an error through: it names the kind or the category, or nothing at
all. -/
def passes (e : StepError) (filter : List String) : Bool :=
  filter.isEmpty ||
    filter.any fun entry => sameWord entry e.kind.name || sameWord entry e.category.name

/-- Whether a further attempt may help. -/
def isRetryable (e : StepError) : Bool := e.kind != .evaluation

/-- The error in words. -/
def text (e : StepError) : String := e.kind.name ++ " error: " ++ e.message

end StepError

end Workflow

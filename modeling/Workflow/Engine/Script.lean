/-
Workflow.Engine.Script — how calls go.

A call takes some time, may have to pass a gate, and ends with an output, a
fault or a panic. A script lists the replies that the calls of a step get,
one after the other; calls beyond the script give back their input at once.

* `Reply` — how a call goes.
* `Performer` — who answers calls: scripts, or a registry of executors.
-/
import Workflow.Executor.Basic
import Workflow.Run.StepError

namespace Workflow

/-- How a call ends. -/
inductive Ending where
  | output (value : Dict Json)
  | fault (f : ExecutionFault)
  | panic
deriving DecidableEq, Repr

/-- What the scheduler is told about the end of a call. -/
def Ending.outcome : Ending → Except StepError (Dict Json)
  | .output value => .ok value
  | .fault f => .error (StepError.of .execution f.message)
  | .panic => .error (StepError.of .execution "step executor panicked")

/-- How a call goes: it sleeps for some milliseconds, passes a gate or not, and ends. -/
structure Reply where
  sleep : Nat
  gated : Bool
  ending : Ending
deriving DecidableEq, Repr

/-- A scripted ending. -/
inductive ScriptedEnding where
  | output (value : Dict Json)
  | failed (message : String)
  | invalidInput (message : String)
  | unsupported
  | panic
  | echo
deriving DecidableEq, Repr

/-- The ending of a call by script. -/
def ScriptedEnding.ending (call : Invocation) : ScriptedEnding → Ending
  | .output value => .output value
  | .failed message => .fault (.failed message)
  | .invalidInput message => .fault (.invalidInput message)
  | .unsupported => .fault (.unsupported call.kind)
  | .panic => .panic
  | .echo => .output call.input

/-- A scripted reply. -/
structure ScriptedReply where
  sleep : Nat
  gated : Bool
  ending : ScriptedEnding
deriving DecidableEq, Repr

/-- The replies to come, by step. -/
abbrev Scripts := Dict (List ScriptedReply)

/-- Who answers calls. -/
inductive Performer where
  | scripts (s : Scripts)
  | registry (r : Registry)

/-- The reply to a call, and who answers the next one. -/
def Performer.answer (p : Performer) (call : Invocation) : Reply × Performer :=
  match p with
  | .scripts s =>
    match Dict.find? s call.stepId with
    | some (r :: rest) =>
      (⟨r.sleep, r.gated, r.ending.ending call⟩, .scripts (Dict.insert s call.stepId rest))
    | _ => (⟨0, false, .output call.input⟩, p)
  | .registry r =>
    match r.execute call with
    | .ok value => (⟨0, false, .output value⟩, p)
    | .error f => (⟨0, false, .fault f⟩, p)

/-- Whether calls are noted down. -/
def Performer.takesNotes : Performer → Bool
  | .scripts _ => true
  | .registry _ => false

end Workflow

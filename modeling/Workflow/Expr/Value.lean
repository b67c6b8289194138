/-
Workflow.Expr.Value — how expressions look at values.

* `typeOf`, `truthy`, `textOf` — type, truth and text of a value.
* `looselyEqual` — equality, by which `1` and `1.0` are one number.
* `numberResult` — the value of a computed number: an integer when it is
  integral and below `2 ^ 53`, a double otherwise, never infinite.
-/
import Workflow.Expr.Error
import Workflow.Json.Writer

namespace Workflow.Expr

/-- The type of a value. -/
def typeOf : Json → ValueType
  | .null => .null
  | .bool _ => .boolean
  | .num _ => .number
  | .str _ => .string
  | .arr _ => .array
  | .obj _ => .object

/-- Whether a value counts as true: everything but `null`, `false`, zero and the empty text. -/
def truthy : Json → Bool
  | .null => false
  | .bool b => b
  | .num n => n.toFloat != 0.0 && !n.toFloat.isNaN
  | .str s => s != ""
  | .arr _ => true
  | .obj _ => true

/-- The text that stands for a value in a template. -/
def textOf : Json → String
  | .null => ""
  | .str s => s
  | v => v.compress

/-- The number of a value, for a purpose that a message names. -/
def asNumber (v : Json) (what : String) : Except EvaluationError Float :=
  match v with
  | .num n => .ok n.toFloat
  | _ => .error (.badType (.numberExpected what (typeOf v)))

/-- The text of a value, for a purpose that a message names. -/
def asText (v : Json) (what : String) : Except EvaluationError String :=
  match v with
  | .str s => .ok s
  | _ => .error (.badType (.stringExpected what (typeOf v)))

/-- Equality of values; numbers are compared as doubles. -/
def looselyEqual : Json → Json → Bool
  | .num a, .num b => a.toFloat == b.toFloat
  | a, b => a.alike b

/-- The bound below which integral results are integers. -/
def integerBound : Float := 9007199254740992.0

/-- The value of a computed number. -/
def numberResult (x : Float) : Except EvaluationError Json :=
  if Number.isIntegral x && x.abs < integerBound then
    .ok (.num (.int (Number.clampToInt (-(Int.pow 2 63)) (Int.pow 2 63 - 1) x)))
  else if x.isFinite then .ok (.num (.float x))
  else .error (.notFinite x)

end Workflow.Expr

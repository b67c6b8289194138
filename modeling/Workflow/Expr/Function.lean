/-
Workflow.Expr.Function — the functions that expressions may call.

Functions are pure and few: ten global ones, those of the `Math` and `Date`
namespaces, and methods of strings, arrays and numbers. Each checks the
number of its arguments first and then their types, from left to right.

* `callGlobal`, `callMath`, `callDate`, `callMethod` — calls by family.
* `mathConstant` — the constants of `Math`.
-/
import Workflow.Expr.Value
import Workflow.Number.Reading
import Workflow.Text.Blank
import Workflow.Text.Case
import Workflow.Text.Search
import Workflow.Time.Pattern

namespace Workflow.Expr

/-- The result of a call. -/
abbrev CallResult := Except EvaluationError Json

/-- The names of the global functions. -/
def globalFunctions : List String :=
  ["len", "str", "int", "float", "bool", "sum", "min", "max", "abs", "round"]

/-- An error about the arguments of a function. -/
def argumentError {α : Type} (function : String) (problem : ArgumentProblem) :
    Except EvaluationError α :=
  .error (.badArguments function problem)

/-- Check the number of arguments. -/
def checkCount (function : String) (args : List Json) (least most : Nat) :
    Except EvaluationError Unit :=
  if args.length < least ∨ args.length > most then
    argumentError function (.count least most args.length)
  else .ok ()

/-- The only argument. -/
def oneArgument (function : String) (args : List Json) : Except EvaluationError Json :=
  match args with
  | [v] => .ok v
  | _ => argumentError function (.count 1 1 args.length)

/-- A first argument and perhaps a second. -/
def oneOrTwoArguments (function : String) (args : List Json) :
    Except EvaluationError (Json × Option Json) :=
  match args with
  | [v] => .ok (v, none)
  | [v, w] => .ok (v, some w)
  | _ => argumentError function (.count 1 2 args.length)

/-- Two arguments. -/
def twoArguments (function : String) (args : List Json) : Except EvaluationError (Json × Json) :=
  match args with
  | [v, w] => .ok (v, w)
  | _ => argumentError function (.count 2 2 args.length)

/-- At most one argument. -/
def optionalArgument (function : String) (args : List Json) :
    Except EvaluationError (Option Json) :=
  match args with
  | [] => .ok none
  | [v] => .ok (some v)
  | _ => argumentError function (.count 0 1 args.length)

/-- The numbers of values, for a purpose that a message names. -/
def asNumbers (what : String) : List Json → Except EvaluationError (List Float)
  | [] => .ok []
  | v :: rest => do
    let x ← asNumber v what
    let xs ← asNumbers what rest
    return x :: xs

/-- Numbers given as one array or as separate arguments. -/
def numericOperands (function : String) (args : List Json) : Except EvaluationError (List Float) :=
  let values :=
    match args with
    | [.arr items] => items
    | _ => args
  if values.isEmpty then argumentError function .noValues else asNumbers function values

/-- The least of some numbers. -/
def leastOf (xs : List Float) : Float := xs.foldl Number.lesser (1.0 / 0.0)

/-- The greatest of some numbers. -/
def greatestOf (xs : List Float) : Float := xs.foldl Number.greater (-1.0 / 0.0)

/-- A number rounded at a decimal place, a half away from zero. -/
def roundTo (x : Float) (digits : Int) : Float :=
  let factor := Number.intPower 10.0 digits
  (x * factor).round / factor

/-- The number of a text, white space around it ignored. -/
def numberOfText (function text : String) : Except EvaluationError Float :=
  match Number.readFloat? (Text.trim text.toList) with
  | some x => .ok x
  | none => argumentError function (.notANumber text)

/-! ## Global functions -/

/-- The number of characters, items or entries. -/
def lengthOf : Json → CallResult
  | .str s => .ok (Json.ofNat s.toList.length)
  | .arr items => .ok (Json.ofNat items.length)
  | .obj fields => .ok (Json.ofNat fields.length)
  | v => .error (.badType (.undefinedFor "len" (typeOf v)))

/-- The integer part of a number, of a truth value as 0 or 1, or of a text. -/
def integerOf (v : Json) : CallResult :=
  match v with
  | .num n => numberResult (Number.truncate n.toFloat)
  | .bool b => numberResult (if b then 1.0 else 0.0)
  | .str s => do numberResult (Number.truncate (← numberOfText "int" s))
  | v => .error (.badType (.undefinedFor "int" (typeOf v)))

/-- The number of a number or of a text. -/
def floatOf (v : Json) : CallResult :=
  match v with
  | .num n => numberResult n.toFloat
  | .str s => do numberResult (← numberOfText "float" s)
  | v => .error (.badType (.undefinedFor "float" (typeOf v)))

/-- The sum of an array, from the left. -/
def sumOf (v : Json) : CallResult :=
  match v with
  | .arr items => do numberResult ((← asNumbers "sum" items).foldl (· + ·) 0.0)
  | v => .error (.badType (.arrayExpected "sum" (typeOf v)))

/-- The least and the greatest number of decimal places that rounding takes. -/
def roundingDigits (x : Float) : Int := Number.clampToInt (-(Int.pow 2 31)) (Int.pow 2 31 - 1) x

/-- A call of a global function. -/
def callGlobal (name : String) (args : List Json) : CallResult :=
  match name with
  | "len" => do lengthOf (← oneArgument name args)
  | "str" => do return .str (textOf (← oneArgument name args))
  | "int" => do integerOf (← oneArgument name args)
  | "float" => do floatOf (← oneArgument name args)
  | "bool" => do return .bool (truthy (← oneArgument name args))
  | "sum" => do sumOf (← oneArgument name args)
  | "min" => do numberResult (leastOf (← numericOperands name args))
  | "max" => do numberResult (greatestOf (← numericOperands name args))
  | "abs" => do
    let v ← oneArgument name args
    numberResult (← asNumber v name).abs
  | "round" => do
    let (v, places) ← oneOrTwoArguments name args
    let x ← asNumber v name
    let digits ← match places with
      | some d => do pure (roundingDigits (← asNumber d name))
      | none => pure 0
    numberResult (roundTo x digits)
  | _ => .error (.unknownFunction name)

/-! ## The `Math` namespace -/

/-- A constant of `Math`. -/
def mathConstant (name : String) : CallResult :=
  match name with
  | "PI" => numberResult 3.141592653589793
  | "E" => numberResult 2.718281828459045
  | _ => .error (.unknownIdentifier ("Math." ++ name))

/-- A function of one number. -/
def numberFunction (function : String) (f : Float → Float) (args : List Json) : CallResult := do
  let v ← oneArgument function args
  numberResult (f (← asNumber v function))

/-- A call of a function of `Math`. -/
def callMath (name : String) (args : List Json) : CallResult :=
  let full := "Math." ++ name
  match name with
  | "abs" => numberFunction full Float.abs args
  | "floor" => numberFunction full Float.floor args
  | "ceil" => numberFunction full Float.ceil args
  | "round" => numberFunction full Float.round args
  | "sqrt" => do
    let v ← oneArgument full args
    let x ← asNumber v full
    if x < 0.0 then argumentError full .negativeRoot else numberResult x.sqrt
  | "pow" => do
    let (v, w) ← twoArguments full args
    let base ← asNumber v full
    let exponent ← asNumber w full
    numberResult (base.pow exponent)
  | "min" => do numberResult (leastOf (← numericOperands full args))
  | "max" => do numberResult (greatestOf (← numericOperands full args))
  | _ => .error (.unknownFunction full)

/-! ## The `Date` namespace -/

/-- The milliseconds that a number denotes, its fraction dropped. -/
def wholeMillis (x : Float) : Int := Number.clampToInt (-(Int.pow 2 63)) (Int.pow 2 63 - 1) x

/-- The instant that a value denotes: milliseconds since 1970, a timestamp or a date. -/
def instantOf (function : String) (v : Json) : Except EvaluationError Instant :=
  match v with
  | .num n =>
    match Instant.ofMillis? (wholeMillis n.toFloat) with
    | some i => .ok i
    | none => argumentError function .timestampRange
  | .str s =>
    match Timestamp.read? s with
    | some i => .ok i
    | none =>
      match Timestamp.readDate? s with
      | some d => .ok (Instant.ofDate d 0 0)
      | none => argumentError function (.notADate s)
  | v => .error (.badType (.dateExpected function (typeOf v)))

/-- The pattern of dates that are formatted without one. -/
def defaultPattern : String := "%Y-%m-%d %H:%M:%S"

/-- A call of a function of `Date`, at a given time. -/
def callDate (name : String) (args : List Json) (now : Instant) : CallResult :=
  let full := "Date." ++ name
  match name with
  | "now" => do
    checkCount full args 0 0
    return Json.ofInt now.millis
  | "parse" => do
    let v ← oneArgument full args
    return Json.ofInt (← instantOf full v).millis
  | "format" => do
    let (v, form) ← oneOrTwoArguments full args
    let i ← instantOf full v
    let pattern ← match form with
      | some f => asText f full
      | none => pure defaultPattern
    match Pattern.format? pattern i with
    | some text => return .str text
    | none => argumentError full (.notADatePattern pattern)
  | _ => .error (.unknownFunction full)

/-! ## Methods -/

/-- A place in a text of a given length: negative places are the start, those beyond are the
end. -/
def placeIn (length : Nat) (x : Float) : Nat :=
  min (Number.clampToInt 0 (Int.pow 2 64 - 1) (Number.greater x 0.0)).toNat length

/-- A call of a method of strings; `none` if there is no such method. -/
def stringMethod (s method : String) (args : List Json) : Option CallResult :=
  let cs := s.toList
  match method with
  | "toUpperCase" => some do
    checkCount method args 0 0
    return .str (Text.toUpper s)
  | "toLowerCase" => some do
    checkCount method args 0 0
    return .str (Text.toLower s)
  | "trim" => some do
    checkCount method args 0 0
    return .str (Text.trimText s)
  | "toString" => some (.ok (.str s))
  | "split" => some do
    match ← optionalArgument method args with
    | none => return .arr [.str s]
    | some v =>
      let sep ← asText v method
      return .arr ((Text.splitOn sep.toList cs).map fun piece => .str (String.ofList piece))
  | "includes" => some do
    let needle ← asText (← oneArgument method args) method
    return .bool (Text.occursIn needle.toList cs)
  | "startsWith" => some do
    let start ← asText (← oneArgument method args) method
    return .bool (start.toList.isPrefixOf cs)
  | "endsWith" => some do
    let ending ← asText (← oneArgument method args) method
    return .bool (ending.toList.isSuffixOf cs)
  | "replace" => some do
    let (v, w) ← twoArguments method args
    let target ← asText v method
    let image ← asText w method
    return .str (String.ofList (Text.replaceFirst target.toList image.toList cs))
  | "substring" => some do
    let (v, w) ← oneOrTwoArguments method args
    let start := placeIn cs.length (← asNumber v method)
    let stop ← match w with
      | some e => do pure (placeIn cs.length (← asNumber e method))
      | none => pure cs.length
    let low := min start stop
    let high := max start stop
    return .str (String.ofList ((cs.drop low).take (high - low)))
  | _ => none

/-- A call of a method of arrays; `none` if there is no such method. -/
def arrayMethod (items : List Json) (method : String) (args : List Json) : Option CallResult :=
  match method with
  | "join" => some do
    let sep ← match ← optionalArgument method args with
      | some v => asText v method
      | none => pure ","
    return .str (String.intercalate sep (items.map textOf))
  | "includes" => some do
    let v ← oneArgument method args
    return .bool (items.any fun item => looselyEqual item v)
  | _ => none

/-- The greatest number of places that a number is written with. -/
def mostFixedDigits : Nat := 100

/-- A call of a method of numbers; `none` if there is no such method. -/
def numberMethod (n : Json.Num) (method : String) (args : List Json) : Option CallResult :=
  match method with
  | "toFixed" => some do
    let digits ← match ← optionalArgument method args with
      | some d => asNumber d method
      | none => pure 0.0
    if 0.0 ≤ digits && digits ≤ 100.0 then
      let places := (Number.clampToInt 0 mostFixedDigits digits).toNat
      return .str (Number.fixedText places n.toFloat)
    else argumentError method (.digitsRange mostFixedDigits)
  | "toString" => some (.ok (.str n.text))
  | _ => none

/-- A call of a method of a value. -/
def callMethod (target : Json) (method : String) (args : List Json) : CallResult :=
  let found :=
    match target with
    | .str s => stringMethod s method args
    | .arr items => arrayMethod items method args
    | .num n => numberMethod n method args
    | _ => none
  found.getD (.error (.unknownMethod method (typeOf target)))

end Workflow.Expr

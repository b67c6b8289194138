/-
Workflow.Time.Duration — lengths of time.

A duration is a whole number of nanoseconds. People write it as numbers
with units, `1m 30s`, and it is written back with the largest units first.

* `Duration` — a length of time; `Duration.limit` bounds what can be read.
* `Duration.read?` — from numbers with units.
* `Duration.write` — to numbers with units.
* `Duration.shown` — as one decimal number, for messages.
* `Duration.toFloat`, `Duration.ofFloat` — to and from seconds.
-/
import Workflow.Number.Decimal
import Workflow.Text.Blank

namespace Workflow

/-- A length of time in nanoseconds. -/
structure Duration where
  nanos : Nat
deriving DecidableEq, Repr

namespace Duration

/-- The nanoseconds of a second. -/
def secondNanos : Nat := 1000000000

/-- A duration of whole seconds. -/
def ofSeconds (n : Nat) : Duration := ⟨n * secondNanos⟩

/-- A duration of whole milliseconds. -/
def ofMillis (n : Nat) : Duration := ⟨n * 1000000⟩

/-- The whole seconds. -/
def seconds (d : Duration) : Nat := d.nanos / secondNanos

/-- The nanoseconds beyond the whole seconds. -/
def subsecond (d : Duration) : Nat := d.nanos % secondNanos

/-- The whole milliseconds. -/
def millis (d : Duration) : Nat := d.nanos / 1000000

/-- The milliseconds, where a part of one counts as a whole one. -/
def millisUp (d : Duration) : Nat := (d.nanos + 999999) / 1000000

/-- Counts in durations stay below this bound. -/
def limit : Nat := Nat.pow 2 64

/-! ## Reading -/

/-- Units of time. -/
inductive Unit where
  | nanosecond
  | microsecond
  | millisecond
  | second
  | minute
  | hour
  | day
  | week
  | month
  | year
deriving DecidableEq, Repr

/-- The unit of a word. -/
def unit? (word : String) : Option Unit :=
  if ["nanos", "nsec", "ns"].contains word then some .nanosecond
  else if ["usec", "us", "µs"].contains word then some .microsecond
  else if ["millis", "msec", "ms"].contains word then some .millisecond
  else if ["seconds", "second", "secs", "sec", "s"].contains word then some .second
  else if ["minutes", "minute", "min", "mins", "m"].contains word then some .minute
  else if ["hours", "hour", "hr", "hrs", "h"].contains word then some .hour
  else if ["days", "day", "d"].contains word then some .day
  else if ["weeks", "week", "wk", "wks", "w"].contains word then some .week
  else if ["months", "month", "M"].contains word then some .month
  else if ["years", "year", "yr", "yrs", "y"].contains word then some .year
  else none

/-- What a unit is counted in: `true` for seconds and `false` for nanoseconds, and how many of
them it has. A month has 30.44 days and a year 365.25. -/
def Unit.size : Unit → Bool × Nat
  | .nanosecond => (false, 1)
  | .microsecond => (false, 1000)
  | .millisecond => (false, 1000000)
  | .second => (true, 1)
  | .minute => (true, 60)
  | .hour => (true, 3600)
  | .day => (true, 86400)
  | .week => (true, 604800)
  | .month => (true, 2630016)
  | .year => (true, 31557600)

/-- What a fraction of a unit is counted in; fractions of minutes go down to nanoseconds and those
of longer units to seconds. A nanosecond has no fractions. -/
def Unit.fractionSize : Unit → Option (Bool × Nat)
  | .nanosecond => none
  | .second => some (false, 1000000000)
  | .minute => some (false, 60000000000)
  | u => some u.size

/-- Keep a count below the limit. -/
def bounded? (n : Nat) : Option Nat := if n < limit then some n else none

/-- Add a count of seconds or of nanoseconds. -/
def add? (d : Duration) (inSeconds : Bool) (count : Nat) : Option Duration := do
  let count ← bounded? count
  let total : Duration := ⟨d.nanos + if inSeconds then count * secondNanos else count⟩
  let _ ← bounded? total.seconds
  return total

/-- A number read: the whole part, and numerator and denominator of a fraction. -/
structure Amount where
  whole : Nat
  fraction : Option (Nat × Nat)

/-- Add an amount of a unit. A fraction must come out even. -/
def addAmount? (d : Duration) (amount : Amount) (unit : Unit) : Option Duration := do
  let (inSeconds, size) := unit.size
  let d ← d.add? inSeconds (amount.whole * size)
  match amount.fraction with
  | none => return d
  | some (numerator, denominator) =>
    let (inSeconds, size) ← unit.fractionSize
    let scaled ← bounded? (numerator * size)
    if scaled % denominator = 0 then d.add? inSeconds (scaled / denominator) else none

/-- Letters of units. -/
def isUnitChar (c : Char) : Bool := c.isAlpha || c == 'µ'

/-- The value of a digit. -/
def digitValue (c : Char) : Nat := c.toNat - '0'.toNat

/-- Where reading stands: between amounts, in the whole part of a number, in its fraction, or in a
unit, whose letters come last first. -/
inductive ReadState where
  | between (d : Duration)
  | whole (d : Duration) (n : Nat)
  | fraction (d : Duration) (n numerator denominator : Nat)
  | unit (d : Duration) (amount : Amount) (word : List Char)

/-- Close an amount with the letters of its unit. -/
def closeAmount? (d : Duration) (amount : Amount) (word : List Char) : Option Duration :=
  (unit? (String.ofList word.reverse)).bind (d.addAmount? amount)

/-- Take one character. White space may stand within numbers, and ends a unit. -/
def readStep (state : ReadState) (c : Char) : Option ReadState :=
  match state with
  | .between d =>
    if c.isDigit then some (.whole d (digitValue c))
    else if Text.isBlank c then some (.between d)
    else none
  | .whole d n =>
    if c.isDigit then (bounded? (10 * n + digitValue c)).map (.whole d)
    else if Text.isBlank c then some (.whole d n)
    else if isUnitChar c then some (.unit d ⟨n, none⟩ [c])
    else if c == '.' then some (.fraction d n 0 1)
    else none
  | .fraction d n numerator denominator =>
    if c.isDigit then do
      let denominator ← bounded? (10 * denominator)
      let numerator ← bounded? (10 * numerator + digitValue c)
      return .fraction d n numerator denominator
    else if Text.isBlank c then some (.fraction d n numerator denominator)
    else if isUnitChar c && denominator != 1 then
      some (.unit d ⟨n, some (numerator, denominator)⟩ [c])
    else none
  | .unit d amount word =>
    if c.isDigit then (closeAmount? d amount word).map (.whole · (digitValue c))
    else if Text.isBlank c then (closeAmount? d amount word).map .between
    else if isUnitChar c then some (.unit d amount (c :: word))
    else none

/-- The duration of a text. A zero alone needs no unit. -/
def read? (text : String) : Option Duration :=
  if text == "0" then some ⟨0⟩
  else
    match text.toList.foldlM readStep (.between ⟨0⟩) with
    | some (.between d) => if text.toList.any Char.isDigit then some d else none
    | some (.unit d amount word) => closeAmount? d amount word
    | _ => none

/-! ## Writing -/

/-- A count with its unit, and an `s` behind a plural where the unit is a word. -/
def part (isWord : Bool) (unit : String) (n : Nat) : List String :=
  if n = 0 then []
  else [toString n ++ unit ++ (if isWord ∧ n > 1 then "s" else "")]

/-- The duration as counts of units, the largest first. -/
def write (d : Duration) : String :=
  let s := d.seconds
  let n := d.subsecond
  let inYear := s % 31557600
  let inMonth := inYear % 2630016
  let inDay := inMonth % 86400
  let parts :=
    part true "year" (s / 31557600) ++ part true "month" (inYear / 2630016) ++
    part true "day" (inMonth / 86400) ++ part false "h" (inDay / 3600) ++
    part false "m" (inDay % 3600 / 60) ++ part false "s" (inDay % 60) ++
    part false "ms" (n / 1000000) ++ part false "us" (n / 1000 % 1000) ++
    part false "ns" (n % 1000)
  if d.nanos = 0 then "0s" else String.intercalate " " parts

/-- A whole part and a fraction of `digits` places without zeros at its end. -/
def decimalText (whole fraction digits : Nat) : String :=
  let cs := Nat.toDigits 10 fraction
  let padded := List.replicate (digits - cs.length) '0' ++ cs
  let kept := (padded.reverse.dropWhile (· == '0')).reverse
  toString whole ++ (if kept.isEmpty then "" else String.ofList ('.' :: kept))

/-- The duration in the largest unit, from seconds down, that it reaches. -/
def shown (d : Duration) : String :=
  let n := d.subsecond
  if d.seconds > 0 then decimalText d.seconds n 9 ++ "s"
  else if n ≥ 1000000 then decimalText (n / 1000000) (n % 1000000) 6 ++ "ms"
  else if n ≥ 1000 then decimalText (n / 1000) (n % 1000) 3 ++ "µs"
  else toString n ++ "ns"

/-! ## Seconds as doubles -/

/-- The seconds as a double. -/
def toFloat (d : Duration) : Float :=
  Number.ofInt d.seconds + Number.ofInt d.subsecond / 1000000000.0

/-- The duration nearest to a number of seconds that is finite and not negative; a tie goes to the
even number of nanoseconds. -/
def ofFloat (x : Float) : Duration :=
  let b := Number.Binary64.ofFloat x
  if b.exponent ≥ 0 then ⟨b.mantissa * Nat.pow 2 b.exponent.toNat * secondNanos⟩
  else ⟨Number.roundDiv (b.mantissa * secondNanos) (Nat.pow 2 (-b.exponent).toNat)⟩

end Duration

end Workflow

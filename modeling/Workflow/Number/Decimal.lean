/-
Workflow.Number.Decimal — decimal text of doubles.

A double is written with the fewest digits that read back as the same
double; among those, the digits nearest to its exact value. How the digits
are laid out (where positional notation ends, how an exponent is written)
is a `Layout`, one value for each format of the program.

* `shortestDigits` — the digits and the power of ten they are counted in.
* `Layout` — the decisions of a format.
* `Layout.render` — a finite double in a format.
* `fixedText` — a double with a given number of places, a tie to even.
-/
import Workflow.Number.Binary64

namespace Workflow.Number

/-! ## The fewest digits that read back -/

/-- The reals that round to `mantissa · 2 ^ exponent`, as fractions over `den`: the value lies
strictly between `low` and `high`, which belong to the interval when `closed`. -/
structure RoundingInterval where
  low : Nat
  value : Nat
  high : Nat
  den : Nat
  closed : Bool

/-- The interval of a positive double. Below a power of two the doubles lie twice as dense, so
there the lower half is half as wide. -/
def RoundingInterval.of (mantissa : Nat) (exponent : Int) : RoundingInterval :=
  let narrow := mantissa = Nat.pow 2 fractionBits ∧ exponent > leastExponent
  let unit := exponent - 2
  let scale := if unit ≥ 0 then Nat.pow 2 unit.toNat else 1
  let den := if unit ≥ 0 then 1 else Nat.pow 2 (-unit).toNat
  { low := (4 * mantissa - (if narrow then 1 else 2)) * scale
    value := 4 * mantissa * scale
    high := (4 * mantissa + 2) * scale
    den
    closed := mantissa % 2 = 0 }

/-- Whether `digits · 10 ^ power` lies in the interval. -/
def RoundingInterval.covers (i : RoundingInterval) (digits : Nat) (power : Int) : Bool :=
  let n := if power ≥ 0 then digits * Nat.pow 10 power.toNat * i.den else digits * i.den
  let s := if power ≥ 0 then 1 else Nat.pow 10 (-power).toNat
  if i.closed then i.low * s ≤ n && n ≤ i.high * s else i.low * s < n && n < i.high * s

/-- The value counted in units of `10 ^ power`, as a fraction. -/
def RoundingInterval.inPowers (i : RoundingInterval) (power : Int) : Nat × Nat :=
  if power ≥ 0 then (i.value, i.den * Nat.pow 10 power.toNat)
  else (i.value * Nat.pow 10 (-power).toNat, i.den)

/-- The neighbour of the value on the grid of `10 ^ power` that lies in the interval, the nearer
one if both do. -/
def RoundingInterval.onGrid? (i : RoundingInterval) (power : Int) : Option Nat :=
  let (n, d) := i.inPowers power
  let near := roundDiv n d
  let below := n / d
  let other := if near = below then below + 1 else below
  if i.covers near power then some near
  else if i.covers other power then some other
  else none

/-- The coarsest of the grids from `10 ^ power` down that has a point in the interval. -/
def RoundingInterval.search (i : RoundingInterval) : Nat → Int → Nat × Int
  | 0, power => let (n, d) := i.inPowers power; (roundDiv n d, power)
  | fuel + 1, power =>
    match i.onGrid? power with
    | some 0 => i.search fuel (power - 1)
    | some digits => (digits, power)
    | none => i.search fuel (power - 1)

/-- The least `e` with `num / den < 10 ^ e`, from a guess that is not above it. -/
def decimalSizeFrom (num den : Nat) : Nat → Int → Int
  | 0, e => e
  | fuel + 1, e =>
    let reached :=
      if e ≥ 0 then num < den * Nat.pow 10 e.toNat else num * Nat.pow 10 (-e).toNat < den
    if reached then e else decimalSizeFrom num den fuel (e + 1)

/-- The place of the leading digit of `num / den`: the least `e` with `num / den < 10 ^ e`. -/
def decimalSize (num den : Nat) : Int :=
  let bits : Int := (num.log2 : Int) - den.log2
  decimalSizeFrom num den 8 (bits * 30103 / 100000 - 1)

/-- Drop the zeros at the end of a numeral. -/
def dropZeros : Nat → Nat → Int → Nat × Int
  | 0, digits, power => (digits, power)
  | fuel + 1, digits, power =>
    if digits ≠ 0 ∧ digits % 10 = 0 then dropZeros fuel (digits / 10) (power + 1)
    else (digits, power)

/-- The fewest digits that read back as the positive double `mantissa · 2 ^ exponent`, and the
power of ten that they count. -/
def shortestDigits (mantissa : Nat) (exponent : Int) : Nat × Int :=
  let i := RoundingInterval.of mantissa exponent
  let (digits, power) := i.search 18 (decimalSize i.value i.den)
  dropZeros 20 digits power

/-! ## Layouts -/

/-- How the digits of a double are written. A number is positional when the place of its leading
digit (1 for units) lies from `plainFrom` to `plainTo`. -/
structure Layout where
  plainFrom : Int
  plainTo : Int
  /-- Whether a positional number without a fraction ends in `.0`. -/
  keepsPoint : Bool
  /-- What stands before the digits of a positive exponent. -/
  positiveMark : String
deriving Repr

/-- The digits of a natural number as characters. -/
def decimalDigits (n : Nat) : List Char := Nat.toDigits 10 n

/-- Digits and power in positional notation. -/
def Layout.positional (layout : Layout) (digits : List Char) (power : Int) : List Char :=
  if power ≥ 0 then
    digits ++ List.replicate power.toNat '0' ++ (if layout.keepsPoint then ['.', '0'] else [])
  else
    let places := (-power).toNat
    if digits.length > places then
      digits.take (digits.length - places) ++ '.' :: digits.drop (digits.length - places)
    else '0' :: '.' :: List.replicate (places - digits.length) '0' ++ digits

/-- Digits and power in scientific notation: one digit, the fraction if there is one, and the
exponent. -/
def Layout.scientific (layout : Layout) (digits : List Char) (power : Int) : List Char :=
  let exponent := power + digits.length - 1
  let mark := if exponent < 0 then ['-'] else layout.positiveMark.toList
  let fraction := if digits.length > 1 then '.' :: digits.drop 1 else []
  digits.take 1 ++ fraction ++ 'e' :: mark ++ decimalDigits exponent.natAbs

/-- A finite double in a layout. -/
def Layout.render (layout : Layout) (x : Float) : String :=
  let b := Binary64.ofFloat x
  let sign := if b.negative then ['-'] else []
  let body :=
    if b.mantissa = 0 then layout.positional ['0'] 0
    else
      let (n, power) := shortestDigits b.mantissa b.exponent
      let digits := decimalDigits n
      let place := power + digits.length
      if layout.plainFrom ≤ place ∧ place ≤ layout.plainTo then layout.positional digits power
      else layout.scientific digits power
  String.ofList (sign ++ body)

/-- The text of an infinite double or of one that is not a number. -/
def nonFiniteText (x : Float) : String :=
  if x.isNaN then "NaN" else if x < 0 then "-inf" else "inf"

/-! ## A given number of places -/

/-- A finite double with `places` digits after the point, rounded from its exact value, a tie to
the even digit. The sign stays, also in front of a zero. -/
def fixedText (places : Nat) (x : Float) : String :=
  let b := Binary64.ofFloat x
  let n := b.mantissa * Nat.pow 10 places
  let scaled :=
    if b.exponent ≥ 0 then n * Nat.pow 2 b.exponent.toNat
    else roundDiv n (Nat.pow 2 (-b.exponent).toNat)
  let digits := decimalDigits scaled
  let padded := List.replicate (places + 1 - digits.length) '0' ++ digits
  let whole := padded.take (padded.length - places)
  let fraction := padded.drop (padded.length - places)
  String.ofList ((if b.negative then ['-'] else []) ++ whole ++
    (if places = 0 then [] else '.' :: fraction))

end Workflow.Number

/-
Workflow.Number.Binary64 — double-precision numbers as exact fractions.

A finite double is `± mantissa · 2 ^ exponent` with natural mantissa. The
module takes a double apart, rounds an exact fraction to the nearest double
(a tie goes to the even mantissa) and builds on the two the operations that
need exact arithmetic.

* `Binary64.ofFloat` — the parts of a finite double.
* `Bits64` — a double by its bits; `Bits64.isBelowOne` compares it.
* `nearest` — the double nearest to a fraction.
* `nearestDecimal` — the double nearest to a decimal numeral.
* `roundDiv` — a quotient rounded to the nearest natural number.
* `remainder` — the exact remainder of a truncated division.
-/

namespace Workflow.Number

/-- A finite double, `mantissa · 2 ^ exponent` with a sign. -/
structure Binary64 where
  negative : Bool
  mantissa : Nat
  exponent : Int
deriving DecidableEq, Repr

/-- The fraction bits of a double. -/
def fractionBits : Nat := 52

/-- The exponent of the least positive double, `2 ^ -1074`. -/
def leastExponent : Int := -1074

/-- The parts of a finite double, read off its bits. A zero exponent field marks a number below
the normal range, whose mantissa has no leading one. -/
def Binary64.ofFloat (x : Float) : Binary64 :=
  let bits := x.toBits.toNat
  let fraction : Nat := bits % Nat.pow 2 fractionBits
  let field : Nat := bits / Nat.pow 2 fractionBits % Nat.pow 2 11
  let negative := bits / Nat.pow 2 63 == 1
  if field = 0 then ⟨negative, fraction, leastExponent⟩
  else ⟨negative, fraction + Nat.pow 2 fractionBits, (field : Int) - 1 + leastExponent⟩

/-- `num / den` rounded to the nearest natural number, a tie to the even one. -/
def roundDiv (num den : Nat) : Nat :=
  let q := num / den
  let r := num % den
  if 2 * r > den ∨ (2 * r = den ∧ q % 2 = 1) then q + 1 else q

/-- The bits of positive infinity. -/
def infinityBits : Nat := 0x7FF * Nat.pow 2 fractionBits

/-- A double, known by its bits. -/
structure Bits64 where
  bits : UInt64
deriving DecidableEq, Repr

namespace Bits64

/-- The bits of a double. -/
def ofFloat (x : Float) : Bits64 := ⟨x.toBits⟩

/-- The double with given bits. -/
def toFloat (x : Bits64) : Float := Float.ofBits x.bits

/-- The bits of one. -/
def one : Bits64 := ⟨0x3FF0000000000000⟩

/-- The bits of two. -/
def two : Bits64 := ⟨0x4000000000000000⟩

/-- Whether a double is less than one. Doubles of one sign are in the order of their bits; what has
greater bits than infinity is not a number. -/
def isBelowOne (x : Bits64) : Bool :=
  let size := x.bits.toNat % Nat.pow 2 63
  if x.bits.toNat / Nat.pow 2 63 = 1 then size ≤ infinityBits else size < one.bits.toNat

end Bits64

/-- A double from the bits of its absolute value and its sign. -/
def withSign (negative : Bool) (bits : Nat) : Float :=
  Float.ofBits (UInt64.ofNat (if negative then bits + Nat.pow 2 63 else bits))

/-- The fraction `num / den` counted in units of `2 ^ exponent`. -/
def inUnits (num den : Nat) (exponent : Int) : Nat × Nat :=
  if exponent ≥ 0 then (num, den * Nat.pow 2 exponent.toNat)
  else (num * Nat.pow 2 (-exponent).toNat, den)

/-- The exponent at which `num / den` has 53 mantissa bits, or the least one. -/
def mantissaExponent (num den : Nat) : Int :=
  let guess : Int := (num.log2 : Int) - den.log2 - fractionBits
  let (n, d) := inUnits num den guess
  let exact := if n < d * Nat.pow 2 fractionBits then guess - 1 else guess
  max exact leastExponent

/-- The double nearest to `num / den`, with the given sign; beyond the greatest double it is
infinite. Mantissa and exponent field lie side by side in the bits, so a mantissa that rounds up
to the next power of two carries into the exponent by itself. -/
def nearest (negative : Bool) (num den : Nat) : Float :=
  if num = 0 then withSign negative 0
  else
    let exponent := mantissaExponent num den
    let (n, d) := inUnits num den exponent
    let bits := (exponent - leastExponent).toNat * Nat.pow 2 fractionBits + roundDiv n d
    withSign negative (min bits infinityBits)

/-- The number of decimal digits of a natural number. -/
def digitCount (n : Nat) : Nat := (Nat.toDigits 10 n).length

/-- The double nearest to `digits · 10 ^ exponent`. Numerals far outside the range of doubles are
settled by their size alone. -/
def nearestDecimal (negative : Bool) (digits : Nat) (exponent : Int) : Float :=
  let size := exponent + digitCount digits
  if digits = 0 ∨ size < -400 then withSign negative 0
  else if size > 400 then withSign negative infinityBits
  else if exponent ≥ 0 then nearest negative (digits * Nat.pow 10 exponent.toNat) 1
  else nearest negative digits (Nat.pow 10 (-exponent).toNat)

/-- The remainder of a division truncated toward zero; it has the sign of the dividend and is
exact. Both operands are finite and the divisor is not zero. -/
def finiteRemainder (x y : Float) : Float :=
  let a := Binary64.ofFloat x
  let b := Binary64.ofFloat y
  let unit := min a.exponent b.exponent
  let n := a.mantissa * Nat.pow 2 (a.exponent - unit).toNat
  let d := b.mantissa * Nat.pow 2 (b.exponent - unit).toNat
  let r := n % d
  if unit ≥ 0 then nearest a.negative (r * Nat.pow 2 unit.toNat) 1
  else nearest a.negative r (Nat.pow 2 (-unit).toNat)

/-- The remainder of a truncated division of any two doubles. -/
def remainder (x y : Float) : Float :=
  if x.isNaN || y.isNaN || x.isInf || y == 0 then 0.0 / 0.0
  else if y.isInf then x
  else finiteRemainder x y

/-- The integer part, toward zero. -/
def truncate (x : Float) : Float := if x < 0 then x.ceil else x.floor

/-- Whether a number is finite and has no fraction. -/
def isIntegral (x : Float) : Bool := x.isFinite && truncate x == x

/-- Repeated squaring, the partial product first. -/
def powerLoop : Nat → Float → Float → Nat → Float
  | 0, r, _, _ => r
  | fuel + 1, r, a, n =>
    let r := if n % 2 = 1 then r * a else r
    if n / 2 = 0 then r else powerLoop fuel r (a * a) (n / 2)

/-- An integer power by repeated squaring; a negative power is the reciprocal of the positive. -/
def intPower (a : Float) (n : Int) : Float :=
  let r := powerLoop (n.natAbs + 1) 1.0 a n.natAbs
  if n < 0 then 1.0 / r else r

/-- The lesser of two numbers; one that is not a number gives way to the other. -/
def lesser (x y : Float) : Float :=
  if x.isNaN then y else if y.isNaN then x else if y < x then y else x

/-- The greater of two numbers; one that is not a number gives way to the other. -/
def greater (x y : Float) : Float :=
  if x.isNaN then y else if y.isNaN then x else if x < y then y else x

/-- The integer that a double comes nearest to from below in size, held within `low` and `high`;
what is not a number counts as zero. -/
def clampToInt (low high : Int) (x : Float) : Int :=
  if x.isNaN then 0
  else if x.isInf then (if x < 0 then low else high)
  else
    let b := Binary64.ofFloat x
    let size : Nat :=
      if b.exponent ≥ 0 then b.mantissa * Nat.pow 2 b.exponent.toNat
      else b.mantissa / Nat.pow 2 (-b.exponent).toNat
    let value : Int := if b.negative then -(size : Int) else size
    max low (min high value)

/-- The double nearest to an integer. -/
def ofInt (n : Int) : Float := nearest (n < 0) n.natAbs 1

end Workflow.Number

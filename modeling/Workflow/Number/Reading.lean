/-
Workflow.Number.Reading — numbers from decimal text.

* `readNat?` — the number of a text of digits.
* `readFloat?` — the double of a text: an optional sign and then either a
  numeral (digits with at most one point and at least one digit, and an
  optional exponent) or one of the words `inf`, `infinity` and `nan` in any
  case. The result is the double nearest to the numeral, infinite beyond
  the range.
-/
import Workflow.Number.Binary64

namespace Workflow.Number

/-- The number that decimal digits denote. -/
def digitsValue (digits : List Char) : Nat :=
  digits.foldl (fun n c => 10 * n + (c.toNat - '0'.toNat)) 0

/-- The natural number of a whole text of digits, perhaps behind a plus sign. -/
def readNat? (cs : List Char) : Option Nat :=
  let digits :=
    match cs with
    | '+' :: rest => rest
    | rest => rest
  if digits.isEmpty || !digits.all Char.isDigit then none else some (digitsValue digits)

/-- An unsigned numeral: digits before and after the point and the exponent. -/
structure Numeral where
  whole : List Char
  fraction : List Char
  exponent : Int
deriving DecidableEq, Repr

/-- The digits after an exponent mark, with an optional sign; there is at least one. -/
def readExponent? (cs : List Char) : Option Int :=
  let (negative, digits) :=
    match cs with
    | '-' :: rest => (true, rest)
    | '+' :: rest => (false, rest)
    | rest => (false, rest)
  if digits.isEmpty || !digits.all Char.isDigit then none
  else
    let n := digitsValue digits
    some (if negative then -(n : Int) else n)

/-- A numeral that fills the text. -/
def readNumeral? (cs : List Char) : Option Numeral :=
  let whole := cs.takeWhile Char.isDigit
  let afterWhole := cs.dropWhile Char.isDigit
  let (fraction, afterFraction) :=
    match afterWhole with
    | '.' :: rest => (rest.takeWhile Char.isDigit, rest.dropWhile Char.isDigit)
    | rest => ([], rest)
  if whole.isEmpty && fraction.isEmpty then none
  else
    match afterFraction with
    | [] => some ⟨whole, fraction, 0⟩
    | c :: rest =>
      if c == 'e' || c == 'E' then (readExponent? rest).map fun e => ⟨whole, fraction, e⟩
      else none

/-- The double nearest to a numeral. -/
def Numeral.toFloat (numeral : Numeral) (negative : Bool) : Float :=
  nearestDecimal negative (digitsValue (numeral.whole ++ numeral.fraction))
    (numeral.exponent - numeral.fraction.length)

/-- A double that fills the text. -/
def readFloat? (cs : List Char) : Option Float :=
  let (negative, body) :=
    match cs with
    | '-' :: rest => (true, rest)
    | '+' :: rest => (false, rest)
    | rest => (false, rest)
  match String.ofList (body.map Char.toLower) with
  | "inf" | "infinity" => some (withSign negative infinityBits)
  | "nan" => some (0.0 / 0.0)
  | _ => (readNumeral? body).map (·.toFloat negative)

end Workflow.Number

/-
Workflow.Time.Timestamp — instants as text.

A timestamp is `2024-03-09T14:30:00.5+00:00`: date, `T`, time of day with
an optional fraction, and the offset from universal time. Years outside
four digits carry a sign. A date alone stands for its first second.

* `Timestamp.write`, `Timestamp.writeUniversal` — the text of an instant.
* `Timestamp.read?`, `Timestamp.readLoose?` — the instant of a strict or of a
  loose timestamp.
* `Timestamp.readDate?` — the date of a text such as `2024-3-9`.
-/
import Workflow.Time.Calendar
import Workflow.Text.Blank

namespace Workflow.Timestamp

/-- A natural number with leading zeros up to a width. -/
def zeroPadded (width n : Nat) : List Char :=
  let digits := Nat.toDigits 10 n
  List.replicate (width - digits.length) '0' ++ digits

/-- A number with its sign in front and zeros up to a width, sign included. -/
def signedPadded (width : Nat) (n : Int) : List Char :=
  (if n < 0 then '-' else '+') :: zeroPadded (width - 1) n.natAbs

/-- A year: four digits, or a sign and at least four digits. -/
def yearText (year : Int) : List Char :=
  if 0 ≤ year ∧ year ≤ 9999 then zeroPadded 4 year.toNat else signedPadded 5 year

/-- A date with dashes. -/
def dateText (d : Date) : List Char :=
  yearText d.year ++ '-' :: zeroPadded 2 d.month ++ '-' :: zeroPadded 2 d.day

/-- The fraction of a second in as many of three, six or nine digits as it needs. -/
def fractionText (nanos : Nat) : List Char :=
  if nanos = 0 then []
  else if nanos % 1000000 = 0 then '.' :: zeroPadded 3 (nanos / 1000000)
  else if nanos % 1000 = 0 then '.' :: zeroPadded 6 (nanos / 1000)
  else '.' :: zeroPadded 9 nanos

/-- A time of day with colons. -/
def clockText (i : Instant) : List Char :=
  let (h, m, s) := i.clock
  zeroPadded 2 h ++ ':' :: zeroPadded 2 m ++ ':' :: zeroPadded 2 s

/-- Date, time and fraction. -/
def localText (i : Instant) : List Char :=
  dateText i.date ++ 'T' :: clockText i ++ fractionText i.subsecond

/-- The timestamp of an instant, with the offset in digits. -/
def write (i : Instant) : String := String.ofList (localText i ++ "+00:00".toList)

/-- The timestamp of an instant, with `Z` for the offset. -/
def writeUniversal (i : Instant) : String := String.ofList (localText i ++ ['Z'])

/-! ## Reading -/

/-- The number of decimal digits. -/
def digitsNumber (digits : List Char) : Nat :=
  digits.foldl (fun n c => 10 * n + (c.toNat - '0'.toNat)) 0

/-- Read at least `least` and at most `most` digits. -/
def readDigits? (least most : Nat) (cs : List Char) : Option (Nat × List Char) :=
  let digits := (cs.take most).takeWhile Char.isDigit
  if digits.length < least then none
  else some (digitsNumber digits, cs.drop digits.length)

/-- Read one given character. -/
def readChar? (c : Char) : List Char → Option (List Char)
  | d :: rest => if c = d then some rest else none
  | [] => none

/-- Read a fraction behind its point: nine digits count and further ones are dropped. -/
def readFraction? (cs : List Char) : Option (Nat × List Char) :=
  let digits := (cs.take 9).takeWhile Char.isDigit
  if digits.isEmpty then none
  else
    some (digitsNumber digits * Nat.pow 10 (9 - digits.length),
      (cs.drop digits.length).dropWhile Char.isDigit)

/-- Read an optional fraction with its point. -/
def readOptionalFraction? : List Char → Option (Nat × List Char)
  | '.' :: rest => readFraction? rest
  | cs => some (0, cs)

/-- Read hours and minutes with a colon between them, as seconds. Minutes end at 59. -/
def readOffsetParts? (cs : List Char) : Option (Int × List Char) := do
  let (hours, cs) ← readDigits? 2 2 cs
  let cs ← readChar? ':' cs
  let (minutes, cs) ← readDigits? 2 2 cs
  if minutes < 60 then some (hours * 3600 + minutes * 60, cs) else none

/-- Read an offset from universal time, in seconds; the sign may be the minus sign proper. -/
def readOffset? : List Char → Option (Int × List Char)
  | c :: rest =>
    if c = 'Z' ∨ c = 'z' then some (0, rest)
    else if c = '+' then readOffsetParts? rest
    else if c = '-' ∨ c = '−' then (readOffsetParts? rest).map fun (n, cs) => (-n, cs)
    else none
  | [] => none

/-- The second of a day and the nanoseconds of a time of day; second 60 is a leap second. -/
def timeOfDay? (hour minute second nanos : Nat) : Option (Int × Nat) :=
  if hour < 24 ∧ minute < 60 ∧ second ≤ 60 then
    if second = 60 then some (hour * 3600 + minute * 60 + 59, nanos + 1000000000)
    else some (hour * 3600 + minute * 60 + second, nanos)
  else none

/-- The greatest offset, just below a day. -/
def greatestOffset : Int := (23 * 60 + 59) * 60

/-- The instant of a timestamp that fills the text. -/
def read? (text : String) : Option Instant := do
  let (year, cs) ← readDigits? 4 4 text.toList
  let cs ← readChar? '-' cs
  let (month, cs) ← readDigits? 2 2 cs
  let cs ← readChar? '-' cs
  let (day, cs) ← readDigits? 2 2 cs
  let cs ← match cs with
    | c :: rest => if c = 'T' ∨ c = 't' ∨ c = ' ' then some rest else none
    | [] => none
  let (hour, cs) ← readDigits? 2 2 cs
  let cs ← readChar? ':' cs
  let (minute, cs) ← readDigits? 2 2 cs
  let cs ← readChar? ':' cs
  let (second, cs) ← readDigits? 2 2 cs
  let (nanos, cs) ← readOptionalFraction? cs
  let (offset, cs) ← readOffset? cs
  let date ← Date.ofParts? year month day
  let (secondOfDay, nanos) ← timeOfDay? hour minute second nanos
  if cs.isEmpty ∧ -greatestOffset ≤ offset ∧ offset ≤ greatestOffset then
    some (Instant.ofDate date (secondOfDay - offset) nanos)
  else none

/-- Read the offset of a loose timestamp, in seconds: `Z`, `UTC` in any case, or hours and minutes
with colons and white space between them. -/
def readLooseOffset? (cs : List Char) : Option (Int × List Char) :=
  if (cs.take 3).map Char.toUpper == ['U', 'T', 'C'] then some (0, cs.drop 3)
  else
    let parts? (cs : List Char) : Option (Int × List Char) := do
      let (hours, cs) ← readDigits? 2 2 cs
      let cs := cs.dropWhile fun c => c == ':' || Text.isBlank c
      let (minutes, cs) ← readDigits? 2 2 cs
      if minutes < 60 then some (hours * 3600 + minutes * 60, cs) else none
    match cs with
    | c :: rest =>
      if c = 'Z' ∨ c = 'z' then some (0, rest)
      else if c = '+' then parts? rest
      else if c = '-' ∨ c = '−' then (parts? rest).map fun (n, cs) => (-n, cs)
      else none
    | [] => none

/-- Read a year: at most four digits, or any number of them behind a sign. -/
def readYear? : List Char → Option (Int × List Char)
  | '-' :: rest => (readDigits? 1 rest.length rest).map fun (n, cs) => (-(n : Int), cs)
  | '+' :: rest => (readDigits? 1 rest.length rest).map fun (n, cs) => ((n : Int), cs)
  | cs => (readDigits? 1 4 cs).map fun (n, cs) => ((n : Int), cs)

/-- Read a number of one or two digits; white space may stand before it and behind it. -/
def readLoosePart? (cs : List Char) : Option (Nat × List Char) :=
  (readDigits? 1 2 (Text.trimStart cs)).map fun (n, cs) => (n, Text.trimStart cs)

/-- The instant of a loose timestamp: numbers may lack leading zeros, and white space may stand
around them. -/
def readLoose? (text : String) : Option Instant := do
  let (year, cs) ← readYear? (Text.trimStart text.toList)
  let cs ← readChar? '-' (Text.trimStart cs)
  let (month, cs) ← readLoosePart? cs
  let cs ← readChar? '-' cs
  let (day, cs) ← readDigits? 1 2 (Text.trimStart cs)
  let cs ← match cs with
    | c :: rest => if c = 'T' ∨ c = 't' ∨ c = ' ' then some rest else none
    | [] => none
  let (hour, cs) ← readLoosePart? cs
  let cs ← readChar? ':' cs
  let (minute, cs) ← readLoosePart? cs
  let cs ← readChar? ':' cs
  let (second, cs) ← readDigits? 1 2 (Text.trimStart cs)
  let (nanos, cs) ← readOptionalFraction? cs
  let (offset, cs) ← readLooseOffset? (Text.trimStart cs)
  let date ← Date.ofParts? year month day
  let (secondOfDay, nanos) ← timeOfDay? hour minute second nanos
  if (Text.trimStart cs).isEmpty ∧ -greatestOffset ≤ offset ∧ offset ≤ greatestOffset then
    some (Instant.ofDate date (secondOfDay - offset) nanos)
  else none

/-- The date of a text of three numbers with dashes between them. White space may stand before a
number but not at the end. -/
def readDate? (text : String) : Option Date := do
  let (year, cs) ← readYear? (Text.trimStart text.toList)
  let cs ← readChar? '-' cs
  let (month, cs) ← readDigits? 1 2 (Text.trimStart cs)
  let cs ← readChar? '-' cs
  let (day, cs) ← readDigits? 1 2 (Text.trimStart cs)
  if cs.isEmpty then Date.ofParts? year month day else none

end Workflow.Timestamp

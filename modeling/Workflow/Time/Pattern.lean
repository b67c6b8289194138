/-
Workflow.Time.Pattern — dates in a form given by a pattern.

A pattern is text in which `%` and a letter stand for a part of the date,
as in `%d/%m/%Y`. A number may have its padding changed by a mark between
the two: `-` for none, `0` for zeros and `_` for blanks.

* `Pattern.Item` — a piece of a pattern.
* `Pattern.items?` — the pieces of a text, if all of them are sound.
* `Pattern.format?` — an instant in the form of a pattern.
-/
import Workflow.Time.Timestamp

namespace Workflow.Pattern

/-- How a number is filled up to its width. -/
inductive Padding where
  | none
  | zero
  | blank
deriving DecidableEq, Repr

/-- Parts of a date that are written as numbers. -/
inductive NumberPart where
  | year
  | century
  | yearOfCentury
  | weekYear
  | weekYearOfCentury
  | quarter
  | month
  | day
  | weekFromSunday
  | weekFromMonday
  | isoWeek
  | daysFromSunday
  | weekdayFromMonday
  | ordinal
  | hour
  | hourOfHalf
  | minute
  | second
  | nanosecond
  | epochSeconds
deriving DecidableEq, Repr

/-- Parts of a date with a form of their own. -/
inductive FixedPart where
  | weekdayName
  | weekdayAbbreviation
  | monthName
  | monthAbbreviation
  | halfUpper
  | halfLower
  | zoneName
  | offset
  | offsetColon
  | offsetSeconds
  | offsetHours
  | fraction
  | fractionDigits (point : Bool) (digits : Nat)
  | timestamp
deriving DecidableEq, Repr

/-- A piece of a pattern. -/
inductive Item where
  | literal (cs : List Char)
  | number (part : NumberPart) (padding : Padding)
  | fixed (part : FixedPart)
deriving DecidableEq, Repr

/-! ## Reading a pattern -/

private def lit (s : String) : Item := .literal s.toList
private def zeros (part : NumberPart) : Item := .number part .zero
private def blanks (part : NumberPart) : Item := .number part .blank

/-- Hour, minute and second with colons. -/
def clockItems : List Item := [zeros .hour, lit ":", zeros .minute, lit ":", zeros .second]

/-- Month, day and year of the century with slashes. -/
def slashDate : List Item := [zeros .month, lit "/", zeros .day, lit "/", zeros .yearOfCentury]

/-- The pieces that one letter stands for. -/
def letterItems? : Char → Option (List Item)
  | 'A' => some [.fixed .weekdayName]
  | 'B' => some [.fixed .monthName]
  | 'C' => some [zeros .century]
  | 'D' => some slashDate
  | 'F' => some [zeros .year, lit "-", zeros .month, lit "-", zeros .day]
  | 'G' => some [zeros .weekYear]
  | 'H' => some [zeros .hour]
  | 'I' => some [zeros .hourOfHalf]
  | 'M' => some [zeros .minute]
  | 'P' => some [.fixed .halfLower]
  | 'R' => some [zeros .hour, lit ":", zeros .minute]
  | 'S' => some [zeros .second]
  | 'T' => some clockItems
  | 'U' => some [zeros .weekFromSunday]
  | 'V' => some [zeros .isoWeek]
  | 'W' => some [zeros .weekFromMonday]
  | 'X' => some clockItems
  | 'Y' => some [zeros .year]
  | 'Z' => some [.fixed .zoneName]
  | 'a' => some [.fixed .weekdayAbbreviation]
  | 'b' => some [.fixed .monthAbbreviation]
  | 'c' => some ([.fixed .weekdayAbbreviation, lit " ", .fixed .monthAbbreviation, lit " ",
      blanks .day, lit " "] ++ clockItems ++ [lit " ", zeros .year])
  | 'd' => some [zeros .day]
  | 'e' => some [blanks .day]
  | 'f' => some [zeros .nanosecond]
  | 'g' => some [zeros .weekYearOfCentury]
  | 'h' => some [.fixed .monthAbbreviation]
  | 'j' => some [zeros .ordinal]
  | 'k' => some [blanks .hour]
  | 'l' => some [blanks .hourOfHalf]
  | 'm' => some [zeros .month]
  | 'n' => some [lit "\n"]
  | 'p' => some [.fixed .halfUpper]
  | 'q' => some [.number .quarter .none]
  | 'r' => some [zeros .hourOfHalf, lit ":", zeros .minute, lit ":", zeros .second, lit " ",
      .fixed .halfUpper]
  | 's' => some [.number .epochSeconds .none]
  | 't' => some [lit "\t"]
  | 'u' => some [.number .weekdayFromMonday .none]
  | 'v' => some [blanks .day, lit "-", .fixed .monthAbbreviation, lit "-", zeros .year]
  | 'w' => some [.number .daysFromSunday .none]
  | 'x' => some slashDate
  | 'y' => some [zeros .yearOfCentury]
  | 'z' => some [.fixed .offset]
  | '+' => some [.fixed .timestamp]
  | '%' => some [lit "%"]
  | _ => none

/-- The pieces behind a percent sign and how many characters they take. -/
def specifier? : List Char → Option (List Item × Nat)
  | ':' :: ':' :: ':' :: 'z' :: _ => some ([.fixed .offsetHours], 4)
  | ':' :: ':' :: 'z' :: _ => some ([.fixed .offsetSeconds], 3)
  | ':' :: 'z' :: _ => some ([.fixed .offsetColon], 2)
  | '.' :: 'f' :: _ => some ([.fixed .fraction], 2)
  | '.' :: '3' :: 'f' :: _ => some ([.fixed (.fractionDigits true 3)], 3)
  | '.' :: '6' :: 'f' :: _ => some ([.fixed (.fractionDigits true 6)], 3)
  | '.' :: '9' :: 'f' :: _ => some ([.fixed (.fractionDigits true 9)], 3)
  | '3' :: 'f' :: _ => some ([.fixed (.fractionDigits false 3)], 2)
  | '6' :: 'f' :: _ => some ([.fixed (.fractionDigits false 6)], 2)
  | '9' :: 'f' :: _ => some ([.fixed (.fractionDigits false 9)], 2)
  | c :: _ => (letterItems? c).map fun items => (items, 1)
  | [] => none

/-- The padding that a mark asks for. -/
def paddingMark? : Char → Option Padding
  | '-' => some .none
  | '0' => some .zero
  | '_' => some .blank
  | _ => none

/-- What stands behind a percent sign: a padding mark changes a single number and is refused with
anything else. -/
def markedSpecifier? : List Char → Option (List Item × Nat)
  | c :: rest =>
    match paddingMark? c with
    | some padding =>
      match specifier? rest with
      | some ([.number part _], width) => some ([.number part padding], width + 1)
      | _ => none
    | none => specifier? (c :: rest)
  | [] => none

/-- The pieces of a pattern; `none` if a percent sign starts nothing that is known. -/
def items? : List Char → Option (List Item)
  | [] => some []
  | '%' :: rest =>
    match markedSpecifier? rest with
    | some (items, width) => (items? (rest.drop width)).map (items ++ ·)
    | none => none
  | c :: rest => (items? rest).map (Item.literal [c] :: ·)
termination_by cs => cs.length
decreasing_by all_goals simp only [List.length_cons, List.length_drop]; omega

/-! ## Writing an instant -/

/-- Names of the days of the week, from Monday. -/
def weekdayNames : List String :=
  ["Monday", "Tuesday", "Wednesday", "Thursday", "Friday", "Saturday", "Sunday"]

/-- Names of the months. -/
def monthNames : List String :=
  ["January", "February", "March", "April", "May", "June", "July", "August", "September",
    "October", "November", "December"]

/-- The name at a place of a list. -/
def nameAt (names : List String) (n : Nat) : List Char := (names.getD n "").toList

/-- Two digits of a number that is kept in eight bits; the tens may go beyond nine. -/
def twoDigits (padding : Padding) (n : Int) : List Char :=
  let v := (Int.emod n 256).toNat
  let ones := Char.ofNat (48 + v % 10)
  match v / 10, padding with
  | 0, .none => [ones]
  | 0, .blank => [' ', ones]
  | tens, _ => [Char.ofNat (48 + tens), ones]

/-- Blanks in front of a text up to a width. -/
def blankPadded (width : Nat) (cs : List Char) : List Char :=
  List.replicate (width - cs.length) ' ' ++ cs

/-- An integer with its digits, and a minus sign if negative. -/
def intDigits (n : Int) : List Char :=
  if n < 0 then '-' :: Nat.toDigits 10 n.natAbs else Nat.toDigits 10 n.natAbs

/-- An integer up to a width. -/
def wideNumber (width : Nat) (n : Int) : Padding → List Char
  | .none => intDigits n
  | .zero =>
    if n < 0 then '-' :: Timestamp.zeroPadded (width - 1) n.natAbs
    else Timestamp.zeroPadded width n.natAbs
  | .blank => blankPadded width (intDigits n)

/-- A year: four places, and a sign outside four digits. -/
def yearNumber (year : Int) (padding : Padding) : List Char :=
  if 0 ≤ year ∧ year < 10000 then wideNumber 4 year padding
  else
    let signed := if year < 0 then intDigits year else '+' :: intDigits year
    match padding with
    | .none => signed
    | .zero => Timestamp.signedPadded 5 year
    | .blank => blankPadded 5 signed

/-- The hour on a twelve-hour clock. -/
def hourOfHalf (hour : Nat) : Nat := if hour % 12 = 0 then 12 else hour % 12

/-- A part of a date that is written as a number. -/
def numberText (i : Instant) (part : NumberPart) (padding : Padding) : List Char :=
  let d := i.date
  let (hour, minute, second) := i.clock
  match part with
  | .year => yearNumber d.year padding
  | .century => twoDigits padding (Int.fdiv d.year 100)
  | .yearOfCentury => twoDigits padding (Int.emod d.year 100)
  | .weekYear => yearNumber d.isoWeek.1 padding
  | .weekYearOfCentury => twoDigits padding (Int.emod d.isoWeek.1 100)
  | .quarter => Nat.toDigits 10 ((d.month - 1) / 3 + 1)
  | .month => twoDigits padding d.month
  | .day => twoDigits padding d.day
  | .weekFromSunday => twoDigits padding (d.weeksFrom ((d.weekday + 1) % 7))
  | .weekFromMonday => twoDigits padding (d.weeksFrom d.weekday)
  | .isoWeek => twoDigits padding d.isoWeek.2
  | .daysFromSunday => Nat.toDigits 10 ((d.weekday + 1) % 7)
  | .weekdayFromMonday => Nat.toDigits 10 (d.weekday + 1)
  | .ordinal => wideNumber 3 d.ordinal padding
  | .hour => twoDigits padding hour
  | .hourOfHalf => twoDigits padding (hourOfHalf hour)
  | .minute => twoDigits padding minute
  | .second => twoDigits padding second
  | .nanosecond => wideNumber 9 i.subsecond padding
  | .epochSeconds => wideNumber 9 i.seconds padding

/-- A part of a date with a form of its own. All instants are shown in universal time. -/
def fixedPartText (i : Instant) : FixedPart → List Char
  | .weekdayName => nameAt weekdayNames i.date.weekday
  | .weekdayAbbreviation => (nameAt weekdayNames i.date.weekday).take 3
  | .monthName => nameAt monthNames (i.date.month - 1)
  | .monthAbbreviation => (nameAt monthNames (i.date.month - 1)).take 3
  | .halfUpper => (if i.clock.1 < 12 then "AM" else "PM").toList
  | .halfLower => (if i.clock.1 < 12 then "am" else "pm").toList
  | .zoneName => "UTC".toList
  | .offset => "+0000".toList
  | .offsetColon => "+00:00".toList
  | .offsetSeconds => "+00:00:00".toList
  | .offsetHours => "+00".toList
  | .fraction => Timestamp.fractionText i.subsecond
  | .fractionDigits point digits =>
    (if point then ['.'] else []) ++
      Timestamp.zeroPadded digits (i.subsecond / Nat.pow 10 (9 - digits))
  | .timestamp => (Timestamp.write i).toList

/-- The text of one piece. -/
def itemText (i : Instant) : Item → List Char
  | .literal cs => cs
  | .number part padding => numberText i part padding
  | .fixed part => fixedPartText i part

/-- An instant in the form of a pattern; `none` if the pattern is not sound. -/
def format? (pattern : String) (i : Instant) : Option String :=
  (items? pattern.toList).map fun items => String.ofList (items.flatMap (itemText i))

end Workflow.Pattern

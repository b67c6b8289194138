/-
Workflow.Text.CodeRanges — sets of code points as closed ranges.

Character properties of the Unicode standard are data: a property is the
list of ranges of code points that have it. The list is written as text,
`41-5a 61-7a`, one range or one single point a word, in hexadecimal.

* `CodeRanges.contains` — membership.
* `CodeRanges.ofLines` — the list that some lines denote.
-/

namespace Workflow.Text

/-- Closed ranges of code points, first and last. -/
abbrev CodeRanges := List (Nat × Nat)

/-- A character is in the set when some range covers its code point. -/
def CodeRanges.contains (ranges : CodeRanges) (c : Char) : Bool :=
  ranges.any fun (first, last) => first ≤ c.toNat && c.toNat ≤ last

/-- The value of a hexadecimal digit. -/
def hexDigit? (c : Char) : Option Nat :=
  if '0' ≤ c ∧ c ≤ '9' then some (c.toNat - '0'.toNat)
  else if 'a' ≤ c ∧ c ≤ 'f' then some (c.toNat - 'a'.toNat + 10)
  else if 'A' ≤ c ∧ c ≤ 'F' then some (c.toNat - 'A'.toNat + 10)
  else none

/-- The number that hexadecimal digits denote; any other character counts as zero. -/
def hexValue (digits : List Char) : Nat :=
  digits.foldl (fun n c => 16 * n + (hexDigit? c).getD 0) 0

/-- One word of a range list: `41-5a` is a range and `aa` a single point. -/
def CodeRanges.wordRange (word : List Char) : Nat × Nat :=
  let first := word.takeWhile (· != '-')
  match word.drop first.length with
  | [] => (hexValue first, hexValue first)
  | _ :: last => (hexValue first, hexValue last)

/-- Cut a list at every separator; neighbouring separators enclose an empty piece. -/
def cutAt (isSep : Char → Bool) : List Char → List (List Char)
  | [] => [[]]
  | c :: rest =>
    if isSep c then [] :: cutAt isSep rest
    else
      match cutAt isSep rest with
      | [] => [[c]]
      | piece :: pieces => (c :: piece) :: pieces

/-- The words of some lines, blanks being the only separator. -/
def words (lines : List String) : List (List Char) :=
  lines.flatMap fun line => (cutAt (· == ' ') line.toList).filter (· != [])

/-- The ranges that some lines list. -/
def CodeRanges.ofLines (lines : List String) : CodeRanges :=
  (words lines).map CodeRanges.wordRange

end Workflow.Text

/-
Workflow.Yaml.Style — how texts are written as scalars.

A text is written without quotation marks where it reads back as that text,
else between single quotation marks, else between double ones. A text of
several lines is a literal block where one may stand.

* `Traits` — what about a text matters for its form.
* `Style.of` — the form of a text.
* `scalarText` — the scalar of a text.
-/
import Workflow.Document.Basic
import Workflow.Yaml.Chars

namespace Workflow.Yaml

/-- The forms of a scalar. -/
inductive Style where
  | plain
  | singleQuoted
  | doubleQuoted
  | literal
deriving DecidableEq, Repr

/-! ## What about a text matters -/

/-- Characters that are written as they are. -/
def isPrintable (c : Char) : Bool :=
  let n := c.toNat
  n == 0x0A || (0x20 ≤ n && n ≤ 0x7E) || (0xA0 ≤ n && n != 0xFEFF && n != 0xFFFE && n != 0xFFFF)

/-- Whether a character ends a line, in a text whose line ends are not unified. -/
def isRawBreak (c : Char) : Bool := isBreak c || c == '\r' || c == '\u0085'

/-- Whether a list starts with white space or is empty. -/
def isOpenEnded : List Char → Bool
  | [] => true
  | c :: _ => isBlank c || isRawBreak c

/-- Whether a text starts like something other than a plain scalar. -/
def startsIndicator : List Char → Bool
  | '-' :: '-' :: '-' :: _ => true
  | '.' :: '.' :: '.' :: _ => true
  | c :: rest =>
    "#,[]\x7b\x7d&*!|>'\"%@`".toList.contains c ||
      ((c == '-' || c == '?' || c == ':') && isOpenEnded rest)
  | [] => false

/-- Whether a colon at the end of a word, or a number sign at its start, stands behind the first
character. -/
def hasIndicator : List Char → Bool
  | c :: d :: rest =>
    (d == ':' && isOpenEnded rest) || (d == '#' && (isBlank c || isRawBreak c)) ||
      hasIndicator (d :: rest)
  | _ => false

/-- Whether two characters that pass the tests stand side by side. -/
def hasPair (first second : Char → Bool) : List Char → Bool
  | c :: d :: rest => (first c && second d) || hasPair first second (d :: rest)
  | _ => false

/-- What about a text matters for its form. -/
structure Traits where
  hasBreak : Bool
  hasUnprintable : Bool
  startsOrEndsOpen : Bool
  endsBlank : Bool
  spaceAfterBreak : Bool
  spaceBeforeBreak : Bool
  looksSpecial : Bool

/-- The traits of a text. -/
def Traits.of (cs : List Char) : Traits :=
  let isOpen (c : Char) := c == ' ' || isRawBreak c
  { hasBreak := cs.any isRawBreak
    hasUnprintable := cs.any fun c => !isPrintable c
    startsOrEndsOpen := cs.head?.any isOpen || cs.getLast?.any isOpen
    endsBlank := cs.getLast? == some ' '
    spaceAfterBreak := hasPair isRawBreak (· == ' ') cs
    spaceBeforeBreak := hasPair (· == ' ') isRawBreak cs
    looksSpecial := startsIndicator cs || hasIndicator cs }

/-- Whether a text may be a plain scalar outside flow collections. -/
def Traits.allowsPlain (t : Traits) : Bool :=
  !(t.hasBreak || t.hasUnprintable || t.startsOrEndsOpen || t.looksSpecial)

/-- Whether a text may stand between single quotation marks. -/
def Traits.allowsSingleQuoted (t : Traits) : Bool :=
  !(t.hasUnprintable || t.spaceAfterBreak || t.spaceBeforeBreak)

/-- Whether a text may be a literal block. -/
def Traits.allowsLiteral (t : Traits) : Bool :=
  !(t.hasUnprintable || t.endsBlank || t.spaceBeforeBreak)

/-- Whether a scalar without quotation marks would not be a text to an untyped reader. Digits with
a zero in front are texts, but are quoted all the same. -/
def isAmbiguous (text : String) : Bool :=
  match Document.plainValue? text with
  | some (.str _) => Document.isZeroPadded text.toList
  | _ => true

/-- The form of a text; keys stay on one line. -/
def Style.of (isKey : Bool) (text : String) : Style :=
  let cs := text.toList
  let t := Traits.of cs
  if cs.contains '\n' then
    if !isKey && t.allowsLiteral then .literal else .doubleQuoted
  else if isKey && t.hasBreak then .doubleQuoted
  else if !isAmbiguous text && t.allowsPlain then .plain
  else if t.allowsSingleQuoted then .singleQuoted
  else .doubleQuoted

/-! ## The forms -/

/-- The digits of a number in base sixteen, at least `width` of them. -/
def hexDigits (width n : Nat) : List Char :=
  let digits := (Nat.toDigits 16 n).map Char.toUpper
  List.replicate (width - digits.length) '0' ++ digits

/-- A character between double quotation marks. -/
def escapeChar (c : Char) : List Char :=
  let n := c.toNat
  if c == '"' || c == '\\' then ['\\', c]
  else if isPrintable c && !isBreak c then [c]
  else
    match n with
    | 0 => ['\\', '0']
    | 7 => ['\\', 'a']
    | 8 => ['\\', 'b']
    | 9 => ['\\', 't']
    | 10 => ['\\', 'n']
    | 11 => ['\\', 'v']
    | 12 => ['\\', 'f']
    | 13 => ['\\', 'r']
    | 27 => ['\\', 'e']
    | 0x85 => ['\\', 'N']
    | 0x2028 => ['\\', 'L']
    | 0x2029 => ['\\', 'P']
    | _ =>
      if n ≤ 0xFF then '\\' :: 'x' :: hexDigits 2 n
      else if n ≤ 0xFFFF then '\\' :: 'u' :: hexDigits 4 n
      else '\\' :: 'U' :: hexDigits 8 n

/-- Lines with their indentation: a line that is not empty is moved right. -/
def indentLines (indent : Nat) (lineStart : Bool) : List Char → List Char
  | [] => []
  | c :: rest =>
    if isBreak c then c :: indentLines indent true rest
    else (if lineStart then List.replicate indent ' ' else []) ++ c :: indentLines indent false rest

/-- The marks behind the bar of a literal block: the indentation if the text starts with white
space, and how its end is to be treated. -/
def literalMarks (cs : List Char) : List Char :=
  let hint := if cs.head?.any fun c => c == ' ' || isBreak c then ['2'] else []
  let chomp :=
    match cs.reverse with
    | c :: d :: _ => if !isBreak c then ['-'] else if isBreak d then ['+'] else []
    | [c] => if isBreak c then ['+'] else ['-']
    | [] => ['-']
  hint ++ chomp

/-- A literal block at an indentation, without the line end behind it. -/
def literalBlock (indent : Nat) (cs : List Char) : List Char :=
  let body := if cs.getLast? == some '\n' then cs.dropLast else cs
  '|' :: literalMarks cs ++ '\n' :: indentLines indent true body

/-- The scalar of a text; lines after the first stand at an indentation. -/
def scalarText (indent : Nat) (isKey : Bool) (text : String) : String :=
  let cs := text.toList
  String.ofList <|
    match Style.of isKey text with
    | .plain => cs
    | .singleQuoted =>
      '\'' :: indentLines indent false (cs.flatMap fun c => if c == '\'' then [c, c] else [c])
        ++ ['\'']
    | .doubleQuoted => '"' :: cs.flatMap escapeChar ++ ['"']
    | .literal => literalBlock indent cs

end Workflow.Yaml

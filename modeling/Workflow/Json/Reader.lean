/-
Workflow.Json.Reader — reading JSON text.

The text is cut into symbols, and an automaton with a stack of open
containers builds the document from them. What a text denotes is a
`Document`: repeated keys are still there, and a literal that no value
stands for is kept as unreadable.

* `Json.scaledNumber?` — the number of a numeral.
* `Json.symbols?` — the symbols of a text.
* `Json.readDocument?` — the document of a text.
* `Json.read?` — the value of a text.
-/
import Workflow.Document.Basic
import Workflow.Text.CodeRanges

namespace Workflow.Json

/-! ## Numbers -/

/-- A numeral by its parts; `fraction` and `exponent` are absent when their marks are. -/
structure NumberParts where
  negative : Bool
  whole : List Char
  fraction : Option (List Char)
  exponent : Option (Bool × List Char)
deriving Repr

/-- The greatest value that the digits of a numeral are collected to. -/
def collectBound : Nat := Nat.pow 2 64

/-- Collect digits as long as the value stays in 64 bits; the digits left over are counted. -/
def collectDigits (start : Nat) : List Char → Nat × List Char
  | [] => (start, [])
  | c :: rest =>
    let next := 10 * start + (c.toNat - '0'.toNat)
    if next < collectBound then collectDigits next rest else (start, c :: rest)

/-- A power of ten as a double. -/
def powerOfTen (n : Nat) : Float := Number.nearestDecimal false 1 n

/-- `significand · 10 ^ exponent` by one multiplication or division of doubles, two when the
exponent lies below the least power of ten; `none` beyond the greatest double. -/
def scaled? (significand : Nat) (exponent : Int) : Option Float :=
  let f := Number.nearest false significand 1
  if significand = 0 then some f
  else if exponent > 308 then none
  else if exponent ≥ 0 then
    let r := f * powerOfTen exponent.toNat
    if r.isInf then none else some r
  else if exponent ≥ -308 then some (f / powerOfTen (-exponent).toNat)
  else if exponent ≥ -616 then some (f / powerOfTen 308 / powerOfTen (-exponent - 308).toNat)
  else some 0.0

/-- The number of a numeral. Without fraction and exponent it is an integer if it fits in 64 bits,
and a negative zero is a double. Otherwise it is the double of the leading digits, scaled; `none`
when that is out of range. -/
def scaledNumber? (parts : NumberParts) : Option Num :=
  let (whole, beyond) := collectDigits 0 parts.whole
  let signed (x : Float) : Num := .float (if parts.negative then -x else x)
  match parts.fraction, parts.exponent, beyond with
  | none, none, [] =>
    if !parts.negative then some (.int whole)
    else if whole = 0 ∨ whole > Nat.pow 2 63 then
      some (.float (-(Number.nearest false whole 1)))
    else some (.int (-(whole : Int)))
  | fraction, exponent, _ =>
    let digits := fraction.getD []
    let (significand, unused) := collectDigits whole digits
    let start : Int := (beyond.length : Int) - (digits.length - unused.length : Nat)
    match exponent with
    | none => (scaled? significand start).map signed
    | some (negative, exponentDigits) =>
      let e := Number.digitsValue exponentDigits
      if e ≥ Nat.pow 2 31 then
        if significand ≠ 0 ∧ !negative then none else some (signed 0.0)
      else (scaled? significand (if negative then start - e else start + e)).map signed

/-- The parts of a numeral that fills the list. -/
def numberParts? (cs : List Char) : Option NumberParts :=
  let (negative, body) :=
    match cs with
    | '-' :: rest => (true, rest)
    | rest => (false, rest)
  let whole := body.takeWhile Char.isDigit
  let afterWhole := body.dropWhile Char.isDigit
  let wholeSound := !whole.isEmpty && (whole.length == 1 || whole.head? != some '0')
  let (fraction, afterFraction) :=
    match afterWhole with
    | '.' :: rest => (some (rest.takeWhile Char.isDigit), rest.dropWhile Char.isDigit)
    | rest => (none, rest)
  let (exponent, afterExponent) :=
    match afterFraction with
    | c :: rest =>
      if c == 'e' || c == 'E' then
        let (sign, digits) :=
          match rest with
          | '-' :: more => (true, more)
          | '+' :: more => (false, more)
          | more => (false, more)
        (some (sign, digits.takeWhile Char.isDigit), digits.dropWhile Char.isDigit)
      else (none, c :: rest)
    | [] => (none, [])
  let fractionSound := fraction != some []
  let exponentSound := (exponent.map (·.2)) != some []
  if wholeSound && fractionSound && exponentSound && afterExponent.isEmpty then
    some ⟨negative, whole, fraction, exponent⟩
  else none

/-! ## Symbols -/

/-- The symbols of JSON text. -/
inductive Symbol where
  | openList
  | closeList
  | openDict
  | closeDict
  | comma
  | colon
  | scalar (d : Document)
deriving Repr

/-- The number of four hexadecimal digits. -/
def hexQuad? (a b c d : Char) : Option Nat :=
  match Text.hexDigit? a, Text.hexDigit? b, Text.hexDigit? c, Text.hexDigit? d with
  | some a, some b, some c, some d => some (((a * 16 + b) * 16 + c) * 16 + d)
  | _, _, _, _ => none

/-- The character of a one-letter escape. -/
def shortEscape? : Char → Option Char
  | '"' => some '"'
  | '\\' => some '\\'
  | '/' => some '/'
  | 'b' => some (Char.ofNat 8)
  | 'f' => some (Char.ofNat 12)
  | 'n' => some '\n'
  | 'r' => some '\r'
  | 't' => some '\t'
  | _ => none

/-- Whether a code unit is the first half of a pair. -/
def isHighHalf (n : Nat) : Bool := 0xD800 ≤ n && n < 0xDC00

/-- Whether a code unit is the second half of a pair. -/
def isLowHalf (n : Nat) : Bool := 0xDC00 ≤ n && n < 0xE000

/-- Read a text behind its opening quotation mark. The answer is the text, or `none` when it has
half of a pair, and the number of characters up to and with the closing mark. `acc` holds the
characters so far, the last one first. -/
def readText (acc : List Char) (sound : Bool) (width : Nat) :
    List Char → Option (Option String × Nat)
  | [] => none
  | '"' :: _ => some (if sound then some (String.ofList acc.reverse) else none, width + 1)
  | '\\' :: 'u' :: a :: b :: c :: d :: '\\' :: 'u' :: e :: f :: g :: h :: rest =>
    match hexQuad? a b c d with
    | none => none
    | some n =>
      if isHighHalf n then
        match hexQuad? e f g h with
        | none => none
        | some m =>
          let pair := 0x10000 + (n - 0xD800) * 0x400 + (m - 0xDC00)
          readText (Char.ofNat pair :: acc) (sound && isLowHalf m) (width + 12) rest
      else
        readText (Char.ofNat n :: acc) (sound && !isLowHalf n) (width + 6)
          ('\\' :: 'u' :: e :: f :: g :: h :: rest)
  | '\\' :: 'u' :: a :: b :: c :: d :: rest =>
    match hexQuad? a b c d with
    | none => none
    | some n =>
      readText (Char.ofNat n :: acc) (sound && !isHighHalf n && !isLowHalf n) (width + 6) rest
  | '\\' :: c :: rest =>
    match shortEscape? c with
    | some e => readText (e :: acc) sound (width + 2) rest
    | none => none
  | c :: rest => if c.toNat < 32 then none else readText (c :: acc) sound (width + 1) rest

/-- Characters that may stand in a numeral. -/
def isNumberChar (c : Char) : Bool :=
  c.isDigit || c == '-' || c == '+' || c == '.' || c == 'e' || c == 'E'

/-- The symbol that starts with a character, and how many of the following characters belong to
it. -/
def symbolAt? (c : Char) (rest : List Char) : Option (Symbol × Nat) :=
  match c with
  | '[' => some (.openList, 0)
  | ']' => some (.closeList, 0)
  | '\x7b' => some (.openDict, 0)
  | '\x7d' => some (.closeDict, 0)
  | ',' => some (.comma, 0)
  | ':' => some (.colon, 0)
  | '"' =>
    (readText [] true 0 rest).map fun (text, width) =>
      (.scalar (match text with | some s => .text s | none => .unreadable), width)
  | _ =>
    if c.isDigit || c == '-' then
      let more := rest.takeWhile isNumberChar
      (numberParts? (c :: more)).map fun parts =>
        (.scalar (match scaledNumber? parts with | some n => .num n | none => .unreadable),
          more.length)
    else
      let more := rest.takeWhile Char.isAlphanum
      match String.ofList (c :: more) with
      | "null" => some (.scalar .null, more.length)
      | "true" => some (.scalar (.bool true), more.length)
      | "false" => some (.scalar (.bool false), more.length)
      | _ => none

/-- The blanks of JSON. -/
def isLayout (c : Char) : Bool := c == ' ' || c == '\n' || c == '\t' || c == '\r'

/-- The symbols of a text, the last one first. -/
def collectSymbols? (acc : List Symbol) : List Char → Option (List Symbol)
  | [] => some acc
  | c :: rest =>
    if isLayout c then collectSymbols? acc rest
    else
      match symbolAt? c rest with
      | some (symbol, width) => collectSymbols? (symbol :: acc) (rest.drop width)
      | none => none
termination_by cs => cs.length
decreasing_by all_goals simp only [List.length_cons, List.length_drop]; omega

/-- The symbols of a text in order. -/
def symbols? (cs : List Char) : Option (List Symbol) := (collectSymbols? [] cs).map List.reverse

/-! ## Documents -/

/-- An open container with the parts read so far, the last one first. -/
inductive Frame where
  | list (items : List Document)
  | dict (entries : List (Document × Document))
  | entry (key : Document) (entries : List (Document × Document))

/-- What may come next. -/
inductive Expects where
  | value
  | itemOrClose
  | keyOrClose
  | key
  | colon
  | commaOrClose
  | done (d : Document)

/-- The automaton: what comes next and the open containers, the innermost first. -/
abbrev ReaderState := Expects × List Frame

/-- Put a finished document into the innermost open container. -/
def deliver (d : Document) : List Frame → Option ReaderState
  | [] => some (.done d, [])
  | .list items :: stack => some (.commaOrClose, .list (d :: items) :: stack)
  | .entry key entries :: stack => some (.commaOrClose, .dict ((key, d) :: entries) :: stack)
  | .dict _ :: _ => none

/-- Start a value. -/
def startValue (stack : List Frame) : Symbol → Option ReaderState
  | .openList => some (.itemOrClose, .list [] :: stack)
  | .openDict => some (.keyOrClose, .dict [] :: stack)
  | .scalar d => deliver d stack
  | _ => none

/-- Take a key. -/
def takeKey : List Frame → Symbol → Option ReaderState
  | .dict entries :: stack, .scalar (.text s) => some (.colon, .entry (.text s) entries :: stack)
  | .dict entries :: stack, .scalar .unreadable =>
    some (.colon, .entry .unreadable entries :: stack)
  | _, _ => none

/-- Close the innermost container. -/
def closeFrame : List Frame → Symbol → Option ReaderState
  | .list items :: stack, .closeList => deliver (.list items.reverse) stack
  | .dict entries :: stack, .closeDict => deliver (.dict entries.reverse) stack
  | _, _ => none

/-- Take one symbol. -/
def readStep : ReaderState → Symbol → Option ReaderState
  | (.value, stack), symbol => startValue stack symbol
  | (.itemOrClose, stack), .closeList => closeFrame stack .closeList
  | (.itemOrClose, stack), symbol => startValue stack symbol
  | (.keyOrClose, stack), .closeDict => closeFrame stack .closeDict
  | (.keyOrClose, stack), symbol => takeKey stack symbol
  | (.key, stack), symbol => takeKey stack symbol
  | (.colon, stack), .colon => some (.value, stack)
  | (.colon, _), _ => none
  | (.commaOrClose, .list items :: stack), .comma => some (.value, .list items :: stack)
  | (.commaOrClose, .dict entries :: stack), .comma => some (.key, .dict entries :: stack)
  | (.commaOrClose, stack), symbol => closeFrame stack symbol
  | (.done _, _), _ => none

/-- The document of a text. -/
def readDocument? (text : String) : Option Document :=
  match (symbols? text.toList).bind (·.foldlM readStep (.value, [])) with
  | some (.done d, _) => some d
  | _ => none

/-- The greatest depth of nesting that is read. -/
def depthLimit : Nat := 127

/-- The value of a text. -/
def read? (text : String) : Option Json :=
  (readDocument? text).bind fun d => (d.within depthLimit).toJson?

end Workflow.Json

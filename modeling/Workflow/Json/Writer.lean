/-
Workflow.Json.Writer — JSON text.

A value is written without blanks, or over several lines with two spaces a
level. Strings escape the quotation mark, the backslash and the control
characters below the space, nothing else.

* `Json.numberLayout` — how doubles are written.
* `Json.compress` — the text of a value on one line.
* `Json.pretty` — the text of a value over several lines.
-/
import Workflow.Json.Value
import Workflow.Number.Decimal

namespace Workflow.Json

/-- Doubles are positional from `1e-5` up to below `1e16` and always show a point or an exponent;
exponents carry their sign. -/
def numberLayout : Number.Layout :=
  { plainFrom := -4, plainTo := 16, keepsPoint := true, positiveMark := "+" }

/-- The text of a number. -/
def Num.text : Num → String
  | .int n => toString n
  | .float x => numberLayout.render x

/-- One character between quotation marks. -/
def escapeChar (c : Char) : List Char :=
  if c == '"' || c == '\\' then ['\\', c]
  else if c == '\n' then ['\\', 'n']
  else if c == '\r' then ['\\', 'r']
  else if c == '\t' then ['\\', 't']
  else if c.toNat == 8 then ['\\', 'b']
  else if c.toNat == 12 then ['\\', 'f']
  else if c.toNat < 32 then
    ['\\', 'u', '0', '0', Nat.digitChar (c.toNat / 16), Nat.digitChar (c.toNat % 16)]
  else [c]

/-- A text between quotation marks. -/
def quoteString (s : String) : String :=
  String.ofList ('"' :: s.toList.flatMap escapeChar ++ ['"'])

mutual

/-- The text of a value on one line, without blanks. -/
def compress : Json → String
  | .null => "null"
  | .bool b => if b then "true" else "false"
  | .num n => n.text
  | .str s => quoteString s
  | .arr items => "[" ++ String.intercalate "," (compressItems items) ++ "]"
  | .obj fields => "\x7b" ++ String.intercalate "," (compressFields fields) ++ "\x7d"

/-- The texts of the items of an array. -/
def compressItems : List Json → List String
  | [] => []
  | v :: rest => compress v :: compressItems rest

/-- The texts of the entries of an object. -/
def compressFields : List (String × Json) → List String
  | [] => []
  | (k, v) :: rest => (quoteString k ++ ":" ++ compress v) :: compressFields rest

end

/-- The blanks of an indentation level. -/
def indentation (level : Nat) : String := String.ofList (List.replicate (2 * level) ' ')

/-- Parts between brackets, one a line and one level deeper; nothing stands between the brackets
of an empty container. -/
def bracketLines (opening closing : String) (level : Nat) (parts : List String) : String :=
  match parts with
  | [] => opening ++ closing
  | _ =>
    let inner := indentation (level + 1)
    opening ++ "\n" ++ String.intercalate ",\n" (parts.map (inner ++ ·)) ++ "\n" ++
      indentation level ++ closing

mutual

/-- The text of a value over several lines, at an indentation level. -/
def prettyAt (level : Nat) : Json → String
  | .null => "null"
  | .bool b => if b then "true" else "false"
  | .num n => n.text
  | .str s => quoteString s
  | .arr items => bracketLines "[" "]" level (prettyItems (level + 1) items)
  | .obj fields => bracketLines "\x7b" "\x7d" level (prettyFields (level + 1) fields)

/-- The texts of the items of an array, at their level. -/
def prettyItems (level : Nat) : List Json → List String
  | [] => []
  | v :: rest => prettyAt level v :: prettyItems level rest

/-- The texts of the entries of an object, at their level. -/
def prettyFields (level : Nat) : List (String × Json) → List String
  | [] => []
  | (k, v) :: rest => (quoteString k ++ ": " ++ prettyAt level v) :: prettyFields level rest

end

/-- The text of a value over several lines. -/
def pretty (v : Json) : String := prettyAt 0 v

end Workflow.Json

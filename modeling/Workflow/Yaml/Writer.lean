/-
Workflow.Yaml.Writer — YAML text of values.

Mappings and sequences are written as blocks, two blanks deeper a level; a
sequence under a key stands at the indentation of the key. Empty containers
are written in brackets.

* `numberLayout` — how doubles are written.
* `write` — the text of a value.
-/
import Workflow.Number.Decimal
import Workflow.Yaml.Style

namespace Workflow.Yaml

/-- Doubles are positional from `1e-5` up to below `1e16` and always show a point or an exponent;
positive exponents have no sign. -/
def numberLayout : Number.Layout :=
  { plainFrom := -4, plainTo := 16, keepsPoint := true, positiveMark := "" }

/-- A line end and the indentation of the next line. -/
def newLine (indent : Nat) : String := "\n" ++ String.ofList (List.replicate indent ' ')

/-- The most bytes that a key in front of its colon may have. -/
def simpleKeyLimit : Nat := 128

/-- Whether a key may stand in front of its colon on one line. -/
def isSimpleKey (key : String) : Bool :=
  key.utf8ByteSize ≤ simpleKeyLimit && !key.toList.any isRawBreak

/-- Entries of a container one below the other, or `empty` if there are none. -/
def stack (indent : Nat) (empty : String) (parts : List String) : String :=
  if parts.isEmpty then empty else String.intercalate (newLine indent) parts

/-- The text of a scalar. -/
def atomText (indent : Nat) : Json → String
  | .bool b => if b then "true" else "false"
  | .num (.int n) => toString n
  | .num (.float x) => numberLayout.render x
  | .str s => scalarText indent false s
  | _ => "null"

mutual

/-- A value behind the dash of an item at an indentation. -/
def itemText (indent : Nat) : Json → String
  | .arr items => stack (indent + 2) "[]" (itemTexts (indent + 2) items)
  | .obj fields => stack (indent + 2) "\x7b\x7d" (entryTexts (indent + 2) fields)
  | v => atomText (indent + 2) v

/-- A value behind the colon of a key at an indentation: on the line of the colon unless it is a
container that is not empty. -/
def valueText (indent : Nat) : Json → String
  | .arr items =>
    (if items.isEmpty then " " else newLine indent) ++ stack indent "[]" (itemTexts indent items)
  | .obj fields =>
    (if fields.isEmpty then " " else newLine (indent + 2)) ++
      stack (indent + 2) "\x7b\x7d" (entryTexts (indent + 2) fields)
  | v => " " ++ atomText (indent + 2) v

/-- The items of a sequence at an indentation. -/
def itemTexts (indent : Nat) : List Json → List String
  | [] => []
  | v :: rest => ("- " ++ itemText indent v) :: itemTexts indent rest

/-- The entries of a mapping at an indentation. A key that does not fit in front of its colon is
announced by a question mark. -/
def entryTexts (indent : Nat) : List (String × Json) → List String
  | [] => []
  | (k, v) :: rest =>
    (if isSimpleKey k then scalarText (indent + 2) true k ++ ":" ++ valueText indent v
      else
        "? " ++ scalarText (indent + 2) false k ++ newLine indent ++ ": " ++ itemText indent v) ::
      entryTexts indent rest

end

/-- The text of a value. -/
def write (v : Json) : String :=
  (match v with
    | .arr items => stack 0 "[]" (itemTexts 0 items)
    | .obj fields => stack 0 "\x7b\x7d" (entryTexts 0 fields)
    | v => atomText 2 v) ++ "\n"

end Workflow.Yaml

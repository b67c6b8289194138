/-
Workflow.Yaml.Scalar — the texts of scalars.

A scalar may run over several lines. In plain and quoted scalars the blanks
around line breaks go; a single line break becomes a space and further ones
stay. Block scalars keep their lines, or fold them by the same rule.

* `Gap` — blanks and line breaks between two pieces of text.
* `readPlain?`, `readSingleQuoted?`, `readDoubleQuoted?`, `readBlock?` — the
  text of a scalar and what follows it.
-/
import Workflow.Text.CodeRanges
import Workflow.Yaml.Chars

namespace Workflow.Yaml

/-! ## Gaps -/

/-- What stands between two pieces of text. -/
structure Gap where
  /-- Blanks before any line break. -/
  blanks : List Char
  /-- Whether a line break was passed, an escaped one included. -/
  broken : Bool
  /-- The first line break that was not escaped. -/
  first : List Char
  /-- Further line breaks. -/
  more : List Char

namespace Gap

/-- No gap. -/
def empty : Gap := ⟨[], false, [], []⟩

/-- The gap behind an escaped line break. -/
def escaped : Gap := ⟨[], true, [], []⟩

/-- Whether anything has been passed. -/
def isEmpty (g : Gap) : Bool := !g.broken && g.blanks.isEmpty

/-- Pass a blank; blanks at the start of a line do not count. -/
def addBlank (g : Gap) (c : Char) : Gap :=
  if g.broken then g else { g with blanks := g.blanks ++ [c] }

/-- Pass a line break; blanks at the end of a line do not count. -/
def addBreak (g : Gap) (c : Char) : Gap :=
  if g.broken then { g with more := g.more ++ [c] } else ⟨[], true, [c], []⟩

/-- Pass a blank or a line break. -/
def add (g : Gap) (c : Char) : Gap := if isBreak c then g.addBreak c else g.addBlank c

/-- What a gap contributes to the text. -/
def text (g : Gap) : List Char :=
  if !g.broken then g.blanks
  else if g.first == ['\n'] then (if g.more.isEmpty then [' '] else g.more)
  else g.first ++ g.more

/-- Add a gap behind text in reverse order. -/
def behind (g : Gap) (reversed : List Char) : List Char := g.text.reverse ++ reversed

end Gap

/-! ## Plain scalars -/

/-- The characters that have a meaning of their own in flow collections. -/
def isFlowMark (c : Char) : Bool :=
  c == ',' || c == '[' || c == ']' || c == '\x7b' || c == '\x7d'

/-- Whether a plain scalar ends here: at a colon with nothing behind it and, in a flow
collection, at a flow mark. -/
def endsPlain (inFlow : Bool) (c : Char) (rest : List Char) : Bool :=
  (c == ':' && startsBlank rest) || (inFlow && isFlowMark c)

/-- In a flow collection, a colon may not touch a flow mark or a question mark. -/
def isStrayColon (inFlow : Bool) (c : Char) (rest : List Char) : Bool :=
  inFlow && c == ':' && rest.head?.any fun d => isFlowMark d || d == '?'

/-- A plain scalar and what follows it; also whether a line break was passed behind it. Lines that
start left of column `indent` do not belong to it, unless it stands in a flow collection. -/
def readPlain? (inFlow : Bool) (indent column : Nat) (reversed : List Char) (gap : Gap) :
    List Char → Option (List Char × List Char × Bool)
  | [] => some (reversed.reverse, [], gap.broken)
  | c :: rest =>
    let stop := some (reversed.reverse, c :: rest, gap.broken)
    if isBreak c then readPlain? inFlow indent 0 reversed (gap.addBreak c) rest
    else if isBlank c then
      if gap.broken ∧ column < indent ∧ c = '\t' then none
      else readPlain? inFlow indent (column + 1) reversed (gap.addBlank c) rest
    else if !gap.isEmpty && ((!inFlow && column < indent) || c == '#') then stop
    else if column = 0 ∧ startsMarker (c :: rest) then stop
    else if isStrayColon inFlow c rest then none
    else if endsPlain inFlow c rest then stop
    else readPlain? inFlow indent (column + 1) (c :: gap.behind reversed) Gap.empty rest

/-! ## Quoted scalars -/

/-- A scalar between single quotation marks, from behind the opening one: its text and what
follows. A quotation mark in the text is written twice. -/
def readSingleQuoted? (lineStart : Bool) (reversed : List Char) (gap : Gap) :
    List Char → Option (List Char × List Char)
  | [] => none
  | c :: rest =>
    if lineStart ∧ startsMarker (c :: rest) then none
    else if isBreak c then readSingleQuoted? true reversed (gap.addBreak c) rest
    else if isBlank c then readSingleQuoted? false reversed (gap.addBlank c) rest
    else if c = '\'' then
      match rest with
      | '\'' :: more => readSingleQuoted? false ('\'' :: gap.behind reversed) Gap.empty more
      | _ => some ((gap.behind reversed).reverse, rest)
    else readSingleQuoted? false (c :: gap.behind reversed) Gap.empty rest

/-- The character that a letter behind a backslash stands for. -/
def escaped? : Char → Option Char
  | '0' => some (Char.ofNat 0)
  | 'a' => some (Char.ofNat 7)
  | 'b' => some (Char.ofNat 8)
  | 't' | '\t' => some '\t'
  | 'n' => some '\n'
  | 'v' => some (Char.ofNat 11)
  | 'f' => some (Char.ofNat 12)
  | 'r' => some '\r'
  | 'e' => some (Char.ofNat 27)
  | ' ' => some ' '
  | '"' => some '"'
  | '/' => some '/'
  | '\\' => some '\\'
  | 'N' => some '\u0085'
  | '_' => some '\u00a0'
  | 'L' => some '\u2028'
  | 'P' => some '\u2029'
  | _ => none

/-- The number of digits that a letter behind a backslash announces. -/
def escapeDigits? : Char → Option Nat
  | 'x' => some 2
  | 'u' => some 4
  | 'U' => some 8
  | _ => none

/-- The character with a given code, if there is one. -/
def charOfCode? (n : Nat) : Option Char := if n.isValidChar then some (Char.ofNat n) else none

/-- Where the reader of a double-quoted scalar stands: in the text, behind a backslash, or before
`left` more digits of an escape. -/
inductive EscapeState where
  | none
  | mark
  | digits (left value : Nat)
deriving DecidableEq, Repr

/-- A scalar between double quotation marks, from behind the opening one: its text and what
follows. -/
def readDoubleQuoted? (lineStart : Bool) (reversed : List Char) (gap : Gap) :
    EscapeState → List Char → Option (List Char × List Char)
  | _, [] => none
  | .none, c :: rest =>
    if lineStart ∧ startsMarker (c :: rest) then none
    else if isBreak c then readDoubleQuoted? true reversed (gap.addBreak c) .none rest
    else if isBlank c then readDoubleQuoted? false reversed (gap.addBlank c) .none rest
    else if c = '"' then some ((gap.behind reversed).reverse, rest)
    else if c = '\\' then readDoubleQuoted? false (gap.behind reversed) Gap.empty .mark rest
    else readDoubleQuoted? false (c :: gap.behind reversed) Gap.empty .none rest
  | .mark, c :: rest =>
    if isBreak c then readDoubleQuoted? true reversed Gap.escaped .none rest
    else
      match escaped? c, escapeDigits? c with
      | some d, _ => readDoubleQuoted? false (d :: reversed) Gap.empty .none rest
      | none, some n => readDoubleQuoted? false reversed Gap.empty (.digits n 0) rest
      | none, none => none
  | .digits left value, c :: rest =>
    match Text.hexDigit? c with
    | none => none
    | some d =>
      let value := 16 * value + d
      if left > 1 then readDoubleQuoted? false reversed Gap.empty (.digits (left - 1) value) rest
      else
        match charOfCode? value with
        | some e => readDoubleQuoted? false (e :: reversed) Gap.empty .none rest
        | none => none

/-! ## Block scalars -/

/-- What becomes of the line breaks at the end of a block scalar. -/
inductive Chomping where
  | strip
  | clip
  | keep
deriving DecidableEq, Repr

/-- The header of a block scalar: its chomping, and its indentation if that is given. -/
structure BlockHeader where
  chomping : Chomping
  indent : Option Nat

/-- The chomping that a mark asks for. -/
def chomping? : Char → Option Chomping
  | '-' => some .strip
  | '+' => some .keep
  | _ => none

/-- The indentation that a digit asks for; zero is refused. -/
def indentDigit? (c : Char) : Option Nat := if '1' ≤ c ∧ c ≤ '9' then some (c.toNat - 48) else none

/-- The marks behind the indicator, in either order. -/
def readBlockMarks? : List Char → Option (BlockHeader × List Char)
  | c :: d :: rest =>
    match chomping? c, chomping? d with
    | some k, _ =>
      if d.isDigit then (indentDigit? d).map fun n => (⟨k, some n⟩, rest)
      else some (⟨k, none⟩, d :: rest)
    | none, k? =>
      if c.isDigit then
        (indentDigit? c).map fun n =>
          match k? with
          | some k => (⟨k, some n⟩, rest)
          | none => (⟨.clip, some n⟩, d :: rest)
      else some (⟨.clip, none⟩, c :: d :: rest)
  | [c] =>
    match chomping? c with
    | some k => some (⟨k, none⟩, [])
    | none => if c.isDigit then (indentDigit? c).map fun n => (⟨.clip, some n⟩, [])
      else some (⟨.clip, none⟩, [c])
  | [] => some (⟨.clip, none⟩, [])

/-- Drop blanks and a comment up to the end of the line; anything else is refused. -/
def toLineEnd? (cs : List Char) : Option (List Char) :=
  let rest := cs.dropWhile isBlank
  let rest :=
    match rest with
    | '#' :: _ => rest.dropWhile fun c => !isBreak c
    | _ => rest
  if startsBreak rest then some rest else none

/-- The greatest indentation of the empty lines at the start and of the first other line. A tab may
not stand where the indentation is being measured. -/
def measureIndent? (column greatest : Nat) : List Char → Option Nat
  | [] => some (max greatest column)
  | c :: rest =>
    if c = ' ' then measureIndent? (column + 1) greatest rest
    else if c = '\t' then none
    else if isBreak c then measureIndent? 0 (max greatest column) rest
    else some (max greatest column)

/-- The text of a block scalar so far. -/
structure BlockText where
  reversed : List Char
  /-- The break behind the last line. -/
  lineEnd : List Char
  /-- The breaks of empty lines since then. -/
  empties : List Char
  /-- Whether the last line started with a blank. -/
  startedBlank : Bool

/-- The text when a line starts, with the breaks before the line folded unless the scalar is
literal. Lines that start with a blank are not folded. -/
def BlockText.startLine (t : BlockText) (literal : Bool) (startsBlank : Bool) : BlockText :=
  let folds := !literal && t.lineEnd == ['\n'] && !t.startedBlank && !startsBlank
  let lead := if folds then (if t.empties.isEmpty then [' '] else []) else t.lineEnd
  { reversed := t.empties.reverse ++ lead.reverse ++ t.reversed
    lineEnd := []
    empties := []
    startedBlank := startsBlank }

/-- The text with its end treated as the header asks. -/
def BlockText.finish (t : BlockText) (chomping : Chomping) : List Char :=
  t.reversed.reverse ++ (if chomping = .strip then [] else t.lineEnd) ++
    (if chomping = .keep then t.empties else [])

/-- The lines of a block scalar at an indentation, and what follows. -/
def readLines? (literal : Bool) (indent : Nat) (inLine : Bool) (column : Nat) (t : BlockText) :
    List Char → Option (BlockText × List Char)
  | [] => some (t, [])
  | c :: rest =>
    if inLine then
      if isBreak c then readLines? literal indent false 0 { t with lineEnd := [c] } rest
      else readLines? literal indent true (column + 1) { t with reversed := c :: t.reversed } rest
    else if column < indent ∧ c = ' ' then readLines? literal indent false (column + 1) t rest
    else if column < indent ∧ c = '\t' then none
    else if isBreak c then
      readLines? literal indent false 0 { t with empties := t.empties ++ [c] } rest
    else if column = indent then
      let t := t.startLine literal (isBlank c)
      readLines? literal indent true (column + 1) { t with reversed := c :: t.reversed } rest
    else some (t, c :: rest)

/-- A block scalar from behind its indicator: its text and what follows. `parent` is the column of
the collection around it, if there is one. -/
def readBlock? (literal : Bool) (parent : Option Nat) (cs : List Char) :
    Option (List Char × List Char) := do
  let (header, afterMarks) ← readBlockMarks? cs
  let body := (← toLineEnd? afterMarks).drop 1
  let least := (parent.map (· + 1)).getD 0
  let indent ←
    match header.indent with
    | some n => some (parent.getD 0 + n)
    | none => (measureIndent? 0 0 body).map fun n => max n (max least 1)
  let (t, rest) ← readLines? literal indent false 0 ⟨[], [], [], false⟩ body
  return (t.finish header.chomping, rest)

end Workflow.Yaml

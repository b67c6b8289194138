/-
Workflow.Yaml.Token — the tokens of YAML.

Indentation becomes tokens: a block collection opens where a line goes
deeper and closes where one comes back. Whether a scalar is a key shows
only at the colon behind it, so the key token, and with it the start of a
mapping, is put back in front of tokens already produced.

* `Token` — tokens.
* `Scanner` — the state between two tokens; `Scanner.step?` reads one.
* `tokens?` — the tokens of a text.
-/
import Workflow.Yaml.Scalar

namespace Workflow.Yaml

/-- A token. -/
inductive Token where
  | versionDirective (major minor : Nat)
  | tagDirective (handle start : List Char)
  | documentStart
  | documentEnd
  | blockSequenceStart
  | blockMappingStart
  | blockEnd
  | flowSequenceStart
  | flowSequenceEnd
  | flowMappingStart
  | flowMappingEnd
  | blockEntry
  | flowEntry
  | key
  | value
  | alias (name : List Char)
  | anchor (name : List Char)
  | tag (handle suffix : List Char)
  | scalar (text : List Char) (isPlain : Bool)
deriving DecidableEq, Repr

/-- A place where a key may have started. -/
structure PossibleKey where
  /-- Whether the text is wrong unless a key starts here. -/
  required : Bool
  /-- The number of tokens in front of it. -/
  tokensBefore : Nat
  index : Nat
  line : Nat
  column : Nat

/-- The state between two tokens. -/
structure Scanner where
  rest : List Char
  index : Nat
  line : Nat
  column : Nat
  /-- Tokens so far, the last one first. -/
  produced : List Token
  count : Nat
  /-- The columns of open block collections, the innermost first. -/
  indents : List Nat
  /-- Whether a key may start here. -/
  keyAllowed : Bool
  /-- The possible key of the block context. -/
  blockKey : Option PossibleKey
  /-- The possible keys of open flow collections, the innermost first. -/
  flowKeys : List (Option PossibleKey)

namespace Scanner

/-- The state at the start of a text. -/
def start (cs : List Char) : Scanner := ⟨cs, 0, 0, 0, [], 0, [], true, none, []⟩

/-- Whether a flow collection is open. -/
def inFlow (s : Scanner) : Bool := !s.flowKeys.isEmpty

/-- Pass one character. -/
def pass (s : Scanner) (c : Char) : Scanner :=
  if isBreak c then { s with index := s.index + 1, line := s.line + 1, column := 0 }
  else { s with index := s.index + 1, column := s.column + 1 }

/-- Pass characters until `rest` is left. -/
def passTo (s : Scanner) (rest : List Char) : Scanner :=
  { (s.rest.take (s.rest.length - rest.length)).foldl pass s with rest }

/-- Produce a token. -/
def produce (s : Scanner) (t : Token) : Scanner :=
  { s with produced := t :: s.produced, count := s.count + 1 }

/-- Put a token in front of the tokens from the given number on. -/
def produceAt (s : Scanner) (number : Nat) (t : Token) : Scanner :=
  let later := s.count - number
  { s with produced := s.produced.take later ++ t :: s.produced.drop later, count := s.count + 1 }

/-! ## Indentation -/

/-- Whether a block collection at a column would be inside all open ones. -/
def isDeeper (s : Scanner) (column : Nat) : Bool :=
  match s.indents with
  | [] => true
  | i :: _ => i < column

/-- Open a block collection at a column, unless one is open there. -/
def openBlock (s : Scanner) (column number : Nat) (t : Token) : Scanner :=
  if !s.inFlow && s.isDeeper column then
    { s.produceAt number t with indents := column :: s.indents }
  else s

/-- Close the block collections right of a column. -/
def closeBlocks (s : Scanner) (column : Nat) : Scanner :=
  if s.inFlow then s
  else
    let closed := s.indents.takeWhile fun i => column < i
    { s with
      produced := closed.map (fun _ => Token.blockEnd) ++ s.produced
      count := s.count + closed.length
      indents := s.indents.drop closed.length }

/-- Close all block collections. -/
def closeAll (s : Scanner) : Scanner :=
  if s.inFlow then s
  else
    { s with
      produced := s.indents.map (fun _ => Token.blockEnd) ++ s.produced
      count := s.count + s.indents.length
      indents := [] }

/-! ## Possible keys -/

/-- The possible key of the innermost collection. -/
def possibleKey (s : Scanner) : Option PossibleKey :=
  match s.flowKeys with
  | [] => s.blockKey
  | k :: _ => k

/-- Set the possible key of the innermost collection. -/
def setKey (s : Scanner) (k : Option PossibleKey) : Scanner :=
  match s.flowKeys with
  | [] => { s with blockKey := k }
  | _ :: more => { s with flowKeys := k :: more }

/-- Give up the possible key; a required one may not be given up. -/
def dropKey? (s : Scanner) : Option Scanner :=
  if s.possibleKey.any PossibleKey.required then none else some (s.setKey none)

/-- Note that a key may start here. -/
def saveKey? (s : Scanner) : Option Scanner :=
  if s.keyAllowed then
    s.dropKey?.map fun s => s.setKey (some
      { required := !s.inFlow && s.indents.head? == some s.column
        tokensBefore := s.count
        index := s.index
        line := s.line
        column := s.column })
  else some s

/-- Whether a key from an earlier line, or one of more than 1024 characters, is no longer one. -/
def isStale (s : Scanner) (k : PossibleKey) : Bool := k.line < s.line || k.index + 1024 < s.index

/-- Give up the possible keys that are too far back. -/
def dropStale? (s : Scanner) : Option Scanner :=
  let fresh (k : Option PossibleKey) := k.filter fun k => !s.isStale k
  if s.blockKey.any fun k => k.required && s.isStale k then none
  else some { s with blockKey := fresh s.blockKey, flowKeys := s.flowKeys.map fresh }

/-! ## Between tokens -/

/-- Pass blanks, comments and line breaks. Where a key may start in a block, a tab is no blank. -/
def passBlanks : Nat → Scanner → Scanner
  | 0, s => s
  | fuel + 1, s =>
    match s.rest with
    | [] => s
    | c :: rest =>
      if c = '\ufeff' ∧ s.column = 0 ∨ c = ' ' ∨ c = '\t' ∧ (s.inFlow ∨ !s.keyAllowed) then
        passBlanks fuel { s.pass c with rest }
      else if c = '#' then
        passBlanks fuel (s.passTo ((c :: rest).dropWhile fun d => !isBreak d))
      else if isBreak c then
        passBlanks fuel { s.pass c with rest, keyAllowed := !s.inFlow || s.keyAllowed }
      else s

/-! ## Tokens of several characters -/

/-- The name behind the sign of an anchor or alias. It is not empty, and what follows cannot
belong to it. -/
def readName? (cs : List Char) : Option (List Char × List Char) :=
  let name := cs.takeWhile isWordChar
  let rest := cs.dropWhile isWordChar
  let ends := startsBlank rest || rest.head?.any fun c => "?:,]\x7d%@`".toList.contains c
  if !name.isEmpty && ends then some (name, rest) else none

/-- The characters of the address in a tag; brackets and commas count between angle brackets and
in directives. -/
def isAddressChar (verbatim : Bool) (c : Char) : Bool :=
  isWordChar c || ";/?:@&=+$.%!~*'()".toList.contains c || (verbatim && ",[]".toList.contains c)

/-- The bytes that percent signs announce, as characters; anything else stays. -/
def percentBytes? : List Char → Option (List (Nat × Bool))
  | '%' :: a :: b :: rest =>
    match Text.hexDigit? a, Text.hexDigit? b with
    | some x, some y => (percentBytes? rest).map ((16 * x + y, true) :: ·)
    | _, _ => none
  | '%' :: _ => none
  | c :: rest => (percentBytes? rest).map ((c.toNat, false) :: ·)
  | [] => some []

/-- The text of an address. -/
def addressText? (cs : List Char) : Option (List Char) := do
  let parts ← percentBytes? cs
  let bytes := ByteArray.mk (parts.map fun (n, _) => n.toUInt8).toArray
  return (← String.fromUTF8? bytes).toList

/-- An address and what follows. -/
def readAddress? (verbatim : Bool) (cs : List Char) : Option (List Char × List Char) :=
  (addressText? (cs.takeWhile (isAddressChar verbatim))).map fun a =>
    (a, cs.dropWhile (isAddressChar verbatim))

/-- A tag from its exclamation mark on: its handle, its suffix and what follows. -/
def readTag? (cs : List Char) : Option (List Char × List Char × List Char) :=
  match cs with
  | '!' :: '<' :: more =>
    match readAddress? true more with
    | some (a, '>' :: rest) => if a.isEmpty then none else some ([], a, rest)
    | _ => none
  | '!' :: more =>
    let name := more.takeWhile isWordChar
    match more.dropWhile isWordChar with
    | '!' :: afterHandle =>
      (readAddress? false afterHandle).bind fun (a, rest) =>
        if a.isEmpty then none else some ('!' :: name ++ ['!'], a, rest)
    | afterName =>
      (readAddress? false afterName).map fun (a, rest) =>
        let suffix := name ++ a
        if suffix.isEmpty then ([], ['!'], rest) else (['!'], suffix, rest)
  | _ => none

/-- A number of at most nine digits. -/
def readVersionPart? (cs : List Char) : Option (Nat × List Char) :=
  let digits := cs.takeWhile Char.isDigit
  if digits.isEmpty || digits.length > 9 then none
  else some (Nat.ofDigitChars 10 digits 0, cs.dropWhile Char.isDigit)

/-- A directive from behind its percent sign, up to the end of its line. -/
def readDirective? (cs : List Char) : Option (Token × List Char) :=
  let name := cs.takeWhile isWordChar
  let afterName := cs.dropWhile isWordChar
  if !startsBlank afterName then none
  else if name == "YAML".toList then do
    let (major, afterMajor) ← readVersionPart? (afterName.dropWhile isBlank)
    match afterMajor with
    | '.' :: more =>
      let (minor, rest) ← readVersionPart? more
      return (.versionDirective major minor, ← toLineEnd? rest)
    | _ => none
  else if name == "TAG".toList then
    match afterName.dropWhile isBlank with
    | '!' :: more =>
      let word := more.takeWhile isWordChar
      let afterWord := more.dropWhile isWordChar
      let handle? :=
        match afterWord with
        | '!' :: rest => some ('!' :: word ++ ['!'], rest)
        | rest => if word.isEmpty then some (['!'], rest) else none
      match handle? with
      | some (handle, c :: rest) =>
        if isBlank c then do
          let (start, rest) ← readAddress? true (rest.dropWhile isBlank)
          if start.isEmpty || !startsBlank rest then none
          else return (.tagDirective handle start, ← toLineEnd? rest)
        else none
      | _ => none
    | _ => none
  else none

/-! ## Tokens -/

/-- Pass a mark of `width` characters and produce its token. -/
def mark (s : Scanner) (width : Nat) (t : Token) : Scanner :=
  (s.passTo (s.rest.drop width)).produce t

/-- A mark between documents. -/
def documentMark? (s : Scanner) (t : Token) : Option Scanner :=
  s.closeAll.dropKey?.map fun s => { s with keyAllowed := false }.mark 3 t

/-- The opening bracket of a flow collection. -/
def openFlow? (s : Scanner) (t : Token) : Option Scanner :=
  s.saveKey?.map fun s => { s with flowKeys := none :: s.flowKeys, keyAllowed := true }.mark 1 t

/-- The closing bracket of a flow collection. -/
def closeFlow? (s : Scanner) (t : Token) : Option Scanner :=
  s.dropKey?.map fun s => { s with flowKeys := s.flowKeys.drop 1, keyAllowed := false }.mark 1 t

/-- A dash in front of an item. -/
def blockEntry? (s : Scanner) : Option Scanner :=
  if !s.inFlow && !s.keyAllowed then none
  else
    (s.openBlock s.column s.count .blockSequenceStart).dropKey?.map fun s =>
      { s with keyAllowed := true }.mark 1 .blockEntry

/-- A question mark in front of a key. -/
def explicitKey? (s : Scanner) : Option Scanner :=
  if !s.inFlow && !s.keyAllowed then none
  else
    (s.openBlock s.column s.count .blockMappingStart).dropKey?.map fun s =>
      { s with keyAllowed := !s.inFlow }.mark 1 .key

/-- A colon: behind a possible key, which it makes a key, or alone. -/
def valueMark? (s : Scanner) : Option Scanner :=
  match s.possibleKey with
  | some k =>
    let s := (s.produceAt k.tokensBefore .key).openBlock k.column k.tokensBefore .blockMappingStart
    some ({ s.setKey none with keyAllowed := false }.mark 1 .value)
  | none =>
    if !s.inFlow && !s.keyAllowed then none
    else
      let s := s.openBlock s.column s.count .blockMappingStart
      some ({ s with keyAllowed := !s.inFlow }.mark 1 .value)

/-- A token that may start a key: `t` with `rest` behind it. -/
def keyPart? (s : Scanner) (t : Token) (rest : List Char) : Option Scanner :=
  s.saveKey?.map fun s => { s.passTo rest with keyAllowed := false }.produce t

/-- A plain scalar. -/
def plain? (s : Scanner) : Option Scanner := do
  let s ← s.saveKey?
  let indent := (s.indents.head?.map (· + 1)).getD 0
  let (text, rest, broken) ← readPlain? s.inFlow indent s.column [] Gap.empty s.rest
  return { s.passTo rest with keyAllowed := broken }.produce (.scalar text true)

/-- A block scalar. -/
def block? (s : Scanner) (literal : Bool) (more : List Char) : Option Scanner := do
  let s ← s.dropKey?
  let (text, rest) ← readBlock? literal s.indents.head? more
  return { s.passTo rest with keyAllowed := true }.produce (.scalar text false)

/-- A tag; in a flow collection a comma may follow at once. -/
def tag? (s : Scanner) : Option Scanner := do
  let (handle, suffix, rest) ← readTag? s.rest
  if startsBlank rest || (s.inFlow && rest.head? == some ',') then
    s.keyPart? (.tag handle suffix) rest
  else none

/-- Whether a plain scalar may start with a character: no indicator, or one of `-?:` where it
means nothing. -/
def startsPlain (inFlow : Bool) (c : Char) (rest : List Char) : Bool :=
  !"-?:,[]\x7b\x7d#&*!|>'\"%@`\t".toList.contains c ||
    (c == '-' && !rest.head?.any isBlank) ||
    (!inFlow && (c == '?' || c == ':') && !startsBlank rest)

/-- Read the token that starts with a character. -/
def token? (s : Scanner) (c : Char) (more : List Char) : Option Scanner :=
  let lineStart := s.column = 0
  if lineStart ∧ c = '%' then do
    let s ← s.closeAll.dropKey?
    let (t, rest) ← readDirective? more
    return { s.passTo (rest.drop 1) with keyAllowed := false }.produce t
  else if lineStart ∧ startsMarker s.rest then
    s.documentMark? (if c = '-' then .documentStart else .documentEnd)
  else
    match c with
    | '[' => s.openFlow? .flowSequenceStart
    | '\x7b' => s.openFlow? .flowMappingStart
    | ']' => s.closeFlow? .flowSequenceEnd
    | '\x7d' => s.closeFlow? .flowMappingEnd
    | ',' => s.dropKey?.map fun s => { s with keyAllowed := true }.mark 1 .flowEntry
    | '*' => (readName? more).bind fun (name, rest) => s.keyPart? (.alias name) rest
    | '&' => (readName? more).bind fun (name, rest) => s.keyPart? (.anchor name) rest
    | '!' => s.tag?
    | '\'' =>
      (readSingleQuoted? false [] Gap.empty more).bind fun (text, rest) =>
        s.keyPart? (.scalar text false) rest
    | '"' =>
      (readDoubleQuoted? false [] Gap.empty .none more).bind fun (text, rest) =>
        s.keyPart? (.scalar text false) rest
    | _ =>
      if c = '-' ∧ startsBlank more then s.blockEntry?
      else if c = '?' ∧ (s.inFlow ∨ startsBlank more) then s.explicitKey?
      else if c = ':' ∧ (s.inFlow ∨ startsBlank more) then s.valueMark?
      else if (c = '|' ∨ c = '>') ∧ !s.inFlow then s.block? (c = '|') more
      else if startsPlain s.inFlow c more then s.plain?
      else none

/-- Read one token; the second part tells whether there was one. -/
def step? (s : Scanner) : Option (Scanner × Bool) := do
  let s ← (s.passBlanks (s.rest.length + 1)).dropStale?
  let s := s.closeBlocks s.column
  match s.rest with
  | [] => return (← s.closeAll.dropKey?, false)
  | c :: more => return (← s.token? c more, true)

/-- Read tokens up to the end. -/
def run? : Nat → Scanner → Option Scanner
  | 0, _ => none
  | fuel + 1, s =>
    match s.step? with
    | none => none
    | some (s, true) => run? fuel s
    | some (s, false) => some s

end Scanner

/-- The tokens of a text. A mark of byte order in front does not count. -/
def tokens? (text : String) : Option (List Token) :=
  let cs :=
    match text.toList with
    | '\ufeff' :: rest => rest
    | cs => cs
  if cs.all isAllowed then
    let cs := unifyBreaks cs
    ((Scanner.start cs).run? (cs.length + 2)).map fun s => s.produced.reverse
  else none

end Workflow.Yaml

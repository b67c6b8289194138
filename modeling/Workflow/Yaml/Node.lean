/-
Workflow.Yaml.Node — the nodes of a YAML document.

Tokens form nodes: scalars, sequences and mappings, each perhaps with an
anchor and a tag, and aliases of earlier nodes. What a token list leaves
out between two marks is an empty plain scalar.

* `Node` — a node; its anchors are names as written.
* `Nodes.read?` — the only document of a token list, if there is one.
-/
import Workflow.Yaml.Token

namespace Workflow.Yaml

/-- What may stand in front of a node: an anchor and a tag. -/
structure Properties (ι : Type) where
  anchor : Option ι
  tag : Option (List Char)

/-- A node, with anchors of type `ι`. -/
inductive Node (ι : Type) where
  | alias (anchor : ι)
  | scalar (properties : Properties ι) (text : List Char) (isPlain : Bool)
  | sequence (properties : Properties ι) (items : List (Node ι))
  | mapping (properties : Properties ι) (entries : List (Node ι × Node ι))

/-- A node as written, with names for anchors. -/
abbrev NamedNode := Node (List Char)

/-- A node that is left out. -/
def Node.empty {ι : Type} : Node ι := .scalar ⟨none, none⟩ [] true

/-- The addresses that handles stand for. -/
abbrev Handles := List (List Char × List Char)

/-- The handles that need no directive. -/
def standardHandles : Handles :=
  [(['!'], ['!']), (['!', '!'], "tag:yaml.org,2002:".toList)]

namespace Nodes

/-- A reader of part of a token list. -/
abbrev Reader (α : Type) := List Token → Option (α × List Token)

/-- The full tag of a handle and a suffix. -/
def fullTag? (handles : Handles) (handle suffix : List Char) : Option (List Char) :=
  if handle.isEmpty then some suffix
  else (handles.find? fun (h, _) => h == handle).map fun (_, start) => start ++ suffix

/-- The anchor and the tag in front of a node, in either order. -/
def readProperties? (handles : Handles) : Reader (Properties (List Char))
  | .anchor a :: .tag h t :: rest =>
    (fullTag? handles h t).map fun tag => (⟨some a, some tag⟩, rest)
  | .tag h t :: .anchor a :: rest =>
    (fullTag? handles h t).map fun tag => (⟨some a, some tag⟩, rest)
  | .anchor a :: rest => some (⟨some a, none⟩, rest)
  | .tag h t :: rest => (fullTag? handles h t).map fun tag => (⟨none, some tag⟩, rest)
  | rest => some (⟨none, none⟩, rest)

/-- A node, unless the next token shows that it is left out. -/
def orEmpty (read : Reader NamedNode) (absent : Token → Bool) : Reader NamedNode := fun ts =>
  match ts with
  | t :: _ => if absent t then some (Node.empty, ts) else read ts
  | [] => read ts

/-- The tokens in front of which an item of a block sequence is left out. -/
def endsItem : Token → Bool
  | .blockEntry | .blockEnd => true
  | _ => false

/-- The tokens in front of which an item of a sequence at its mapping's own indentation is left
out. -/
def endsLooseItem : Token → Bool
  | .blockEntry | .key | .value | .blockEnd => true
  | _ => false

/-- The tokens in front of which a part of a block mapping is left out. -/
def endsEntry : Token → Bool
  | .key | .value | .blockEnd => true
  | _ => false

/-- The tokens in front of which a part of a pair in a flow sequence is left out. -/
def endsPair : Token → Bool
  | .flowEntry | .flowSequenceEnd => true
  | _ => false

/-- The tokens in front of which a part of a flow mapping is left out. -/
def endsFlowEntry : Token → Bool
  | .flowEntry | .flowMappingEnd => true
  | _ => false

/-- The value behind a value mark; without the mark it is left out. -/
def afterValueMark (read : Reader NamedNode) (absent : Token → Bool) : Reader NamedNode
  | .value :: rest => orEmpty read absent rest
  | ts => some (Node.empty, ts)

/-- The key of the only pair of an item in a flow sequence. A value mark in its place is passed
over together with the key. -/
def pairKey (read : Reader NamedNode) : Reader NamedNode
  | .value :: rest => some (Node.empty, rest)
  | .flowEntry :: rest => some (Node.empty, rest)
  | .flowSequenceEnd :: rest => some (Node.empty, rest)
  | ts => read ts

mutual

/-- A node. `inBlock` tells whether block collections may start here, `loose` whether a sequence
may start at the indentation of the mapping around it. -/
def readNode (handles : Handles) (inBlock loose : Bool) : Nat → Reader NamedNode
  | 0, _ => none
  | _ + 1, .alias name :: rest => some (.alias name, rest)
  | fuel + 1, ts =>
    match readProperties? handles ts with
    | none => none
    | some (p, ts) =>
      match ts with
      | .scalar text isPlain :: rest => some (.scalar p text isPlain, rest)
      | .flowSequenceStart :: rest =>
        (readFlowItems handles true fuel rest).map fun (items, rest) => (.sequence p items, rest)
      | .flowMappingStart :: rest =>
        (readFlowEntries handles true fuel rest).map fun (entries, rest) =>
          (.mapping p entries, rest)
      | _ =>
        let missing :=
          if p.anchor.isSome || p.tag.isSome then some (.scalar p [] true, ts) else none
        match ts with
        | .blockEntry :: _ =>
          if loose then
            (readLooseItems handles fuel ts).map fun (items, rest) => (.sequence p items, rest)
          else missing
        | .blockSequenceStart :: rest =>
          if inBlock then
            (readItems handles fuel rest).map fun (items, rest) => (.sequence p items, rest)
          else missing
        | .blockMappingStart :: rest =>
          if inBlock then
            (readEntries handles fuel rest).map fun (entries, rest) => (.mapping p entries, rest)
          else missing
        | _ => missing

/-- The items of a block sequence, with its end. -/
def readItems (handles : Handles) : Nat → Reader (List NamedNode)
  | 0, _ => none
  | fuel + 1, .blockEntry :: rest => do
    let (item, rest) ← orEmpty (readNode handles true false fuel) endsItem rest
    let (items, rest) ← readItems handles fuel rest
    return (item :: items, rest)
  | _ + 1, .blockEnd :: rest => some ([], rest)
  | _ + 1, _ => none

/-- The items of a block sequence that has no indentation of its own. -/
def readLooseItems (handles : Handles) : Nat → Reader (List NamedNode)
  | 0, _ => none
  | fuel + 1, .blockEntry :: rest => do
    let (item, rest) ← orEmpty (readNode handles true false fuel) endsLooseItem rest
    let (items, rest) ← readLooseItems handles fuel rest
    return (item :: items, rest)
  | _ + 1, rest => some ([], rest)

/-- The entries of a block mapping, with its end. -/
def readEntries (handles : Handles) : Nat → Reader (List (NamedNode × NamedNode))
  | 0, _ => none
  | fuel + 1, .key :: rest => do
    let (key, rest) ← orEmpty (readNode handles true true fuel) endsEntry rest
    let (value, rest) ← afterValueMark (readNode handles true true fuel) endsEntry rest
    let (entries, rest) ← readEntries handles fuel rest
    return ((key, value) :: entries, rest)
  | _ + 1, .blockEnd :: rest => some ([], rest)
  | _ + 1, _ => none

/-- The items of a flow sequence, with its end. -/
def readFlowItems (handles : Handles) (isFirst : Bool) : Nat → Reader (List NamedNode)
  | 0, _ => none
  | fuel + 1, ts => do
    if ts.head? == some .flowSequenceEnd then return ([], ts.drop 1)
    let ts ←
      if isFirst then some ts
      else if ts.head? == some .flowEntry then some (ts.drop 1)
      else none
    match ts with
    | .flowSequenceEnd :: rest => return ([], rest)
    | .key :: rest =>
      let (key, rest) ← pairKey (readNode handles false false fuel) rest
      let (value, rest) ← afterValueMark (readNode handles false false fuel) endsPair rest
      let (items, rest) ← readFlowItems handles false fuel rest
      return (.mapping ⟨none, none⟩ [(key, value)] :: items, rest)
    | ts =>
      let (item, rest) ← readNode handles false false fuel ts
      let (items, rest) ← readFlowItems handles false fuel rest
      return (item :: items, rest)

/-- The entries of a flow mapping, with its end. -/
def readFlowEntries (handles : Handles) (isFirst : Bool) :
    Nat → Reader (List (NamedNode × NamedNode))
  | 0, _ => none
  | fuel + 1, ts => do
    if ts.head? == some .flowMappingEnd then return ([], ts.drop 1)
    let ts ←
      if isFirst then some ts
      else if ts.head? == some .flowEntry then some (ts.drop 1)
      else none
    match ts with
    | .flowMappingEnd :: rest => return ([], rest)
    | .key :: rest =>
      let absent (t : Token) := t == .value || endsFlowEntry t
      let (key, rest) ← orEmpty (readNode handles false false fuel) absent rest
      let (value, rest) ← afterValueMark (readNode handles false false fuel) endsFlowEntry rest
      let (entries, rest) ← readFlowEntries handles false fuel rest
      return ((key, value) :: entries, rest)
    | ts =>
      let (key, rest) ← readNode handles false false fuel ts
      let (entries, rest) ← readFlowEntries handles false fuel rest
      return ((key, Node.empty) :: entries, rest)

end

/-- The directives in front of a document; each may stand once, and the version is 1.1 or 1.2. -/
def readDirectives? (versioned : Bool) (handles : Handles) : Reader Handles
  | .versionDirective major minor :: rest =>
    if versioned ∨ major ≠ 1 ∨ (minor ≠ 1 ∧ minor ≠ 2) then none
    else readDirectives? true handles rest
  | .tagDirective handle start :: rest =>
    if handles.any fun (h, _) => h == handle then none
    else readDirectives? versioned (handles ++ [(handle, start)]) rest
  | ts => some (handles, ts)

/-- Whether a token belongs to the head of a document. -/
def startsHead : Token → Bool
  | .versionDirective .. | .tagDirective .. | .documentStart => true
  | _ => false

/-- The only document of a token list; `none` inside for a list without one. -/
def read? (ts : List Token) : Option (Option NamedNode) := do
  match ts with
  | [] => return none
  | t :: _ =>
    let fuel := 4 * ts.length + 4
    let (node, rest) ←
      if startsHead t then do
        let (handles, rest) ← readDirectives? false [] ts
        match rest with
        | .documentStart :: rest =>
          match rest with
          | [] => some (Node.empty, rest)
          | u :: _ =>
            if startsHead u || u == .documentEnd then some (Node.empty, rest)
            else readNode (handles ++ standardHandles) true false fuel rest
        | _ => none
      else readNode standardHandles true false fuel ts
    if rest.all (· == .documentEnd) then return some node else none

end Nodes

end Workflow.Yaml

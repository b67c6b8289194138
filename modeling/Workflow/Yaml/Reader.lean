/-
Workflow.Yaml.Reader — documents of YAML texts.

An alias stands for the last node before it that carries its anchor. A node
that contains an alias of itself has no end, so such an alias is unreadable,
as is a container nested too deep.

* `Node.numbered?` — names of anchors replaced by numbers.
* `Node.expand?` — the document of a node.
* `readDocument?` — the document of a text.
-/
import Workflow.Document.Basic
import Workflow.Yaml.Node

namespace Workflow.Yaml

/-! ## Numbered anchors

An anchor has a number, the number of other names known before it. The node
of a number is the last one that took it. -/

/-- The numbers of anchors. -/
abbrev AnchorNumbers := List (List Char × Nat)

/-- Number an anchor; a name that is known gets a new number. -/
def numberAnchor (known : AnchorNumbers) : Option (List Char) → Option Nat × AnchorNumbers
  | none => (none, known)
  | some name =>
    (some known.length, (name, known.length) :: known.filter fun (other, _) => other != name)

mutual

/-- The node with numbers for names; `none` if an alias has no anchor before it. -/
def Node.numbered? (known : AnchorNumbers) : NamedNode → Option (Node Nat × AnchorNumbers)
  | .alias name =>
    (known.find? fun (other, _) => other == name).map fun (_, n) => (.alias n, known)
  | .scalar p text isPlain =>
    let (anchor, known) := numberAnchor known p.anchor
    some (.scalar ⟨anchor, p.tag⟩ text isPlain, known)
  | .sequence p items =>
    let (anchor, known) := numberAnchor known p.anchor
    (numberedItems? known items).map fun (items, known) => (.sequence ⟨anchor, p.tag⟩ items, known)
  | .mapping p entries =>
    let (anchor, known) := numberAnchor known p.anchor
    (numberedEntries? known entries).map fun (entries, known) =>
      (.mapping ⟨anchor, p.tag⟩ entries, known)

/-- The items of a sequence, with numbers. -/
def numberedItems? (known : AnchorNumbers) :
    List NamedNode → Option (List (Node Nat) × AnchorNumbers)
  | [] => some ([], known)
  | n :: rest => do
    let (n, known) ← n.numbered? known
    let (rest, known) ← numberedItems? known rest
    return (n :: rest, known)

/-- The entries of a mapping, with numbers. -/
def numberedEntries? (known : AnchorNumbers) :
    List (NamedNode × NamedNode) → Option (List (Node Nat × Node Nat) × AnchorNumbers)
  | [] => some ([], known)
  | (k, v) :: rest => do
    let (k, known) ← k.numbered? known
    let (v, known) ← v.numbered? known
    let (rest, known) ← numberedEntries? known rest
    return ((k, v) :: rest, known)

end

/-- The properties of a node that is no alias. -/
def Node.properties? {ι : Type} : Node ι → Option (Properties ι)
  | .alias _ => none
  | .scalar p _ _ | .sequence p _ | .mapping p _ => some p

/-- The anchor of a node. -/
def Node.anchor? {ι : Type} (n : Node ι) : Option ι := n.properties?.bind Properties.anchor

mutual

/-- The nodes of a tree, each before those inside it. -/
def Node.subnodes : Node Nat → List (Node Nat)
  | .alias n => [.alias n]
  | .scalar p text isPlain => [.scalar p text isPlain]
  | .sequence p items => .sequence p items :: subnodesOfItems items
  | .mapping p entries => .mapping p entries :: subnodesOfEntries entries

/-- The nodes of the items of a sequence. -/
def subnodesOfItems : List (Node Nat) → List (Node Nat)
  | [] => []
  | n :: rest => n.subnodes ++ subnodesOfItems rest

/-- The nodes of the entries of a mapping. -/
def subnodesOfEntries : List (Node Nat × Node Nat) → List (Node Nat)
  | [] => []
  | (k, v) :: rest => k.subnodes ++ v.subnodes ++ subnodesOfEntries rest

end

/-! ## Documents -/

/-- The types that YAML names by itself share the start of their tags. -/
def ownTag (name : String) : List Char := ("tag:yaml.org,2002:" ++ name).toList

/-- Whether a scalar denotes a value of the type that its tag names, if that is a type of open
scalars. -/
def fitsTag? (tag : List Char) (text : String) : Option Bool :=
  if tag == ownTag "null" then some (text != "" && Document.isNullWord text)
  else if tag == ownTag "bool" then some (Document.boolWord? text).isSome
  else if tag == ownTag "int" then some (Document.intWord? text.toList).isSome
  else if tag == ownTag "float" then some (Document.floatWord? text.toList).isSome
  else none

/-- The document of a scalar. -/
def scalarDocument (tag : Option (List Char)) (text : String) (isPlain : Bool) : Document :=
  let untagged := if isPlain then Document.plain text else Document.text text
  match tag with
  | none => untagged
  | some ('!' :: name) => .tagged (String.ofList name) untagged
  | some tag =>
    match fitsTag? tag text with
    | some true => .plain text
    | some false => .tagged "" (.text text)
    | none => .text text

/-- A container under its tag; only a tag of the writer's own counts. -/
def tagContainer (tag : Option (List Char)) (d : Document) : Document :=
  match tag with
  | some ('!' :: name) => .tagged (String.ofList name) d
  | _ => d

/-- A document, and how many aliases may still be followed. -/
abbrev Expansion := Option (Document × Nat)

/-- The documents of some nodes in a row. -/
def expandAll (expand : Node Nat → Nat → Expansion) (budget : Nat) :
    List (Node Nat) → Option (List Document × Nat)
  | [] => some ([], budget)
  | n :: rest => do
    let (d, budget) ← expand n budget
    let (ds, budget) ← expandAll expand budget rest
    return (d :: ds, budget)

/-- The documents of entries in a row. -/
def expandEntries (expand : Node Nat → Nat → Expansion) (budget : Nat) :
    List (Node Nat × Node Nat) → Option (List (Document × Document) × Nat)
  | [] => some ([], budget)
  | (k, v) :: rest => do
    let (key, budget) ← expand k budget
    let (value, budget) ← expand v budget
    let (entries, budget) ← expandEntries expand budget rest
    return ((key, value) :: entries, budget)

/-- The document of a node that is no alias, given how the nodes inside it expand; `none` in place
of that when no container may stand here. -/
def Node.expandWith (expand : Option (Node Nat → Nat → Expansion)) (n : Node Nat) (budget : Nat) :
    Expansion :=
  match n, expand with
  | .scalar p text isPlain, _ => some (scalarDocument p.tag (String.ofList text) isPlain, budget)
  | .sequence p items, some expand =>
    (expandAll expand budget items).map fun (ds, budget) => (tagContainer p.tag (.list ds), budget)
  | .mapping p entries, some expand =>
    (expandEntries expand budget entries).map fun (es, budget) =>
      (tagContainer p.tag (.dict es), budget)
  | _, _ => some (.unreadable, budget)

/-- The document of a node with containers nested at most `depth` deep, inside the nodes with the
anchors `around`. Of the budget of aliases to follow, what is left comes back. -/
def Node.expand? (target? : Nat → Option (Node Nat)) :
    Nat → List Nat → Node Nat → Nat → Expansion
  | depth, around, n, budget =>
    let inner (anchor : Option Nat) : Option (Node Nat → Nat → Expansion) :=
      match depth with
      | 0 => none
      | depth + 1 => some (Node.expand? target? depth (anchor.toList ++ around))
    match n with
    | .alias number =>
      if around.contains number then some (.unreadable, budget)
      else
        match budget, target? number with
        | budget + 1, some n => n.expandWith (inner n.anchor?) budget
        | _, _ => none
    | n => n.expandWith (inner n.anchor?) budget

/-- The greatest depth of nesting that is read. -/
def depthLimit : Nat := 128

/-- The marks that a list of nodes is written with: one a node, and one for the end of each
container. -/
def markCount (nodes : List (Node Nat)) : Nat :=
  nodes.length + nodes.countP fun n =>
    match n with
    | .sequence .. | .mapping .. => true
    | _ => false

/-- The document of the only document of a text; a text without one is an empty scalar. -/
def readDocument? (text : String) : Option Document := do
  match ← (tokens? text).bind Nodes.read? with
  | none => some (.plain "")
  | some n =>
    let (n, _) ← n.numbered? []
    let nodes := n.subnodes
    let target? (number : Nat) := nodes.reverse.find? fun m => m.anchor? == some number
    let (d, _) ← Node.expand? target? depthLimit [] n (100 * markCount nodes)
    return d

end Workflow.Yaml

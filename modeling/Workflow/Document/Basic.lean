/-
Workflow.Document.Basic — documents before they are given a type.

A document is what a JSON or YAML text says before anyone asks for a
particular type: keys may repeat, and a scalar without quotation marks in
YAML is still open, since `5` is a number to one reader and a text to
another. Decoders ask a document for the type they need.

* `Document` — the tree.
* `Document.ofJson` — the document of a value.
* `Document.toJson?` — the value that an untyped reader sees.
* `Document.asText?`, `asBool?`, `asNatBelow?`, `asFloat?` — typed scalars.
* `Document.fields?` — the fields of a record.
* `Document.within` — a limit on nesting.
-/
import Workflow.Json.Value
import Workflow.Number.Reading

namespace Workflow

/-- An untyped document. -/
inductive Document where
  | null
  | bool (b : Bool)
  | num (n : Json.Num)
  /-- A text in quotation marks, or any text of JSON. -/
  | text (s : String)
  /-- A scalar without quotation marks, whose type is open. -/
  | plain (s : String)
  /-- A scalar that is well formed but denotes no value: a number out of range, or a text with
  half of a character pair. It may stand where nobody reads it. -/
  | unreadable
  /-- A document under a name of its own type. A reader who asks for a type looks through it; to
  an untyped reader it denotes no value. -/
  | tagged (tag : String) (content : Document)
  | list (items : List Document)
  | dict (entries : List (Document × Document))
deriving Repr

namespace Document

instance : Inhabited Document := ⟨.null⟩

/-! ## Scalars whose type is open -/

/-- Whether a scalar is one of the words for nothing. -/
def isNullWord (s : String) : Bool := ["", "null", "Null", "NULL", "~"].contains s

/-- The truth value of a scalar. -/
def boolWord? (s : String) : Option Bool :=
  if s == "true" || s == "True" || s == "TRUE" then some true
  else if s == "false" || s == "False" || s == "FALSE" then some false
  else none

/-- The value of a digit in bases up to sixteen. -/
def digitIn? (base : Nat) (c : Char) : Option Nat :=
  let n :=
    if '0' ≤ c ∧ c ≤ '9' then some (c.toNat - 48)
    else if 'a' ≤ c ∧ c ≤ 'f' then some (c.toNat - 87)
    else if 'A' ≤ c ∧ c ≤ 'F' then some (c.toNat - 55)
    else none
  n.filter (· < base)

/-- The number of a non-empty run of digits in a base. -/
def natIn? (base : Nat) : List Char → Option Nat
  | [] => none
  | cs => cs.foldlM (fun n c => (digitIn? base c).map (base * n + ·)) 0

/-- The base that a mark such as `0x` announces, and what follows it. -/
def basedDigits? : List Char → Option (Nat × List Char)
  | '0' :: 'x' :: rest => some (16, rest)
  | '0' :: 'o' :: rest => some (8, rest)
  | '0' :: 'b' :: rest => some (2, rest)
  | _ => none

/-- A scalar without its sign. -/
def unsigned : List Char → List Char
  | '+' :: rest => rest
  | '-' :: rest => rest
  | cs => cs

/-- Several digits that start with a zero are a text, not a number. -/
def isZeroPadded (cs : List Char) : Bool :=
  match unsigned cs with
  | '0' :: c :: rest => (c :: rest).all Char.isDigit
  | _ => false

/-- The integer that a scalar denotes, of any size: a decimal, or digits in base 16, 8 or 2 behind
their mark. -/
def intWord? (cs : List Char) : Option Int :=
  let (negative, body) :=
    match cs with
    | '-' :: rest => (true, rest)
    | '+' :: rest => (false, rest)
    | rest => (false, rest)
  let size? :=
    match (basedDigits? body).bind fun (base, digits) => natIn? base digits with
    | some n => some n
    | none => if isZeroPadded cs then none else natIn? 10 body
  size?.map fun n => if negative then -(n : Int) else n

/-- The double that a scalar denotes. Words for infinity and for what is not a number count, and
numerals that fit a double. -/
def floatWord? (cs : List Char) : Option Float :=
  match String.ofList cs with
  | ".inf" | ".Inf" | ".INF" | "+.inf" | "+.Inf" | "+.INF" => some (1.0 / 0.0)
  | "-.inf" | "-.Inf" | "-.INF" => some (-1.0 / 0.0)
  | ".nan" | ".NaN" | ".NAN" => some (0.0 / 0.0)
  | _ =>
    match cs with
    | '+' :: '+' :: _ | '+' :: '-' :: _ => none
    | _ => (Number.readFloat? cs).filter Float.isFinite

/-- The value of an open scalar to an untyped reader; an integer of more than 64 bits has none. -/
def plainValue? (s : String) : Option Json :=
  if isNullWord s then some .null
  else
    match boolWord? s with
    | some b => some (.bool b)
    | none =>
      match intWord? s.toList with
      | some n =>
        if Json.leastInt ≤ n ∧ n ≤ Json.greatestInt then some (.num (.int n))
        else if -(Int.pow 2 127) ≤ n ∧ n < Int.pow 2 128 then none
        else if isZeroPadded s.toList then some (.str s)
        else some (((floatWord? s.toList).map Json.ofFloat).getD (.str s))
      | none =>
        if isZeroPadded s.toList then some (.str s)
        else some (((floatWord? s.toList).map Json.ofFloat).getD (.str s))

/-! ## Values -/

mutual

/-- The document of a value. -/
def ofJson : Json → Document
  | .null => .null
  | .bool b => .bool b
  | .num n => .num n
  | .str s => .text s
  | .arr items => .list (ofItems items)
  | .obj fields => .dict (ofFields fields)

/-- The documents of the items of an array. -/
def ofItems : List Json → List Document
  | [] => []
  | v :: rest => ofJson v :: ofItems rest

/-- The documents of the entries of an object. -/
def ofFields : List (String × Json) → List (Document × Document)
  | [] => []
  | (k, v) :: rest => (.text k, ofJson v) :: ofFields rest

end

/-- The text of a scalar to a reader who asks for a text. -/
def asText? : Document → Option String
  | .text s | .plain s => some s
  | .tagged _ d => asText? d
  | _ => none

mutual

/-- The value that an untyped reader sees. A repeated key keeps its first place and its last
value. -/
def toJson? : Document → Option Json
  | .null => some .null
  | .bool b => some (.bool b)
  | .num n => some (.num n)
  | .text s => some (.str s)
  | .plain s => plainValue? s
  | .unreadable | .tagged .. => none
  | .list items => (toItems? items).map .arr
  | .dict entries => (toFields? entries).map fun fields => .obj (Dict.ofEntries fields)

/-- The values of the items of a list. -/
def toItems? : List Document → Option (List Json)
  | [] => some []
  | d :: rest =>
    match toJson? d, toItems? rest with
    | some v, some vs => some (v :: vs)
    | _, _ => none

/-- The entries of a dictionary, in the order written. -/
def toFields? : List (Document × Document) → Option (List (String × Json))
  | [] => some []
  | (k, d) :: rest =>
    match asText? k, toJson? d, toFields? rest with
    | some key, some v, some vs => some ((key, v) :: vs)
    | _, _, _ => none

end

/-! ## Typed scalars -/

/-- Whether a reader of an optional part takes the document for nothing. -/
def isNull : Document → Bool
  | .null => true
  | .plain s => isNullWord s
  | _ => false

/-- A truth value. -/
def asBool? : Document → Option Bool
  | .bool b => some b
  | .plain s => boolWord? s
  | .tagged _ d => asBool? d
  | _ => none

/-- An integer, of any size. -/
def asInt? : Document → Option Int
  | .num (.int n) => some n
  | .plain s => intWord? s.toList
  | .tagged _ d => asInt? d
  | _ => none

/-- A natural number below a bound. -/
def asNatBelow? (bound : Nat) (d : Document) : Option Nat :=
  match d.asInt? with
  | some n => if 0 ≤ n ∧ n < bound then some n.toNat else none
  | none => none

/-- A double; an integer counts as the double nearest to it. -/
def asFloat? : Document → Option Float
  | .num n => some n.toFloat
  | .plain s => floatWord? s.toList
  | .tagged _ d => asFloat? d
  | _ => none

/-- A name out of a fixed list: a text. JSON may also give it as the only key of an object, with
null under it, and YAML as the tag of nothing. -/
def asChoice? : Document → Option String
  | .text s | .plain s => some s
  | .dict [(.text s, .null)] => some s
  | .tagged s d => if d.isNull then some s else none
  | _ => none

/-! ## Typed containers -/

/-- The items of a list; nothing at all is an empty list. -/
def asList? : Document → Option (List Document)
  | .list items => some items
  | .plain "" => some []
  | .tagged _ d => asList? d
  | _ => none

/-- The entries of a dictionary; nothing at all is an empty dictionary. -/
def asDict? : Document → Option (List (Document × Document))
  | .dict entries => some entries
  | .plain "" => some []
  | .tagged _ d => asDict? d
  | _ => none

/-- Read every item of a list. -/
def readAll? {α : Type} (read : Document → Option α) : List Document → Option (List α)
  | [] => some []
  | d :: rest =>
    match read d, readAll? read rest with
    | some v, some vs => some (v :: vs)
    | _, _ => none

/-- A list whose items are read alike. -/
def asListOf? {α : Type} (read : Document → Option α) (d : Document) : Option (List α) :=
  d.asList?.bind (readAll? read)

/-- Read the key and the value of every entry. -/
def readEntries? {α : Type} (read : Document → Option α) :
    List (Document × Document) → Option (List (String × α))
  | [] => some []
  | (k, d) :: rest =>
    match k.asText?, read d, readEntries? read rest with
    | some key, some v, some vs => some ((key, v) :: vs)
    | _, _, _ => none

/-- A dictionary whose values are read alike. -/
def asDictOf? {α : Type} (read : Document → Option α) (d : Document) : Option (Dict α) :=
  (d.asDict?.bind (readEntries? read)).map Dict.ofEntries

/-! ## Records

A record has fields, each with a name and perhaps other names. It is given
as a dictionary, in which a field may stand once and other keys do not
matter, or, where lists count as records, as the list of its first
fields. -/

/-- Put a document in the place of the field that a key names, if that place is free. -/
def placeField? (key : String) (d : Document) :
    List (List String) → List (Option Document) → Option (List (Option Document))
  | names :: more, old :: rest =>
    if names.contains key then
      match old with
      | none => some (some d :: rest)
      | some _ => none
    else (placeField? key d more rest).map (old :: ·)
  | _, places => some places

/-- The fields of entries, by place. -/
def placeEntries? (names : List (List String)) :
    List (Document × Document) → List (Option Document) → Option (List (Option Document))
  | [], places => some places
  | (k, d) :: rest, places =>
    match k.asText? with
    | none => none
    | some key => (placeField? key d names places).bind (placeEntries? names rest)

/-- The fields of a record, by place. -/
def fields? (positional : Bool) (names : List (List String)) (d : Document) :
    Option (List (Option Document)) :=
  match d with
  | .list items =>
    if positional ∧ items.length ≤ names.length then
      some (items.map some ++ List.replicate (names.length - items.length) none)
    else none
  | _ => d.asDict?.bind fun entries =>
    placeEntries? names entries (List.replicate names.length none)

/-- A field that must be there. -/
def required? {α : Type} (field : Option Document) (read : Document → Option α) : Option α :=
  field.bind read

/-- A field with a value for when it is missing. -/
def defaulted? {α : Type} (field : Option Document) (value : α) (read : Document → Option α) :
    Option α :=
  match field with
  | none => some value
  | some d => read d

/-- A field that may be missing or null. -/
def optional? {α : Type} (field : Option Document) (read : Document → Option α) :
    Option (Option α) :=
  match field with
  | none => some none
  | some d => if d.isNull then some none else (read d).map some

/-! ## Nesting -/

mutual

/-- The document with its containers nested at most `depth` deep: a container beyond that is
unreadable. -/
def within (depth : Nat) : Document → Document
  | .list items => if depth = 0 then .unreadable else .list (withinItems (depth - 1) items)
  | .dict entries => if depth = 0 then .unreadable else .dict (withinEntries (depth - 1) entries)
  | .tagged tag d => .tagged tag (within depth d)
  | d => d

/-- The items of a list, nested at most `depth` deep. -/
def withinItems (depth : Nat) : List Document → List Document
  | [] => []
  | d :: rest => within depth d :: withinItems depth rest

/-- The entries of a dictionary, nested at most `depth` deep. -/
def withinEntries (depth : Nat) : List (Document × Document) → List (Document × Document)
  | [] => []
  | (k, d) :: rest => (within depth k, within depth d) :: withinEntries depth rest

end

end Document

end Workflow

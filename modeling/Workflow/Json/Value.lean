/-
Workflow.Json.Value — JSON values.

The values that workflows compute with. Numbers keep the form they were
given in: an integer is not the same value as a double, although both may
denote the same number. Objects are dictionaries in order of insertion.

* `Json.Num` — a number, an integer of at most 64 bits or a finite double.
* `Json` — a value.
* `Json.alike` — equality that disregards the order of object entries.
* `Json.remove`, `Json.get?` — object access.
-/
import Workflow.Json.Dict
import Workflow.Number.Binary64

namespace Workflow

/-- A JSON number. Integers lie between `-2 ^ 63` and `2 ^ 64 - 1`; doubles are finite. -/
inductive Json.Num where
  | int (n : Int)
  | float (x : Float)
deriving DecidableEq, Repr

/-- A JSON value. -/
inductive Json where
  | null
  | bool (b : Bool)
  | num (n : Json.Num)
  | str (s : String)
  | arr (items : List Json)
  | obj (fields : List (String × Json))
deriving Repr

namespace Json

instance : Inhabited Json := ⟨.null⟩

/-- The least integer that a number holds as an integer. -/
def leastInt : Int := -(Int.pow 2 63)

/-- The greatest integer that a number holds as an integer. -/
def greatestInt : Int := Int.pow 2 64 - 1

/-- The number of an integer: a double when it does not fit in 64 bits. -/
def Num.ofInt (n : Int) : Num :=
  if leastInt ≤ n ∧ n ≤ greatestInt then .int n else .float (Number.ofInt n)

/-- The double nearest to a number. -/
def Num.toFloat : Num → Float
  | .int n => Number.ofInt n
  | .float x => x

/-- A count as a value. -/
def ofNat (n : Nat) : Json := .num (.int n)

/-- An integer as a value. -/
def ofInt (n : Int) : Json := .num (Num.ofInt n)

/-- A finite double as a value; what is not finite has no number and is `null`. -/
def ofFloat (x : Float) : Json := if x.isFinite then .num (.float x) else .null

/-- The value under a key of an object. -/
def get? : Json → String → Option Json
  | .obj fields, key => Dict.find? fields key
  | _, _ => none

/-- The text of a string value. -/
def asString? : Json → Option String
  | .str s => some s
  | _ => none

/-- The double nearest to a number value. -/
def asFloat? : Json → Option Float
  | .num n => some n.toFloat
  | _ => none

/-- Two numbers are the same value when they have one form and are equal; the two zeros of
doubles are equal. -/
def Num.alike : Num → Num → Bool
  | .int a, .int b => a == b
  | .float a, .float b => a == b
  | _, _ => false

mutual

/-- Equality of values: arrays agree place by place, objects key by key in any order. -/
def alike : Json → Json → Bool
  | .null, .null => true
  | .bool a, .bool b => a == b
  | .num a, .num b => a.alike b
  | .str a, .str b => a == b
  | .arr a, .arr b => alikeItems a b
  | .obj a, .obj b => a.length == b.length && alikeFields a b
  | _, _ => false

/-- Place-by-place equality of lists of values. -/
def alikeItems : List Json → List Json → Bool
  | [], [] => true
  | a :: as, b :: bs => alike a b && alikeItems as bs
  | _, _ => false

/-- Whether every entry of the first object has an equal one in the second. -/
def alikeFields : List (String × Json) → List (String × Json) → Bool
  | [], _ => true
  | (k, v) :: rest, other =>
    (match Dict.find? other k with
      | some w => alike v w
      | none => false) && alikeFields rest other

end

/-! ## Decidable equality -/

mutual

/-- Decides whether two values are the same, order of entries included. -/
def decEq : (a b : Json) → Decidable (a = b)
  | .null, .null => isTrue rfl
  | .bool a, .bool b => if h : a = b then isTrue (h ▸ rfl) else isFalse (by simpa using h)
  | .num a, .num b => if h : a = b then isTrue (h ▸ rfl) else isFalse (by simpa using h)
  | .str a, .str b => if h : a = b then isTrue (h ▸ rfl) else isFalse (by simpa using h)
  | .arr a, .arr b =>
    match decEqItems a b with
    | isTrue h => isTrue (h ▸ rfl)
    | isFalse h => isFalse (by simpa using h)
  | .obj a, .obj b =>
    match decEqFields a b with
    | isTrue h => isTrue (h ▸ rfl)
    | isFalse h => isFalse (by simpa using h)
  | .null, .bool _ | .null, .num _ | .null, .str _ | .null, .arr _ | .null, .obj _
  | .bool _, .null | .bool _, .num _ | .bool _, .str _ | .bool _, .arr _ | .bool _, .obj _
  | .num _, .null | .num _, .bool _ | .num _, .str _ | .num _, .arr _ | .num _, .obj _
  | .str _, .null | .str _, .bool _ | .str _, .num _ | .str _, .arr _ | .str _, .obj _
  | .arr _, .null | .arr _, .bool _ | .arr _, .num _ | .arr _, .str _ | .arr _, .obj _
  | .obj _, .null | .obj _, .bool _ | .obj _, .num _ | .obj _, .str _ | .obj _, .arr _ =>
    isFalse (by simp)

/-- Decides equality of lists of values. -/
def decEqItems : (a b : List Json) → Decidable (a = b)
  | [], [] => isTrue rfl
  | [], _ :: _ => isFalse (by simp)
  | _ :: _, [] => isFalse (by simp)
  | a :: as, b :: bs =>
    match decEq a b, decEqItems as bs with
    | isTrue h, isTrue hs => isTrue (h ▸ hs ▸ rfl)
    | isFalse h, _ => isFalse (by simp [h])
    | _, isFalse h => isFalse (by simp [h])

/-- Decides equality of lists of entries. -/
def decEqFields : (a b : List (String × Json)) → Decidable (a = b)
  | [], [] => isTrue rfl
  | [], _ :: _ => isFalse (by simp)
  | _ :: _, [] => isFalse (by simp)
  | (k, a) :: as, (l, b) :: bs =>
    if hk : k = l then
      match decEq a b, decEqFields as bs with
      | isTrue h, isTrue hs => isTrue (hk ▸ h ▸ hs ▸ rfl)
      | isFalse h, _ => isFalse (by simp [h])
      | _, isFalse h => isFalse (by simp [h])
    else isFalse (by simp [hk])

end

instance : DecidableEq Json := decEq

end Json

end Workflow

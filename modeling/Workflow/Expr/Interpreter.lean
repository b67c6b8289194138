/-
Workflow.Expr.Interpreter — the value of an expression.

Operands are evaluated from the left; `&&`, `||` and the conditional leave
what they do not need alone. A bare name has no value: it is good only as
the name of a function or, in front of a point, of a namespace.

* `compute` — the operators with two operands.
* `memberOf`, `itemOf` — access to members and items.
* `eval` — the value of an expression.
-/
import Workflow.Expr.Context
import Workflow.Expr.Function
import Workflow.Expr.Tree

namespace Workflow.Expr

/-- The member of a value: a key of an object, or the length of an array or a string. -/
def memberOf (target : Json) (property path : String) : CallResult :=
  match target with
  | .obj fields =>
    match Dict.find? fields property with
    | some v => .ok v
    | none => .error (.undefinedPath path)
  | .arr items =>
    if property = "length" then .ok (Json.ofNat items.length) else .error (.undefinedPath path)
  | .str s =>
    if property = "length" then .ok (Json.ofNat s.toList.length)
    else .error (.undefinedPath path)
  | _ => .error (.undefinedPath path)

/-- The place that a number denotes, if it is a natural number. -/
def placeOf? (n : Json.Num) : Option Nat :=
  let x := n.toFloat
  if 0.0 ≤ x && Number.isIntegral x then
    some (Number.clampToInt 0 (Int.pow 2 64 - 1) x).toNat
  else none

/-- The item of a value under a key. -/
def itemOf (target key : Json) (path : String) : CallResult :=
  match target, key with
  | .arr items, .num n =>
    match (placeOf? n).bind (items[·]?) with
    | some v => .ok v
    | none => .error (.undefinedPath path)
  | .str s, .num n =>
    match (placeOf? n).bind (s.toList[·]?) with
    | some c => .ok (.str c.toString)
    | none => .error (.undefinedPath path)
  | target, .str property => memberOf target property path
  | .null, _ => .error (.undefinedPath path)
  | target, key => .error (.badType (.notIndexable (typeOf target) (typeOf key)))

/-- The order of two numbers or two strings; other values have none. -/
def compareValues (left right : Json) : Option Ordering :=
  match left, right with
  | .num a, .num b =>
    let x := a.toFloat
    let y := b.toFloat
    some (if x < y then .lt else if x == y then .eq else .gt)
  | .str a, .str b => some (compare a b)
  | _, _ => none

/-- A comparison with an operator, by a test of the order. -/
def orderTest (op : BinaryOp) (left right : Json) (test : Ordering → Bool) : CallResult :=
  match compareValues left right with
  | some order => .ok (.bool (test order))
  | none => .error (.badType (.incomparable (typeOf left) op.symbol (typeOf right)))

/-- An operator on two numbers. -/
def arithmetic (op : BinaryOp) (left right : Json) (f : Float → Float → CallResult) :
    CallResult := do
  let what := "operator '" ++ op.symbol ++ "'"
  let x ← asNumber left what
  let y ← asNumber right what
  f x y

/-- The value of an operator with two operands. A sum with a string joins the texts. -/
def compute (op : BinaryOp) (left right : Json) : CallResult :=
  match op with
  | .equal => .ok (.bool (looselyEqual left right))
  | .notEqual => .ok (.bool (!looselyEqual left right))
  | .less => orderTest op left right (· == .lt)
  | .lessEqual => orderTest op left right (· != .gt)
  | .greater => orderTest op left right (· == .gt)
  | .greaterEqual => orderTest op left right (· != .lt)
  | .add =>
    match left, right with
    | .str _, _ | _, .str _ => .ok (.str (textOf left ++ textOf right))
    | _, _ => arithmetic op left right fun x y => numberResult (x + y)
  | .sub => arithmetic op left right fun x y => numberResult (x - y)
  | .mul => arithmetic op left right fun x y => numberResult (x * y)
  | .div => arithmetic op left right fun x y =>
    if y == 0.0 then .error .divisionByZero else numberResult (x / y)
  | .rem => arithmetic op left right fun x y =>
    if y == 0.0 then .error .divisionByZero else numberResult (Number.remainder x y)

mutual

/-- The value of an expression. -/
def eval (ctx : DataContext) : Expr → CallResult
  | .literal v => .ok v
  | .array items =>
    match evalAll ctx items with
    | .ok vs => .ok (.arr vs)
    | .error e => .error e
  | .root n =>
    match ctx.root? n with
    | some v => .ok v
    | none => .error (.unknownIdentifier ("$" ++ n))
  | .identifier n => .error (.unknownIdentifier n)
  | .member (.identifier space) property =>
    if space = "Math" then mathConstant property
    else .error (.unknownIdentifier (space ++ "." ++ property))
  | .member object property =>
    match eval ctx object with
    | .ok target => memberOf target property (path (.member object property))
    | .error e => .error e
  | .index object key =>
    match eval ctx object with
    | .error e => .error e
    | .ok target =>
      match eval ctx key with
      | .error e => .error e
      | .ok k => itemOf target k (path (.index object key))
  | .call (.identifier function) args =>
    if globalFunctions.contains function then
      match evalAll ctx args with
      | .ok vs => callGlobal function vs
      | .error e => .error e
    else .error (.unknownFunction function)
  | .call (.member (.identifier space) property) args =>
    if space = "Math" then
      match evalAll ctx args with
      | .ok vs => callMath property vs
      | .error e => .error e
    else if space = "Date" then
      match evalAll ctx args with
      | .ok vs => callDate property vs ctx.now
      | .error e => .error e
    else .error (.unknownFunction (space ++ "." ++ property))
  | .call (.member object method) args =>
    match eval ctx object with
    | .error e => .error e
    | .ok target =>
      match evalAll ctx args with
      | .ok vs => callMethod target method vs
      | .error e => .error e
  | .call callee _ => .error (.badType (.notCallable (path callee)))
  | .unary op operand =>
    match eval ctx operand with
    | .error e => .error e
    | .ok v =>
      match op with
      | .not => .ok (.bool (!truthy v))
      | .negate =>
        match asNumber v "unary '-'" with
        | .ok x => numberResult (-x)
        | .error e => .error e
  | .binary op left right =>
    match eval ctx left with
    | .error e => .error e
    | .ok l =>
      match eval ctx right with
      | .error e => .error e
      | .ok r => compute op l r
  | .logical op left right =>
    match eval ctx left with
    | .error e => .error e
    | .ok l =>
      match op, truthy l with
      | .and, false => .ok l
      | .or, true => .ok l
      | _, _ => eval ctx right
  | .conditional test consequent alternate =>
    match eval ctx test with
    | .error e => .error e
    | .ok t => if truthy t then eval ctx consequent else eval ctx alternate

/-- The values of expressions, from the left. -/
def evalAll (ctx : DataContext) : List Expr → Except EvaluationError (List Json)
  | [] => .ok []
  | e :: rest =>
    match eval ctx e with
    | .error err => .error err
    | .ok v =>
      match evalAll ctx rest with
      | .error err => .error err
      | .ok vs => .ok (v :: vs)

end

end Workflow.Expr

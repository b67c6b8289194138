/-
Workflow.Expr.Tree — the expressions of the language.

* `Expr` — an expression: literals, data roots, names, access to members
  and items, calls and operators.
* `Expr.path` — an access chain as messages name it.
* `Expr.depth` — the number of nodes on the longest way to a leaf.
-/
import Workflow.Json.Writer

namespace Workflow

/-- Operators with one operand. -/
inductive Expr.UnaryOp where
  | not
  | negate
deriving DecidableEq, Repr

/-- Operators that compute from two values. -/
inductive Expr.BinaryOp where
  | add
  | sub
  | mul
  | div
  | rem
  | equal
  | notEqual
  | less
  | lessEqual
  | greater
  | greaterEqual
deriving DecidableEq, Repr

/-- Operators that may leave their second operand alone. -/
inductive Expr.LogicalOp where
  | and
  | or
deriving DecidableEq, Repr

/-- An expression. -/
inductive Expr where
  | literal (v : Json)
  | array (items : List Expr)
  | root (name : String)
  | identifier (name : String)
  | member (object : Expr) (property : String)
  | index (object : Expr) (key : Expr)
  | call (callee : Expr) (args : List Expr)
  | unary (op : Expr.UnaryOp) (operand : Expr)
  | binary (op : Expr.BinaryOp) (left right : Expr)
  | logical (op : Expr.LogicalOp) (left right : Expr)
  | conditional (test consequent alternate : Expr)
deriving Repr

namespace Expr

instance : Inhabited Expr := ⟨.literal .null⟩

/-- How an operator is written. -/
def BinaryOp.symbol : BinaryOp → String
  | .add => "+"
  | .sub => "-"
  | .mul => "*"
  | .div => "/"
  | .rem => "%"
  | .equal => "=="
  | .notEqual => "!="
  | .less => "<"
  | .lessEqual => "<="
  | .greater => ">"
  | .greaterEqual => ">="

/-- A key between brackets, as messages name it: a literal number or text as it is. -/
def keyText : Expr → String
  | .literal (.num n) => "[" ++ n.text ++ "]"
  | .literal (.str s) => "['" ++ s ++ "']"
  | _ => "[..]"

/-- An access chain as messages name it. -/
def path : Expr → String
  | .root n => "$" ++ n
  | .identifier n => n
  | .member object property => path object ++ "." ++ property
  | .index object key => path object ++ keyText key
  | .call callee _ => path callee ++ "(..)"
  | _ => "<expression>"

mutual

/-- The number of nodes on the longest way from the root of the tree to a leaf. -/
def depth : Expr → Nat
  | .literal _ => 1
  | .root _ => 1
  | .identifier _ => 1
  | .array items => depthOfAll items + 1
  | .member object _ => depth object + 1
  | .index object key => max (depth object) (depth key) + 1
  | .call callee args => max (depth callee) (depthOfAll args) + 1
  | .unary _ operand => depth operand + 1
  | .binary _ left right => max (depth left) (depth right) + 1
  | .logical _ left right => max (depth left) (depth right) + 1
  | .conditional test consequent alternate =>
    max (depth test) (max (depth consequent) (depth alternate)) + 1

/-- The greatest depth among expressions. -/
def depthOfAll : List Expr → Nat
  | [] => 0
  | e :: rest => max (depth e) (depthOfAll rest)

end

end Expr

end Workflow

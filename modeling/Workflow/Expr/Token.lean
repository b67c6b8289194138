/-
Workflow.Expr.Token — tokens of the expression language.

* `Token` — the kinds of token and what they carry.
* `Lexeme` — a token and where its first character stands.
* `Token.shown` — a token as an error message names it.
-/
import Workflow.Number.Decimal
import Workflow.Text.Quoted

namespace Workflow.Expr

/-- A token of an expression. -/
inductive Token where
  | number (x : Float)
  | text (s : String)
  | ident (name : String)
  /-- A data root such as `$json`, without its dollar sign. -/
  | root (name : String)
  | trueLit
  | falseLit
  | nullLit
  | dot
  | comma
  | openParen
  | closeParen
  | openBracket
  | closeBracket
  | question
  | colon
  | plus
  | minus
  | star
  | slash
  | percent
  | bang
  | equal
  | notEqual
  | less
  | lessEqual
  | greater
  | greaterEqual
  | andAnd
  | orOr
deriving DecidableEq, Repr

/-- A token with the position of its first character. -/
structure Lexeme where
  token : Token
  position : Nat
deriving DecidableEq, Repr

/-- The name of a kind of token. -/
def Token.kindName : Token → String
  | .number _ => "Number"
  | .text _ => "Str"
  | .ident _ => "Ident"
  | .root _ => "Root"
  | .trueLit => "True"
  | .falseLit => "False"
  | .nullLit => "Null"
  | .dot => "Dot"
  | .comma => "Comma"
  | .openParen => "LParen"
  | .closeParen => "RParen"
  | .openBracket => "LBracket"
  | .closeBracket => "RBracket"
  | .question => "Question"
  | .colon => "Colon"
  | .plus => "Plus"
  | .minus => "Minus"
  | .star => "Star"
  | .slash => "Slash"
  | .percent => "Percent"
  | .bang => "Bang"
  | .equal => "EqEq"
  | .notEqual => "NotEq"
  | .less => "Lt"
  | .lessEqual => "LtEq"
  | .greater => "Gt"
  | .greaterEqual => "GtEq"
  | .andAnd => "AndAnd"
  | .orOr => "OrOr"

/-- Numbers in messages are positional from `1e-4` up to below `1e16`. -/
def messageLayout : Number.Layout :=
  { plainFrom := -3, plainTo := 16, keepsPoint := true, positiveMark := "" }

/-- A number in a message. -/
def shownNumber (x : Float) : String :=
  if x.isFinite then messageLayout.render x else Number.nonFiniteText x

/-- A token as a message names it: its kind, and what it carries in parentheses. -/
def Token.shown (t : Token) : String :=
  match t with
  | .number x => t.kindName ++ "(" ++ shownNumber x ++ ")"
  | .text s => t.kindName ++ "(" ++ Text.quoted s ++ ")"
  | .ident s => t.kindName ++ "(" ++ Text.quoted s ++ ")"
  | .root s => t.kindName ++ "(" ++ Text.quoted s ++ ")"
  | _ => t.kindName

end Workflow.Expr

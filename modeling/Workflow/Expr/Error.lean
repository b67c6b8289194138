/-
Workflow.Expr.Error — what can be wrong with an expression.

Errors are causes; `message` gives each its wording. A fault is either an
error, which belongs to the expression, or a crash: the search for the end
of a template region cannot step over a character beyond ASCII outside
quotation marks, and whoever runs the search goes down with it.

* `SyntaxProblem`, `TypeProblem`, `ArgumentProblem` — causes by family.
* `EvaluationError` — all errors of expressions.
* `Fault` — an error or a crash.
-/
import Workflow.Expr.Token

namespace Workflow.Expr

/-- The type of a value, as messages name it. -/
inductive ValueType where
  | null
  | boolean
  | number
  | string
  | array
  | object
deriving DecidableEq, Repr

/-- The name of a type. -/
def ValueType.name : ValueType → String
  | .null => "null"
  | .boolean => "boolean"
  | .number => "number"
  | .string => "string"
  | .array => "array"
  | .object => "object"

/-- What is wrong with the form of an expression. -/
inductive SyntaxProblem where
  | invalidNumber (text : String)
  | nameAfterDollar
  | assignment
  | unexpectedCharacter (c : Char)
  | danglingEscape
  | unclosedText
  | empty
  | unexpectedToken (t : Token)
  | unexpectedEnd
  | expected (what : String)
  | tooDeep (limit : Nat)
deriving DecidableEq, Repr

/-- The wording of a problem of form. -/
def SyntaxProblem.message : SyntaxProblem → String
  | .invalidNumber text => "invalid number '" ++ text ++ "'"
  | .nameAfterDollar => "expected identifier after '$'"
  | .assignment => "assignment is not allowed, use '==' for comparison"
  | .unexpectedCharacter c => "unexpected character '" ++ c.toString ++ "'"
  | .danglingEscape => "dangling escape"
  | .unclosedText => "unterminated string literal"
  | .empty => "empty expression"
  | .unexpectedToken t => "unexpected token " ++ t.shown
  | .unexpectedEnd => "unexpected end of expression"
  | .expected what => "expected " ++ what
  | .tooDeep limit => "expression nested deeper than " ++ toString limit ++ " levels"

/-- A value of a type that does not fit. -/
inductive TypeProblem where
  | numberExpected (what : String) (got : ValueType)
  | stringExpected (what : String) (got : ValueType)
  | arrayExpected (what : String) (got : ValueType)
  | dateExpected (what : String) (got : ValueType)
  | undefinedFor (function : String) (got : ValueType)
  | incomparable (left : ValueType) (operator : String) (right : ValueType)
  | notIndexable (target key : ValueType)
  | notCallable (path : String)
deriving DecidableEq, Repr

/-- The wording of a type problem. -/
def TypeProblem.message : TypeProblem → String
  | .numberExpected what got => what ++ " expects a number, got " ++ got.name
  | .stringExpected what got => what ++ " expects a string, got " ++ got.name
  | .arrayExpected what got => what ++ "() expects an array, got " ++ got.name
  | .dateExpected what got => what ++ " expects a date string or timestamp, got " ++ got.name
  | .undefinedFor function got => function ++ "() is not defined for " ++ got.name
  | .incomparable left operator right =>
    "cannot compare " ++ left.name ++ " " ++ operator ++ " " ++ right.name
  | .notIndexable target key => "cannot index " ++ target.name ++ " with " ++ key.name
  | .notCallable path => path ++ " is not callable"

/-- Arguments that a function does not take. -/
inductive ArgumentProblem where
  | count (least most got : Nat)
  | noValues
  | notANumber (text : String)
  | negativeRoot
  | timestampRange
  | notADate (text : String)
  | notADatePattern (text : String)
  | digitsRange (most : Nat)
deriving DecidableEq, Repr

/-- The wording of an argument problem. -/
def ArgumentProblem.message : ArgumentProblem → String
  | .count least most got =>
    let wanted := if least = most then toString least else toString least ++ " to " ++ toString most
    "expected " ++ wanted ++ " argument(s), got " ++ toString got
  | .noValues => "no values given"
  | .notANumber text => "'" ++ text ++ "' is not a number"
  | .negativeRoot => "square root of a negative number"
  | .timestampRange => "timestamp out of range"
  | .notADate text => "'" ++ text ++ "' is not a valid date"
  | .notADatePattern text => "'" ++ text ++ "' is not a valid date format"
  | .digitsRange most => "digits must be between 0 and " ++ toString most

/-- An error of an expression. -/
inductive EvaluationError where
  | badSyntax (position : Nat) (problem : SyntaxProblem)
  | unclosedRegion (position : Nat)
  | unknownIdentifier (name : String)
  | unknownFunction (name : String)
  | unknownMethod (method : String) (target : ValueType)
  | undefinedPath (path : String)
  | badType (problem : TypeProblem)
  | badArguments (function : String) (problem : ArgumentProblem)
  | notFinite (x : Float)
  | divisionByZero
  | notACondition (got : ValueType)
  | notIterable (got : ValueType)
deriving DecidableEq, Repr

/-- The wording of an error. -/
def EvaluationError.message : EvaluationError → String
  | .badSyntax position problem =>
    "Syntax error at position " ++ toString position ++ ": " ++ problem.message
  | .unclosedRegion position =>
    "Unterminated expression: missing '\x7d\x7d' after position " ++ toString position
  | .unknownIdentifier name => "Unknown identifier: " ++ name
  | .unknownFunction name => "Unknown function: " ++ name
  | .unknownMethod method target => "Unknown method '" ++ method ++ "' for " ++ target.name
  | .undefinedPath path => "Undefined path: " ++ path
  | .badType problem => "Type error: " ++ problem.message
  | .badArguments function problem =>
    "Invalid arguments for " ++ function ++ ": " ++ problem.message
  | .notFinite x => "Numeric result is not a finite number: " ++ Number.nonFiniteText x
  | .divisionByZero => "Division by zero"
  | .notACondition got => "Condition must evaluate to a scalar, got " ++ got.name
  | .notIterable got => "Expected an array to iterate over, got " ++ got.name

/-- The error with its position moved, where it has one in the text of an expression. -/
def EvaluationError.shift (offset : Nat) : EvaluationError → EvaluationError
  | .badSyntax position problem => .badSyntax (position + offset) problem
  | e => e

/-- Whether the error only says that a value is missing. -/
def EvaluationError.isUndefinedPath : EvaluationError → Bool
  | .undefinedPath _ => true
  | _ => false

/-- Why a template has no value. -/
inductive Fault where
  | error (e : EvaluationError)
  | crash
deriving DecidableEq, Repr

end Workflow.Expr

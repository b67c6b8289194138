/-
Workflow.Expr.Lexer — from text to tokens.

A token is read from its first character on; `tokenAt` says which token it
is and how many further characters belong to it. White space separates
tokens and is dropped. Positions count characters.

* `tokenAt` — the token that starts with a character.
* `lexemesFrom` — the tokens of a text from a position on.
* `tokenize` — the tokens of a text.
-/
import Workflow.Expr.Error
import Workflow.Number.Reading
import Workflow.Text.Blank
import Workflow.Text.Letter

namespace Workflow.Expr

/-- Whether a character may start a name. -/
def isNameStart (c : Char) : Bool := c == '$' || c == '_' || Text.isLetter c

/-- Whether a character may continue a name. -/
def isNamePart (c : Char) : Bool := c == '_' || Text.isLetterOrNumeral c

/-- The further characters of a number: digits, and points that a digit follows. -/
def numberTail : List Char → List Char
  | [] => []
  | '.' :: c :: rest => if c.isDigit then '.' :: numberTail (c :: rest) else []
  | c :: rest => if c.isDigit then c :: numberTail rest else []

/-- The character that a letter behind a backslash stands for. -/
def escaped : Char → Char
  | 'n' => '\n'
  | 't' => '\t'
  | 'r' => '\r'
  | c => c

/-- The text in quotation marks behind its opening mark, and how many characters it takes with the
closing mark. The problem of a dangling escape comes with the place of its backslash. -/
def textTail (quote : Char) : List Char → Except (SyntaxProblem × Nat) (List Char × Nat)
  | [] => .error (.unclosedText, 0)
  | '\\' :: c :: rest =>
    match textTail quote rest with
    | .ok (cs, width) => .ok (escaped c :: cs, width + 2)
    | .error (.danglingEscape, place) => .error (.danglingEscape, place + 2)
    | .error problem => .error problem
  | ['\\'] => .error (.danglingEscape, 1)
  | c :: rest =>
    if c = quote then .ok ([], 1)
    else
      match textTail quote rest with
      | .ok (cs, width) => .ok (c :: cs, width + 1)
      | .error (.danglingEscape, place) => .error (.danglingEscape, place + 1)
      | .error problem => .error problem

/-- The token of a name. -/
def wordToken (word : List Char) : Except SyntaxProblem Token :=
  match word with
  | ['$'] => .error .nameAfterDollar
  | '$' :: name => .ok (.root (String.ofList name))
  | _ =>
    match String.ofList word with
    | "true" => .ok .trueLit
    | "false" => .ok .falseLit
    | "null" => .ok .nullLit
    | "undefined" => .ok .nullLit
    | name => .ok (.ident name)

/-- The operator or mark that starts with a character, and its further characters. -/
def markAt (c : Char) (rest : List Char) : Except SyntaxProblem (Token × Nat) :=
  match c, rest with
  | '=', '=' :: '=' :: _ => .ok (.equal, 2)
  | '=', '=' :: _ => .ok (.equal, 1)
  | '!', '=' :: '=' :: _ => .ok (.notEqual, 2)
  | '!', '=' :: _ => .ok (.notEqual, 1)
  | '<', '=' :: _ => .ok (.lessEqual, 1)
  | '>', '=' :: _ => .ok (.greaterEqual, 1)
  | '&', '&' :: _ => .ok (.andAnd, 1)
  | '|', '|' :: _ => .ok (.orOr, 1)
  | '<', _ => .ok (.less, 0)
  | '>', _ => .ok (.greater, 0)
  | '!', _ => .ok (.bang, 0)
  | '.', _ => .ok (.dot, 0)
  | ',', _ => .ok (.comma, 0)
  | '(', _ => .ok (.openParen, 0)
  | ')', _ => .ok (.closeParen, 0)
  | '[', _ => .ok (.openBracket, 0)
  | ']', _ => .ok (.closeBracket, 0)
  | '?', _ => .ok (.question, 0)
  | ':', _ => .ok (.colon, 0)
  | '+', _ => .ok (.plus, 0)
  | '-', _ => .ok (.minus, 0)
  | '*', _ => .ok (.star, 0)
  | '/', _ => .ok (.slash, 0)
  | '%', _ => .ok (.percent, 0)
  | '=', _ => .error .assignment
  | c, _ => .error (.unexpectedCharacter c)

/-- The token that starts with a character that is no white space, and how many of the characters
behind it belong to it. A problem comes with its place, counted from the first character. -/
def tokenAt (c : Char) (rest : List Char) : Except (SyntaxProblem × Nat) (Token × Nat) :=
  if c.isDigit then
    let tail := numberTail rest
    match Number.readFloat? (c :: tail) with
    | some x => .ok (.number x, tail.length)
    | none => .error (.invalidNumber (String.ofList (c :: tail)), 0)
  else if c = '\'' ∨ c = '"' then
    match textTail c rest with
    | .ok (cs, width) => .ok (.text (String.ofList cs), width)
    | .error problem => .error problem
  else if isNameStart c then
    let tail := rest.takeWhile isNamePart
    match wordToken (c :: tail) with
    | .ok t => .ok (t, tail.length)
    | .error problem => .error (problem, 0)
  else
    match markAt c rest with
    | .ok marked => .ok marked
    | .error problem => .error (problem, 0)

/-- The tokens of a text whose first character stands at a position. -/
def lexemesFrom (position : Nat) : List Char → Except EvaluationError (List Lexeme)
  | [] => .ok []
  | c :: rest =>
    if Text.isBlank c then lexemesFrom (position + 1) rest
    else
      match tokenAt c rest with
      | .error (problem, place) => .error (.badSyntax (position + place) problem)
      | .ok (token, width) =>
        match lexemesFrom (position + 1 + width) (rest.drop width) with
        | .ok lexemes => .ok (⟨token, position⟩ :: lexemes)
        | .error e => .error e
termination_by cs => cs.length
decreasing_by all_goals simp only [List.length_cons, List.length_drop]; omega

/-- The tokens of a text. -/
def tokenize (source : List Char) : Except EvaluationError (List Lexeme) := lexemesFrom 0 source

end Workflow.Expr

/-
Workflow.Expr.Parser — from tokens to expressions.

The grammar has eight levels: the conditional, six levels of operators with
two operands (`||`, `&&`, equality, comparison, sums, products, all
grouping to the left), and the operators with one operand in front of
access chains. A parse counts the depth of the tree that it builds and
stops at 128 levels.

* `Parsed` — what a parse yields: an expression and the tokens left over,
  which are fewer than there were. That they are fewer is why parsing ends.
* `parseTernary` and the functions with it — one per kind of phrase.
* `parse` — the expression of a text.
-/
import Workflow.Expr.Lexer
import Workflow.Expr.Tree
import Workflow.Expr.Value

namespace Workflow.Expr

/-- The greatest depth of a tree. -/
def depthLimit : Nat := 128

/-- The outcome of a parse of `input`: a result, the tokens left over and the depth reached. -/
structure Parsed (α : Type) (input : List Lexeme) where
  result : α
  rest : List Lexeme
  depth : Nat
  shorter : rest.length < input.length

/-- The outcome of a parse of fewer tokens is one of more tokens. -/
def Parsed.widen {α : Type} {few many : List Lexeme} (p : Parsed α few)
    (h : few.length ≤ many.length) : Parsed α many :=
  ⟨p.result, p.rest, p.depth, Nat.lt_of_lt_of_le p.shorter h⟩

/-- The position of the next token, or the end of the text. -/
def positionOf (endPosition : Nat) : List Lexeme → Nat
  | [] => endPosition
  | l :: _ => l.position

/-- An error at the next token. -/
def failAt (endPosition : Nat) (tokens : List Lexeme) (problem : SyntaxProblem) :
    EvaluationError :=
  .badSyntax (positionOf endPosition tokens) problem

/-- One level further down, unless that is too deep. -/
def descend (endPosition depth : Nat) (tokens : List Lexeme) : Except EvaluationError Nat :=
  if depth + 1 > depthLimit then .error (failAt endPosition tokens (.tooDeep depthLimit))
  else .ok (depth + 1)

/-- The operators with two operands, by level; level 0 binds least. -/
def operatorAt (level : Nat) (token : Token) : Option (Expr → Expr → Expr) :=
  match level, token with
  | 0, .orOr => some (.logical .or)
  | 1, .andAnd => some (.logical .and)
  | 2, .equal => some (.binary .equal)
  | 2, .notEqual => some (.binary .notEqual)
  | 3, .less => some (.binary .less)
  | 3, .lessEqual => some (.binary .lessEqual)
  | 3, .greater => some (.binary .greater)
  | 3, .greaterEqual => some (.binary .greaterEqual)
  | 4, .plus => some (.binary .add)
  | 4, .minus => some (.binary .sub)
  | 5, .star => some (.binary .mul)
  | 5, .slash => some (.binary .div)
  | 5, .percent => some (.binary .rem)
  | _, _ => none

/-- The number of levels of operators with two operands. -/
def operatorLevels : Nat := 6

/-- The operators in front of an operand. -/
def leadingOperator : Token → Option Expr.UnaryOp
  | .bang => some .not
  | .minus => some .negate
  | _ => none

/-- The expression of a token that stands for itself. -/
def leafOf (token : Token) : Option (Except EvaluationError Expr) :=
  match token with
  | .number x => some ((numberResult x).map .literal)
  | .text s => some (.ok (.literal (.str s)))
  | .trueLit => some (.ok (.literal (.bool true)))
  | .falseLit => some (.ok (.literal (.bool false)))
  | .nullLit => some (.ok (.literal .null))
  | .root n => some (.ok (.root n))
  | .ident n => some (.ok (.identifier n))
  | _ => none

mutual

/-- A conditional, or an operator phrase; the depth is restored behind it. -/
def parseTernary (endPosition depth : Nat) (tokens : List Lexeme) :
    Except EvaluationError (Parsed Expr tokens) :=
  match descend endPosition depth tokens with
  | .error e => .error e
  | .ok deeper =>
    match parseConditional endPosition deeper tokens with
    | .error e => .error e
    | .ok p => .ok { p with depth := depth }
termination_by 16 * tokens.length + 12

/-- An operator phrase, and two branches if a question mark follows. -/
def parseConditional (endPosition depth : Nat) (tokens : List Lexeme) :
    Except EvaluationError (Parsed Expr tokens) :=
  match parseLevel 0 endPosition depth tokens with
  | .error e => .error e
  | .ok test =>
    match hTest : test.rest with
    | ⟨.question, _⟩ :: afterTest =>
      have hAfter : afterTest.length < tokens.length := by
        have := test.shorter; simp only [hTest, List.length_cons] at this; omega
      match parseTernary endPosition test.depth afterTest with
      | .error e => .error e
      | .ok consequent =>
        match hColon : consequent.rest with
        | ⟨.colon, _⟩ :: afterColon =>
          have hAlternate : afterColon.length < tokens.length := by
            have := consequent.shorter; simp only [hColon, List.length_cons] at this; omega
          match parseTernary endPosition consequent.depth afterColon with
          | .error e => .error e
          | .ok alternate =>
            .ok ⟨.conditional test.result consequent.result alternate.result, alternate.rest,
              alternate.depth, by have := alternate.shorter; omega⟩
        | other => .error (failAt endPosition other (.expected "':' in conditional expression"))
    | _ => .ok test
termination_by 16 * tokens.length + 11

/-- Operands of a level with its operators between them. -/
def parseLevel (level endPosition depth : Nat) (tokens : List Lexeme) :
    Except EvaluationError (Parsed Expr tokens) :=
  if _h : level < operatorLevels then
    match parseLevel (level + 1) endPosition depth tokens with
    | .error e => .error e
    | .ok left => parseOperands level endPosition tokens left
  else parseUnary endPosition depth tokens
termination_by 16 * tokens.length + 4 + (6 - level)
decreasing_by
  · have h' : level < 6 := ‹level < operatorLevels›
    omega
  · have := left.shorter
    omega
  · omega

/-- Further operators of a level and their right operands, added to the left of what follows. -/
def parseOperands (level endPosition : Nat) (tokens : List Lexeme) (left : Parsed Expr tokens) :
    Except EvaluationError (Parsed Expr tokens) :=
  match hRest : left.rest with
  | [] => .ok left
  | ⟨token, _⟩ :: afterOperator =>
    match operatorAt level token with
    | none => .ok left
    | some combine =>
      have hAfter : afterOperator.length < left.rest.length := by simp [hRest]
      have hShorter := left.shorter
      match descend endPosition left.depth afterOperator with
      | .error e => .error e
      | .ok deeper =>
        match parseLevel (level + 1) endPosition deeper afterOperator with
        | .error e => .error e
        | .ok right =>
          have hRight := right.shorter
          parseOperands level endPosition tokens
            ⟨combine left.result right.result, right.rest, right.depth, by omega⟩
termination_by 16 * left.rest.length

/-- Operators in front of an operand. -/
def parseUnary (endPosition depth : Nat) (tokens : List Lexeme) :
    Except EvaluationError (Parsed Expr tokens) :=
  match tokens with
  | [] => parsePostfix endPosition depth []
  | ⟨token, position⟩ :: afterOperator =>
    match leadingOperator token with
    | none => parsePostfix endPosition depth (⟨token, position⟩ :: afterOperator)
    | some op =>
      match descend endPosition depth afterOperator with
      | .error e => .error e
      | .ok deeper =>
        match parseUnary endPosition deeper afterOperator with
        | .error e => .error e
        | .ok operand =>
          .ok ⟨.unary op operand.result, operand.rest, operand.depth,
            by have := operand.shorter; simp; omega⟩
termination_by 16 * tokens.length + 3

/-- An access chain: a primary and what is attached behind it. -/
def parsePostfix (endPosition depth : Nat) (tokens : List Lexeme) :
    Except EvaluationError (Parsed Expr tokens) :=
  match parsePrimary endPosition depth tokens with
  | .error e => .error e
  | .ok object => parseAttachments endPosition tokens object
termination_by 16 * tokens.length + 2
decreasing_by
  · omega
  · have := object.shorter
    omega

/-- Members, items and calls attached to an object. -/
def parseAttachments (endPosition : Nat) (tokens : List Lexeme) (object : Parsed Expr tokens) :
    Except EvaluationError (Parsed Expr tokens) :=
  have hShorter := object.shorter
  match hRest : object.rest with
  | ⟨.dot, position⟩ :: afterMark =>
    match descend endPosition object.depth (⟨.dot, position⟩ :: afterMark) with
    | .error e => .error e
    | .ok deeper =>
      match afterMark with
      | ⟨.ident property, _⟩ :: afterName =>
        have hName : afterName.length < object.rest.length := by
          simp only [hRest, List.length_cons]; omega
        parseAttachments endPosition tokens
          ⟨.member object.result property, afterName, deeper, by omega⟩
      | other => .error (failAt endPosition other (.expected "property name after '.'"))
  | ⟨.openBracket, position⟩ :: afterMark =>
    have hAfter : afterMark.length < object.rest.length := by simp [hRest]
    match descend endPosition object.depth (⟨.openBracket, position⟩ :: afterMark) with
    | .error e => .error e
    | .ok deeper =>
      match parseTernary endPosition deeper afterMark with
      | .error e => .error e
      | .ok key =>
        have hKey := key.shorter
        match hClose : key.rest with
        | ⟨.closeBracket, _⟩ :: afterKey =>
          have hEnd : afterKey.length < key.rest.length := by simp [hClose]
          parseAttachments endPosition tokens
            ⟨.index object.result key.result, afterKey, key.depth, by omega⟩
        | other => .error (failAt endPosition other (.expected "']'"))
  | ⟨.openParen, position⟩ :: afterMark =>
    have hAfter : afterMark.length < object.rest.length := by simp [hRest]
    match descend endPosition object.depth (⟨.openParen, position⟩ :: afterMark) with
    | .error e => .error e
    | .ok deeper =>
      match parseArguments .closeParen "')'" endPosition deeper afterMark with
      | .error e => .error e
      | .ok args =>
        have hArgs := args.shorter
        parseAttachments endPosition tokens
          ⟨.call object.result args.result, args.rest, args.depth, by omega⟩
  | _ => .ok object
termination_by 16 * object.rest.length + 1

/-- A list of expressions up to its closing mark. -/
def parseArguments (close : Token) (what : String) (endPosition depth : Nat)
    (tokens : List Lexeme) : Except EvaluationError (Parsed (List Expr) tokens) :=
  match tokens with
  | [] => parseItems close what endPosition depth []
  | l :: rest =>
    if l.token = close then .ok ⟨[], rest, depth, by simp⟩
    else parseItems close what endPosition depth (l :: rest)
termination_by 16 * tokens.length + 14

/-- One or more expressions with commas between them, up to the closing mark. -/
def parseItems (close : Token) (what : String) (endPosition depth : Nat)
    (tokens : List Lexeme) : Except EvaluationError (Parsed (List Expr) tokens) :=
  match parseTernary endPosition depth tokens with
  | .error e => .error e
  | .ok first =>
    have hFirst := first.shorter
    match hRest : first.rest with
    | [] => .error (failAt endPosition [] (.expected what))
    | l :: rest =>
      have hTail : rest.length < first.rest.length := by simp [hRest]
      if l.token = .comma then
        match parseItems close what endPosition first.depth rest with
        | .error e => .error e
        | .ok more =>
          .ok ⟨first.result :: more.result, more.rest, more.depth,
            by have := more.shorter; omega⟩
      else if l.token = close then .ok ⟨[first.result], rest, first.depth, by omega⟩
      else .error (failAt endPosition (l :: rest) (.expected what))
termination_by 16 * tokens.length + 13

/-- A literal, a name, a phrase in parentheses or a list in brackets. -/
def parsePrimary (endPosition depth : Nat) (tokens : List Lexeme) :
    Except EvaluationError (Parsed Expr tokens) :=
  match tokens with
  | [] => .error (failAt endPosition [] .unexpectedEnd)
  | ⟨token, position⟩ :: rest =>
    match leafOf token with
    | some (.ok leaf) => .ok ⟨leaf, rest, depth, by simp⟩
    | some (.error e) => .error e
    | none =>
      match token with
      | .openParen =>
        match parseTernary endPosition depth rest with
        | .error e => .error e
        | .ok inner =>
          have hInner := inner.shorter
          match hClose : inner.rest with
          | ⟨.closeParen, _⟩ :: afterClose =>
            .ok ⟨inner.result, afterClose, inner.depth,
              by simp only [hClose, List.length_cons] at hInner ⊢; omega⟩
          | other => .error (failAt endPosition other (.expected "')'"))
      | .openBracket =>
        match parseArguments .closeBracket "']'" endPosition depth rest with
        | .error e => .error e
        | .ok items =>
          .ok ⟨.array items.result, items.rest, items.depth,
            by have := items.shorter; simp; omega⟩
      | other => .error (.badSyntax position (.unexpectedToken other))
termination_by 16 * tokens.length + 1

end

/-- The expression of a list of tokens that it fills; `endPosition` is where the text ends. -/
def parseTokens (endPosition : Nat) (tokens : List Lexeme) : Except EvaluationError Expr :=
  match tokens with
  | [] => .error (.badSyntax 0 .empty)
  | _ =>
    match parseTernary endPosition 0 tokens with
    | .error e => .error e
    | .ok p =>
      match p.rest with
      | [] => .ok p.result
      | l :: _ => .error (.badSyntax l.position (.unexpectedToken l.token))

/-- The number of bytes of a text. -/
def byteLength (cs : List Char) : Nat := (cs.map Char.utf8Size).foldr (· + ·) 0

/-- The expression of a text. Positions of tokens count characters, the end of the text is given
in bytes. -/
def parse (source : List Char) : Except EvaluationError Expr :=
  match tokenize source with
  | .error e => .error e
  | .ok tokens => parseTokens (byteLength source) tokens

end Workflow.Expr

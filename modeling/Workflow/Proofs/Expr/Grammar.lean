/-
Workflow.Proofs.Expr.Grammar — the grammar of expressions.

    ternary   ::= or [ '?' ternary ':' ternary ]
    or, and, equality, relational, additive, multiplicative
              ::= operands of the next kind, joined to the left
    unary     ::= ( '!' | '-' ) unary | chain
    chain     ::= primary ( '.' name | '[' ternary ']' | '(' args ')' )*
    primary   ::= a literal, a data root, a name
                | '(' ternary ')' | '[' args ']'
    args      ::= nothing | ternary ( ',' ternary )*

The grammar is a relation between tokens and trees and says nothing about
how a parse proceeds. Two numbers make it one that can be read from left to
right: the precedence of a kind of phrase, and how tightly a token holds on
to what stands before it.

* `Phrase`, `Phrase.operand?` — the kinds of phrase, and the kind of which
  a phrase consists that is made of a single one.
* `Operator` — which operators join the operands of a kind.
* `Derives` — the tokens that are a phrase of a kind, and its tree.
* `Derives.exists_head` — with which tokens a phrase may start.
-/
import Workflow.Expr.Parser

namespace Workflow.Expr

/-! ## The relation -/

/-- A kind of phrase. -/
inductive Phrase where
  | ternary
  | or
  | and
  | equality
  | relational
  | additive
  | multiplicative
  | unary
  | chain
  | primary
deriving DecidableEq, Repr

/-- The kind of phrase that binds next tighter. -/
def Phrase.operand? : Phrase → Option Phrase
  | .ternary => some .or
  | .or => some .and
  | .and => some .equality
  | .equality => some .relational
  | .relational => some .additive
  | .additive => some .multiplicative
  | .multiplicative => some .unary
  | .unary => some .chain
  | .chain => some .primary
  | .primary => none

/-- The operators that join the operands of a kind of phrase, and the trees that they build. -/
inductive Operator : Phrase → Token → (Expr → Expr → Expr) → Prop where
  | or : Operator .or .orOr (.logical .or)
  | and : Operator .and .andAnd (.logical .and)
  | equal : Operator .equality .equal (.binary .equal)
  | notEqual : Operator .equality .notEqual (.binary .notEqual)
  | less : Operator .relational .less (.binary .less)
  | lessEqual : Operator .relational .lessEqual (.binary .lessEqual)
  | greater : Operator .relational .greater (.binary .greater)
  | greaterEqual : Operator .relational .greaterEqual (.binary .greaterEqual)
  | add : Operator .additive .plus (.binary .add)
  | sub : Operator .additive .minus (.binary .sub)
  | mul : Operator .multiplicative .star (.binary .mul)
  | div : Operator .multiplicative .slash (.binary .div)
  | rem : Operator .multiplicative .percent (.binary .rem)

/-- The value of a number literal; the grammar puts `null` for one that has none. -/
def numeral (x : Float) : Json := (numberResult x).toOption.getD .null

/-- Phrases with commas between them. -/
def separated (args : List (List Token × Expr)) : List Token :=
  [Token.comma].intercalate (args.map Prod.fst)

/-- The tokens are a phrase of the kind, and the expression is its tree. -/
inductive Derives : Phrase → List Token → Expr → Prop where
  | alone {kind operand : Phrase} {tokens : List Token} {e : Expr} :
    kind.operand? = some operand → Derives operand tokens e → Derives kind tokens e
  | conditional {test yes no : List Token} {t y n : Expr} :
    Derives .or test t → Derives .ternary yes y → Derives .ternary no n →
    Derives .ternary (test ++ .question :: (yes ++ .colon :: no)) (.conditional t y n)
  | joined {kind operand : Phrase} {token : Token} {combine : Expr → Expr → Expr}
    {left right : List Token} {l r : Expr} :
    Operator kind token combine → kind.operand? = some operand →
    Derives kind left l → Derives operand right r →
    Derives kind (left ++ token :: right) (combine l r)
  | not {tokens : List Token} {e : Expr} :
    Derives .unary tokens e → Derives .unary (.bang :: tokens) (.unary .not e)
  | negate {tokens : List Token} {e : Expr} :
    Derives .unary tokens e → Derives .unary (.minus :: tokens) (.unary .negate e)
  | member {tokens : List Token} {object : Expr} (name : String) :
    Derives .chain tokens object →
    Derives .chain (tokens ++ [.dot, .ident name]) (.member object name)
  | index {tokens key : List Token} {object k : Expr} :
    Derives .chain tokens object → Derives .ternary key k →
    Derives .chain (tokens ++ .openBracket :: (key ++ [.closeBracket])) (.index object k)
  | call {tokens : List Token} {callee : Expr} {args : List (List Token × Expr)} :
    Derives .chain tokens callee → (∀ a ∈ args, Derives .ternary a.1 a.2) →
    Derives .chain (tokens ++ .openParen :: (separated args ++ [.closeParen]))
      (.call callee (args.map Prod.snd))
  | number (x : Float) : Derives .primary [.number x] (.literal (numeral x))
  | text (s : String) : Derives .primary [.text s] (.literal (.str s))
  | trueLit : Derives .primary [.trueLit] (.literal (.bool true))
  | falseLit : Derives .primary [.falseLit] (.literal (.bool false))
  | nullLit : Derives .primary [.nullLit] (.literal .null)
  | root (name : String) : Derives .primary [.root name] (.root name)
  | ident (name : String) : Derives .primary [.ident name] (.identifier name)
  | parenthesis {tokens : List Token} {e : Expr} :
    Derives .ternary tokens e → Derives .primary (.openParen :: (tokens ++ [.closeParen])) e
  | array {args : List (List Token × Expr)} :
    (∀ a ∈ args, Derives .ternary a.1 a.2) →
    Derives .primary (.openBracket :: (separated args ++ [.closeBracket]))
      (.array (args.map Prod.snd))

/-- An operand of all operators with two operands is a phrase of each kind that binds less. -/
theorem Derives.ternary_of_unary {tokens : List Token} {e : Expr} (h : Derives .unary tokens e) :
    Derives .ternary tokens e :=
  .alone rfl (.alone rfl (.alone rfl (.alone rfl (.alone rfl (.alone rfl (.alone rfl h))))))

/-! ## Precedence -/

/-- The rank of a kind of phrase; a higher one binds tighter. Rank 1 is left to the question mark,
which goes on with no phrase but the test of a conditional. -/
def Phrase.precedence : Phrase → Nat
  | .ternary => 0
  | .or => 2
  | .and => 3
  | .equality => 4
  | .relational => 5
  | .additive => 6
  | .multiplicative => 7
  | .unary => 8
  | .chain => 9
  | .primary => 10

/-- The precedence of the phrase that a token goes on with when it stands behind one; 0 for a token
that ends every phrase. -/
def Token.binding : Token → Nat
  | .question => 1
  | .orOr => 2
  | .andAnd => 3
  | .equal | .notEqual => 4
  | .less | .lessEqual | .greater | .greaterEqual => 5
  | .plus | .minus => 6
  | .star | .slash | .percent => 7
  | .dot | .openBracket | .openParen => 9
  | _ => 0

theorem Operator.binding_eq {kind : Phrase} {token : Token} {combine : Expr → Expr → Expr}
    (h : Operator kind token combine) : token.binding = kind.precedence := by
  cases h <;> rfl

theorem Phrase.precedence_lt_of_operand? {kind operand : Phrase}
    (h : kind.operand? = some operand) : kind.precedence < operand.precedence := by
  cases kind <;> cases h <;> decide

/-- The level at which the phrases of a kind are parsed as operands and operators. -/
def Phrase.level? : Phrase → Option Nat
  | .or => some 0
  | .and => some 1
  | .equality => some 2
  | .relational => some 3
  | .additive => some 4
  | .multiplicative => some 5
  | _ => none

theorem Phrase.precedence_of_level? {kind : Phrase} {level : Nat} (h : kind.level? = some level) :
    level < operatorLevels ∧ kind.precedence = level + 2 := by
  cases kind <;> cases h <;> decide

/-- The table of operators by level is the operators of the grammar. -/
theorem operatorAt_eq_some_iff {kind : Phrase} {level : Nat} {token : Token}
    {combine : Expr → Expr → Expr} (h : kind.level? = some level) :
    operatorAt level token = some combine ↔ Operator kind token combine := by
  constructor
  · intro hOperator
    cases kind <;> cases h <;> cases token <;> cases hOperator <;> constructor
  · intro hOperator
    cases hOperator <;> cases h <;> rfl

/-- At a level, the tokens that are no operator are those that do not hold on so tightly. -/
theorem operatorAt_eq_none_of_binding {level : Nat} {token : Token}
    (h : token.binding ≠ level + 2) : operatorAt level token = none := by
  match level with
  | 0 | 1 | 2 | 3 | 4 | 5 => cases token <;> first | rfl | exact absurd rfl h
  | level + 6 => cases token <;> rfl

/-! ## The first token -/

/-- Whether a phrase of the kind may start with a token. -/
def Phrase.Opens (kind : Phrase) (token : Token) : Prop :=
  (leafOf token).isSome ∨ token = .openParen ∨ token = .openBracket ∨
    kind.precedence ≤ Phrase.precedence .unary ∧ (leadingOperator token).isSome

theorem Phrase.Opens.mono {kind operand : Phrase} {token : Token} (h : operand.Opens token)
    (hLe : kind.precedence ≤ operand.precedence) : kind.Opens token := by
  obtain hLeaf | hParen | hBracket | ⟨hUnary, hLeading⟩ := h
  · exact .inl hLeaf
  · exact .inr (.inl hParen)
  · exact .inr (.inr (.inl hBracket))
  · exact .inr (.inr (.inr ⟨Nat.le_trans hLe hUnary, hLeading⟩))

/-- A phrase has a first token, and it is one with which phrases of its kind start. -/
theorem Derives.exists_head {kind : Phrase} {tokens : List Token} {e : Expr}
    (h : Derives kind tokens e) : ∃ token more, tokens = token :: more ∧ kind.Opens token := by
  induction h with
  | alone hOperand _ ih =>
    obtain ⟨token, more, rfl, hOpens⟩ := ih
    have hLooser := Phrase.precedence_lt_of_operand? hOperand
    exact ⟨token, more, rfl, hOpens.mono (Nat.le_of_lt hLooser)⟩
  | conditional _ _ _ ihTest =>
    obtain ⟨token, more, rfl, hOpens⟩ := ihTest
    exact ⟨token, _, rfl, hOpens.mono (by decide)⟩
  | joined _ _ _ _ ihLeft =>
    obtain ⟨token, more, rfl, hOpens⟩ := ihLeft
    exact ⟨token, _, rfl, hOpens⟩
  | not | negate => exact ⟨_, _, rfl, .inr (.inr (.inr ⟨Nat.le_refl _, rfl⟩))⟩
  | member _ _ ih | index _ _ ih | call _ _ ih =>
    obtain ⟨token, more, rfl, hOpens⟩ := ih
    exact ⟨token, _, rfl, hOpens⟩
  | number | text | trueLit | falseLit | nullLit | root | ident => exact ⟨_, _, rfl, .inl rfl⟩
  | parenthesis => exact ⟨_, _, rfl, .inr (.inl rfl)⟩
  | array => exact ⟨_, _, rfl, .inr (.inr (.inl rfl))⟩

/-- No phrase starts with the mark that closes a list. -/
theorem Phrase.Opens.ne_of_binding {kind : Phrase} {token close : Token} (h : kind.Opens token)
    (hClose : close = .closeParen ∨ close = .closeBracket) : token ≠ close := by
  rintro rfl
  obtain rfl | rfl := hClose <;> simp [Phrase.Opens, leafOf, leadingOperator] at h

/-- An access chain starts with no operator. -/
theorem Phrase.Opens.leadingOperator_eq_none {kind : Phrase} {token : Token} (h : kind.Opens token)
    (hTight : Phrase.precedence .unary < kind.precedence) : leadingOperator token = none := by
  obtain hLeaf | rfl | rfl | ⟨hUnary, _⟩ := h
  · cases token <;> first | rfl | simp [leafOf] at hLeaf
  · rfl
  · rfl
  · exact absurd hUnary (Nat.not_le.mpr hTight)

/-! ## Phrases with commas between them -/

theorem separated_singleton (a : List Token × Expr) : separated [a] = a.1 := by
  simp [separated, List.intercalate]

theorem separated_cons_cons (a b : List Token × Expr) (more : List (List Token × Expr)) :
    separated (a :: b :: more) = a.1 ++ .comma :: separated (b :: more) := by
  simp [separated, List.intercalate]

end Workflow.Expr

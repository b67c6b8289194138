/-
Workflow.Proofs.Expr.Recognition — the parser accepts its grammar.

What is a phrase of the grammar is parsed to its tree, unless it is nested
too deeply, and nothing else is parsed. The tree of operators of one kind
grows on its left, so the lemma that goes through a derivation does not say
that a phrase has been parsed but that the parse has come to its end and
goes on from there as behind a first operand; what stands behind the phrase
decides whether it does go on.

* `Readable` — the parse of a phrase comes to its end, or is too deep.
* `Derives.readable` — each phrase of the grammar is readable.
* `parse_accepts_grammar` — the parser against the grammar.
-/
import Workflow.Proofs.Expr.Derivation

namespace Workflow.Expr

/-! ## Outcomes -/

/-- The parse of a phrase of a kind. -/
def parsePhrase (kind : Phrase) (endPosition depth : Nat) (tokens : List Lexeme) :
    Except EvaluationError (Parsed Expr tokens) :=
  match kind with
  | .ternary => parseTernary endPosition depth tokens
  | .or => parseLevel 0 endPosition depth tokens
  | .and => parseLevel 1 endPosition depth tokens
  | .equality => parseLevel 2 endPosition depth tokens
  | .relational => parseLevel 3 endPosition depth tokens
  | .additive => parseLevel 4 endPosition depth tokens
  | .multiplicative => parseLevel 5 endPosition depth tokens
  | .unary => parseUnary endPosition depth tokens
  | .chain => parsePostfix endPosition depth tokens
  | .primary => parsePrimary endPosition depth tokens

/-- How the parse of a phrase goes on behind a first part of it. -/
def resume (kind : Phrase) (endPosition : Nat) {tokens : List Lexeme} (left : Parsed Expr tokens) :
    Except EvaluationError (Parsed Expr tokens) :=
  match kind with
  | .or => parseOperands 0 endPosition tokens left
  | .and => parseOperands 1 endPosition tokens left
  | .equality => parseOperands 2 endPosition tokens left
  | .relational => parseOperands 3 endPosition tokens left
  | .additive => parseOperands 4 endPosition tokens left
  | .multiplicative => parseOperands 5 endPosition tokens left
  | .chain => parseAttachments endPosition tokens left
  | .ternary | .unary | .primary => .ok left

/-- The outcome is the report that an expression is nested too deeply. -/
def TooDeep {α : Type} (outcome : Except EvaluationError α) : Prop :=
  ∃ position, outcome = .error (.badSyntax position (.tooDeep depthLimit))

/-- The outcome is how it goes on from a part that has been read, with the rest behind it; or it is
too deep. Neither happens before the depth has got as far as the bound allows. -/
def ComesTo {α : Type} {input : List Lexeme}
    (goOn : Parsed α input → Except EvaluationError (Parsed α input))
    (outcome : Except EvaluationError (Parsed α input)) (result : α) (rest : List Lexeme)
    (bound : Nat) : Prop :=
  (∃ depth shorter, depth < bound ∧ outcome = goOn ⟨result, rest, depth, shorter⟩) ∨
  TooDeep outcome ∧ depthLimit + 1 < bound

theorem ComesTo.mono {α : Type} {input : List Lexeme}
    {goOn : Parsed α input → Except EvaluationError (Parsed α input)}
    {outcome : Except EvaluationError (Parsed α input)} {result : α} {rest : List Lexeme}
    {bound bound' : Nat} (h : ComesTo goOn outcome result rest bound) (hBound : bound ≤ bound') :
    ComesTo goOn outcome result rest bound' := by
  obtain ⟨depth, hShorter, hDepth, hOutcome⟩ | ⟨hDeep, hLimit⟩ := h
  · exact .inl ⟨depth, hShorter, hDepth.trans_le hBound, hOutcome⟩
  · exact .inr ⟨hDeep, hLimit.trans_le hBound⟩

/-- What stands behind a phrase does not hold on to it more tightly than the precedence. -/
def HoldsOn (precedence : Nat) (rest : List Lexeme) : Prop :=
  ∀ l ∈ rest.head?, l.token.binding ≤ precedence

/-- Wherever the tokens stand, a parse of the phrase comes to their end. -/
def Readable (kind : Phrase) (tokens : List Token) (e : Expr) : Prop :=
  ∀ read rest : List Lexeme, read.map Lexeme.token = tokens → HoldsOn kind.precedence rest →
    ∀ endPosition depth : Nat, ComesTo (resume kind endPosition)
      (parsePhrase kind endPosition depth (read ++ rest)) e rest
      (depth + read.length + kind.room)

theorem parsePhrase_of_level? {kind : Phrase} {level : Nat} (h : kind.level? = some level) :
    parsePhrase kind = parseLevel level := by
  cases kind <;> cases h <;> rfl

theorem resume_of_level? {kind : Phrase} {level : Nat} (h : kind.level? = some level)
    (endPosition : Nat) {tokens : List Lexeme} (left : Parsed Expr tokens) :
    resume kind endPosition left = parseOperands level endPosition tokens left := by
  cases kind <;> cases h <;> rfl

theorem parseLevel_succ {kind operand : Phrase} {level : Nat} (h : kind.level? = some level)
    (hOperand : kind.operand? = some operand) : parseLevel (level + 1) = parsePhrase operand := by
  cases kind <;> cases h <;> cases hOperand <;> try rfl
  funext endPosition depth tokens
  rw [parseLevel, dif_neg (by decide)]
  rfl

theorem descend_cases (endPosition depth : Nat) (tokens : List Lexeme) :
    descend endPosition depth tokens = .ok (depth + 1) ∨
      TooDeep (descend endPosition depth tokens) ∧ depthLimit ≤ depth := by
  unfold descend
  split
  · exact .inr ⟨⟨_, rfl⟩, by omega⟩
  · exact .inl rfl

/-- Where nothing holds on to a phrase, its parse has come to an end. -/
theorem resume_of_binding_lt {kind : Phrase} {endPosition : Nat} {tokens : List Lexeme}
    (left : Parsed Expr tokens) (h : ∀ l ∈ left.rest.head?, l.token.binding < kind.precedence) :
    resume kind endPosition left = .ok left := by
  obtain ⟨result, rest, depth, hShorter⟩ := left
  cases hLevel : kind.level? with
  | some level =>
    rw [resume_of_level? hLevel, parseOperands]
    obtain ⟨-, hPrecedence⟩ := Phrase.precedence_of_level? hLevel
    cases rest with
    | nil => rfl
    | cons l more =>
      have hLoose := h l rfl
      have hNone : operatorAt level l.token = none :=
        operatorAt_eq_none_of_binding (by omega)
      simp only [hNone]
  | none =>
    cases kind with
    | chain =>
      show parseAttachments endPosition tokens _ = _
      rw [parseAttachments]
      cases rest with
      | nil => rfl
      | cons l more =>
        have hLoose := h l rfl
        obtain ⟨token, position⟩ := l
        cases token <;> first | rfl | exact absurd hLoose (Nat.lt_irrefl _)
    | ternary | unary | primary => rfl
    | _ => cases hLevel

/-- A phrase behind which nothing holds on to it has been parsed at its end. -/
theorem Readable.parsed {kind : Phrase} {tokens : List Token} {e : Expr}
    (h : Readable kind tokens e) {read rest : List Lexeme}
    (hRead : read.map Lexeme.token = tokens)
    (hRest : ∀ l ∈ rest.head?, l.token.binding < kind.precedence) (endPosition depth : Nat) :
    ComesTo .ok (parsePhrase kind endPosition depth (read ++ rest)) e rest
      (depth + read.length + kind.room) := by
  have hHolds : HoldsOn kind.precedence rest := fun l hl => Nat.le_of_lt (hRest l hl)
  obtain ⟨a, hShorter, hDepth, hOutcome⟩ | hDeep := h read rest hRead hHolds endPosition depth
  · exact .inl ⟨a, hShorter, hDepth, hOutcome.trans (resume_of_binding_lt _ hRest)⟩
  · exact .inr hDeep

theorem HoldsOn.lt_of_operand? {kind operand : Phrase} {rest : List Lexeme}
    (h : HoldsOn kind.precedence rest) (hOperand : kind.operand? = some operand) :
    ∀ l ∈ rest.head?, l.token.binding < operand.precedence := fun l hl =>
  Nat.lt_of_le_of_lt (h l hl) (Phrase.precedence_lt_of_operand? hOperand)

/-- Tokens that have been read fall into parts as the phrase does. -/
theorem exists_split {read : List Lexeme} {left right : List Token} {token : Token}
    (h : read.map Lexeme.token = left ++ token :: right) :
    ∃ first position second, read = first ++ ⟨token, position⟩ :: second ∧
      first.map Lexeme.token = left ∧ second.map Lexeme.token = right := by
  obtain ⟨first, tail, rfl, hFirst, hTail⟩ := List.map_eq_append_iff.mp h
  obtain ⟨⟨_, position⟩, second, rfl, rfl, hSecond⟩ := List.map_eq_cons_iff.mp hTail
  exact ⟨first, position, second, rfl, hFirst, hSecond⟩

/-! ## Each rule of the grammar -/

theorem readable_alone_of_level? {kind operand : Phrase} {level : Nat}
    (hLevel : kind.level? = some level) (hOperand : kind.operand? = some operand)
    {tokens : List Token} {e : Expr} (h : Readable operand tokens e) : Readable kind tokens e := by
  intro read rest hRead hRest endPosition depth
  have hRoom : kind.room = 0 ∧ operand.room = 0 := by
    cases kind <;> cases hLevel <;> cases hOperand <;> exact ⟨rfl, rfl⟩
  have hLow := (Phrase.precedence_of_level? hLevel).1
  rw [parsePhrase_of_level? hLevel, parseLevel, dif_pos hLow, parseLevel_succ hLevel hOperand]
  obtain ⟨a, hShorter, hDepth, hOutcome⟩ | ⟨⟨position, hDeep⟩, hBound⟩ :=
    h.parsed hRead (hRest.lt_of_operand? hOperand) endPosition depth
  · rw [hOutcome]
    exact .inl ⟨a, hShorter, by omega, (resume_of_level? hLevel _ _).symm⟩
  · rw [hDeep]
    exact .inr ⟨⟨position, rfl⟩, by omega⟩

theorem readable_joined {kind operand : Phrase} {token : Token} {combine : Expr → Expr → Expr}
    (hOperator : Operator kind token combine) (hOperand : kind.operand? = some operand)
    {left right : List Token} {l r : Expr} (hLeft : Readable kind left l)
    (hRight : Readable operand right r) :
    Readable kind (left ++ token :: right) (combine l r) := by
  intro read rest hRead hRest endPosition depth
  obtain ⟨first, position, second, rfl, hFirst, hSecond⟩ := exists_split hRead
  obtain ⟨level, hLevel⟩ : ∃ level, kind.level? = some level := by
    cases hOperator <;> exact ⟨_, rfl⟩
  have hRoom : kind.room = 0 ∧ operand.room = 0 := by
    cases kind <;> cases hLevel <;> cases hOperand <;> exact ⟨rfl, rfl⟩
  have hHolds : HoldsOn kind.precedence (⟨token, position⟩ :: (second ++ rest)) := by
    simp [HoldsOn, hOperator.binding_eq]
  rw [List.append_assoc, List.cons_append]
  simp only [List.length_append, List.length_cons]
  obtain ⟨a, hShorter, hDepth, hOutcome⟩ | ⟨hDeep, hBound⟩ :=
    hLeft first _ hFirst hHolds endPosition depth
  · rw [hOutcome, resume_of_level? hLevel, parseOperands]
    simp only [(operatorAt_eq_some_iff hLevel).mpr hOperator]
    obtain hDescend | ⟨⟨position, hDeep⟩, hLimit⟩ :=
      descend_cases endPosition a (second ++ rest)
    · simp only [hDescend, parseLevel_succ hLevel hOperand]
      obtain ⟨b, hRightShorter, hRightDepth, hRightOutcome⟩ | ⟨⟨position, hDeep⟩, hBound⟩ :=
        hRight.parsed hSecond (hRest.lt_of_operand? hOperand) endPosition (a + 1)
      · simp only [hRightOutcome]
        exact .inl ⟨b, _, by omega, (resume_of_level? hLevel _ _).symm⟩
      · simp only [hDeep]
        exact .inr ⟨⟨position, rfl⟩, by omega⟩
    · simp only [hDeep]
      exact .inr ⟨⟨position, rfl⟩, by omega⟩
  · exact .inr ⟨hDeep, by omega⟩

/-- A phrase that is nested in another one is a level further down. -/
theorem comesTo_ternary {endPosition depth : Nat} {read rest : List Lexeme} {e : Expr}
    (hNonempty : 0 < read.length)
    (h : ComesTo .ok (parseConditional endPosition (depth + 1) (read ++ rest)) e rest
      (depth + 1 + read.length)) :
    ComesTo .ok (parseTernary endPosition depth (read ++ rest)) e rest
      (depth + read.length + 1) := by
  rw [parseTernary]
  obtain hDescend | ⟨⟨position, hDeep⟩, hLimit⟩ := descend_cases endPosition depth (read ++ rest)
  · simp only [hDescend]
    obtain ⟨a, hShorter, hDepth, hOutcome⟩ | ⟨⟨position, hDeep⟩, hBound⟩ := h
    · simp only [hOutcome]
      exact .inl ⟨depth, hShorter, by omega, rfl⟩
    · simp only [hDeep]
      exact .inr ⟨⟨position, rfl⟩, by omega⟩
  · simp only [hDeep]
    exact .inr ⟨⟨position, rfl⟩, by omega⟩

theorem readable_alone_ternary {tokens : List Token} {e : Expr} (hNonempty : 0 < tokens.length)
    (h : Readable .or tokens e) : Readable .ternary tokens e := by
  intro read rest hRead hRest endPosition depth
  have hLoose : ∀ l ∈ rest.head?, l.token.binding < Phrase.precedence .or := fun l hl =>
    Nat.lt_of_le_of_lt (hRest l hl) (by decide)
  refine comesTo_ternary (by simpa [← hRead] using hNonempty) ?_
  have hTest : ComesTo .ok (parseLevel 0 endPosition (depth + 1) (read ++ rest)) e rest
      (depth + 1 + read.length) := h.parsed hRead hLoose endPosition (depth + 1)
  rw [parseConditional]
  obtain ⟨a, hShorter, hDepth, hOutcome⟩ | ⟨⟨position, hDeep⟩, hBound⟩ := hTest
  · simp only [hOutcome]
    refine .inl ⟨a, hShorter, hDepth, ?_⟩
    cases rest with
    | nil => rfl
    | cons l more =>
      have hFree : l.token.binding ≤ 0 := hRest l rfl
      obtain ⟨token, position⟩ := l
      cases token <;> first | rfl | exact absurd hFree (Nat.not_succ_le_zero _)
  · simp only [hDeep]
    exact .inr ⟨⟨position, rfl⟩, hBound⟩

theorem readable_conditional {test yes no : List Token} {t y n : Expr}
    (hTest : Readable .or test t) (hYes : Readable .ternary yes y)
    (hNo : Readable .ternary no n) :
    Readable .ternary (test ++ .question :: (yes ++ .colon :: no)) (.conditional t y n) := by
  intro read rest hRead hRest endPosition depth
  obtain ⟨first, position, tail, rfl, hFirst, hTail⟩ := exists_split hRead
  obtain ⟨second, colonPosition, third, rfl, hSecond, hThird⟩ := exists_split hTail
  refine comesTo_ternary (by simp only [List.length_append, List.length_cons]; omega) ?_
  have hInput : (first ++ ⟨.question, position⟩ :: (second ++ ⟨.colon, colonPosition⟩ :: third)) ++
      rest = first ++ ⟨.question, position⟩ ::
        (second ++ ⟨.colon, colonPosition⟩ :: (third ++ rest)) := by simp
  rw [hInput]
  simp only [List.length_append, List.length_cons]
  have hTest : ComesTo .ok (parseLevel 0 endPosition (depth + 1) (first ++ _)) t
      (⟨.question, position⟩ :: (second ++ ⟨.colon, colonPosition⟩ :: (third ++ rest)))
      (depth + 1 + first.length) :=
    hTest.parsed hFirst (by simp [Token.binding, Phrase.precedence]) endPosition (depth + 1)
  rw [parseConditional]
  obtain ⟨a, hShorter, hDepth, hOutcome⟩ | ⟨⟨position, hDeep⟩, hBound⟩ := hTest
  · have hYes : ComesTo .ok (parseTernary endPosition a (second ++ _)) y
        (⟨.colon, colonPosition⟩ :: (third ++ rest)) (a + second.length + 1) :=
      hYes second _ hSecond (by simp [HoldsOn, Token.binding]) endPosition a
    simp only [hOutcome]
    obtain ⟨b, hYesShorter, hYesDepth, hOutcome⟩ | ⟨⟨position, hDeep⟩, hBound⟩ := hYes
    · have hNo : ComesTo .ok (parseTernary endPosition b (third ++ rest)) n rest
          (b + third.length + 1) := hNo third rest hThird hRest endPosition b
      simp only [hOutcome]
      obtain ⟨c, hNoShorter, hNoDepth, hOutcome⟩ | ⟨⟨position, hDeep⟩, hBound⟩ := hNo
      · simp only [hOutcome]
        exact .inl ⟨c, _, by omega, rfl⟩
      · simp only [hDeep]
        exact .inr ⟨⟨position, rfl⟩, by omega⟩
    · simp only [hDeep]
      exact .inr ⟨⟨position, rfl⟩, by omega⟩
  · simp only [hDeep]
    exact .inr ⟨⟨position, rfl⟩, by omega⟩

theorem readable_alone_unary {tokens : List Token} {e : Expr}
    (hHead : ∃ token more, tokens = token :: more ∧ Phrase.Opens .chain token)
    (h : Readable .chain tokens e) : Readable .unary tokens e := by
  intro read rest hRead hRest endPosition depth
  obtain ⟨token, more, rfl, hOpens⟩ := hHead
  obtain ⟨⟨_, position⟩, tail, rfl, rfl, hTail⟩ := List.map_eq_cons_iff.mp hRead
  have hChain := h.parsed hRead (hRest.lt_of_operand? rfl) endPosition depth
  show ComesTo .ok (parseUnary endPosition depth (_ :: (tail ++ rest))) _ _ _
  rw [parseUnary]
  simp only [hOpens.leadingOperator_eq_none (by decide)]
  exact hChain

theorem readable_leading {op : Expr.UnaryOp} {token : Token}
    (hLeading : leadingOperator token = some op) {tokens : List Token} {e : Expr}
    (hNonempty : 0 < tokens.length) (h : Readable .unary tokens e) :
    Readable .unary (token :: tokens) (.unary op e) := by
  intro read rest hRead hRest endPosition depth
  obtain ⟨⟨_, position⟩, tail, rfl, rfl, hTail⟩ := List.map_eq_cons_iff.mp hRead
  have hLength : 0 < tail.length := by simpa [← hTail] using hNonempty
  show ComesTo .ok (parseUnary endPosition depth (_ :: (tail ++ rest))) _ _
    (depth + (tail.length + 1))
  rw [parseUnary]
  simp only [hLeading]
  obtain hDescend | ⟨⟨position, hDeep⟩, hLimit⟩ := descend_cases endPosition depth (tail ++ rest)
  · simp only [hDescend]
    have hOperand : ComesTo .ok (parseUnary endPosition (depth + 1) (tail ++ rest)) e rest
        (depth + 1 + tail.length) := h tail rest hTail hRest endPosition (depth + 1)
    obtain ⟨a, hShorter, hDepth, hOutcome⟩ | ⟨⟨position, hDeep⟩, hBound⟩ := hOperand
    · simp only [hOutcome]
      exact .inl ⟨a, _, by omega, rfl⟩
    · simp only [hDeep]
      exact .inr ⟨⟨position, rfl⟩, by omega⟩
  · simp only [hDeep]
    exact .inr ⟨⟨position, rfl⟩, by omega⟩

theorem readable_alone_chain {tokens : List Token} {e : Expr} (h : Readable .primary tokens e) :
    Readable .chain tokens e := by
  intro read rest hRead hRest endPosition depth
  have hPrimary : ComesTo .ok (parsePrimary endPosition depth (read ++ rest)) e rest
      (depth + read.length) := h.parsed hRead (hRest.lt_of_operand? rfl) endPosition depth
  show ComesTo _ (parsePostfix endPosition depth (read ++ rest)) _ _ _
  rw [parsePostfix]
  obtain ⟨a, hShorter, hDepth, hOutcome⟩ | ⟨⟨position, hDeep⟩, hBound⟩ := hPrimary
  · simp only [hOutcome]
    exact .inl ⟨a, hShorter, hDepth, rfl⟩
  · simp only [hDeep]
    exact .inr ⟨⟨position, rfl⟩, hBound⟩

/-- Behind an object the chain goes on with the mark of an attachment, as behind the first part of what
has been read. -/
theorem readable_attached {tokens more : List Token} {mark : Token} {object e : Expr}
    (hMark : mark.binding ≤ Phrase.chain.precedence) (h : Readable .chain tokens object)
    (hMore : ∀ (position : Nat) (second rest input : List Lexeme) (endPosition depth : Nat)
      (hShorter : (⟨mark, position⟩ :: (second ++ rest) : List Lexeme).length < input.length),
      second.map Lexeme.token = more →
        ComesTo (resume .chain endPosition) (parseAttachments endPosition input
          ⟨object, ⟨mark, position⟩ :: (second ++ rest), depth, hShorter⟩) e rest
          (depth + second.length + 2)) :
    Readable .chain (tokens ++ mark :: more) e := by
  intro read rest hRead hRest endPosition depth
  obtain ⟨first, position, second, rfl, hFirst, hSecond⟩ := exists_split hRead
  rw [List.append_assoc, List.cons_append]
  simp only [List.length_append, List.length_cons]
  have hHolds : HoldsOn Phrase.chain.precedence (⟨mark, position⟩ :: (second ++ rest)) := by
    simpa [HoldsOn] using hMark
  obtain ⟨a, hShorter, hDepth, hOutcome⟩ | ⟨hDeep, hBound⟩ :=
    h first _ hFirst hHolds endPosition depth
  · rw [hOutcome]
    refine (hMore position second rest _ endPosition a hShorter hSecond).mono ?_
    simp only [Phrase.room] at hDepth ⊢
    omega
  · exact .inr ⟨hDeep, by omega⟩

theorem readable_member (name : String) {tokens : List Token} {object : Expr}
    (h : Readable .chain tokens object) :
    Readable .chain (tokens ++ [.dot, .ident name]) (.member object name) := by
  refine readable_attached (by decide) h ?_
  intro position second rest input endPosition depth _ hSecond
  obtain ⟨⟨_, namePosition⟩, nothing, rfl, rfl, hNothing⟩ := List.map_eq_cons_iff.mp hSecond
  obtain rfl := List.map_eq_nil_iff.mp hNothing
  simp only [List.cons_append, List.nil_append, List.length_singleton]
  rw [parseAttachments]
  obtain hDescend | ⟨⟨position, hDeep⟩, hLimit⟩ := descend_cases endPosition depth
    (⟨.dot, position⟩ :: ⟨.ident name, namePosition⟩ :: rest)
  · simp only [hDescend]
    exact .inl ⟨depth + 1, _, by omega, rfl⟩
  · simp only [hDeep]
    exact .inr ⟨⟨position, rfl⟩, by omega⟩

theorem readable_index {tokens key : List Token} {object k : Expr}
    (h : Readable .chain tokens object) (hKey : Readable .ternary key k) :
    Readable .chain (tokens ++ .openBracket :: (key ++ [.closeBracket])) (.index object k) := by
  refine readable_attached (by decide) h ?_
  intro position second rest input endPosition depth _ hSecond
  obtain ⟨inner, closePosition, nothing, rfl, hInner, hNothing⟩ := exists_split hSecond
  obtain rfl := List.map_eq_nil_iff.mp hNothing
  simp only [List.append_assoc, List.cons_append, List.nil_append, List.length_append,
    List.length_singleton]
  rw [parseAttachments]
  obtain hDescend | ⟨⟨position, hDeep⟩, hLimit⟩ := descend_cases endPosition depth
    (⟨.openBracket, position⟩ :: (inner ++ ⟨.closeBracket, closePosition⟩ :: rest))
  · simp only [hDescend]
    have hKey : ComesTo .ok (parseTernary endPosition (depth + 1) (inner ++ _)) k
        (⟨.closeBracket, closePosition⟩ :: rest) (depth + 1 + inner.length + 1) :=
      hKey inner _ hInner (by simp [HoldsOn, Token.binding]) endPosition (depth + 1)
    obtain ⟨b, hShorter, hDepth, hOutcome⟩ | ⟨⟨position, hDeep⟩, hBound⟩ := hKey
    · simp only [hOutcome]
      exact .inl ⟨b, _, by omega, rfl⟩
    · simp only [hDeep]
      exact .inr ⟨⟨position, rfl⟩, by omega⟩
  · simp only [hDeep]
    exact .inr ⟨⟨position, rfl⟩, by omega⟩

/-- Phrases with commas between them are parsed one after the other, up to the mark that closes
the list. -/
theorem comesTo_items {close : Token} (hClose : close = .closeParen ∨ close = .closeBracket)
    (what : String) (endPosition : Nat) {args : List (List Token × Expr)} (hNonempty : args ≠ [])
    (h : ∀ a ∈ args, Readable .ternary a.1 a.2) (read rest : List Lexeme)
    (hRead : read.map Lexeme.token = separated args ++ [close]) (depth : Nat) :
    ComesTo .ok (parseItems close what endPosition depth (read ++ rest)) (args.map Prod.snd) rest
      (depth + read.length) := by
  have hFree : close.binding = 0 ∧ close ≠ .comma := by
    obtain rfl | rfl := hClose <;> decide
  -- a phrase is closed by the mark or by a comma, and both bind nothing
  induction args generalizing read depth with
  | nil => exact absurd rfl hNonempty
  | cons a more ih =>
    have hFirst : Readable .ternary a.1 a.2 := h a (by simp)
    cases more with
    | nil =>
      rw [separated_singleton] at hRead
      obtain ⟨first, position, nothing, rfl, hTokens, hNothing⟩ := exists_split hRead
      obtain rfl := List.map_eq_nil_iff.mp hNothing
      rw [List.append_assoc]
      simp only [List.length_append, List.length_cons, List.length_nil]
      have hParsed : ComesTo .ok (parseTernary endPosition depth (first ++ _)) a.2
          (⟨close, position⟩ :: rest) (depth + first.length + 1) :=
        hFirst first _ hTokens (by simp [HoldsOn, hFree]) endPosition depth
      rw [parseItems]
      obtain ⟨b, hShorter, hDepth, hOutcome⟩ | ⟨⟨position, hDeep⟩, hBound⟩ := hParsed
      · simp only [List.cons_append, List.nil_append, hOutcome, hFree.2, if_false, if_true]
        exact .inl ⟨b, _, by omega, rfl⟩
      · simp only [List.cons_append, List.nil_append, hDeep]
        exact .inr ⟨⟨position, rfl⟩, by omega⟩
    | cons b more =>
      rw [separated_cons_cons, List.append_assoc, List.cons_append] at hRead
      obtain ⟨first, position, second, rfl, hTokens, hSecond⟩ := exists_split hRead
      rw [List.append_assoc, List.cons_append]
      simp only [List.length_append, List.length_cons]
      have hParsed : ComesTo .ok (parseTernary endPosition depth (first ++ _)) a.2
          (⟨.comma, position⟩ :: (second ++ rest)) (depth + first.length + 1) :=
        hFirst first _ hTokens (by simp [HoldsOn, Token.binding]) endPosition depth
      rw [parseItems]
      obtain ⟨c, hShorter, hDepth, hOutcome⟩ | ⟨⟨position, hDeep⟩, hBound⟩ := hParsed
      · simp only [hOutcome, if_true]
        have hMore := ih (by simp) (fun x hx => h x (List.mem_cons_of_mem _ hx)) second hSecond c
        obtain ⟨d, hMoreShorter, hMoreDepth, hOutcome⟩ | ⟨⟨position, hDeep⟩, hBound⟩ := hMore
        · simp only [hOutcome]
          exact .inl ⟨d, _, by omega, rfl⟩
        · simp only [hDeep]
          exact .inr ⟨⟨position, rfl⟩, by omega⟩
      · simp only [hDeep]
        exact .inr ⟨⟨position, rfl⟩, by omega⟩

theorem comesTo_arguments {close : Token} (hClose : close = .closeParen ∨ close = .closeBracket)
    (what : String) (endPosition : Nat) {args : List (List Token × Expr)}
    (hDerives : ∀ a ∈ args, Derives .ternary a.1 a.2)
    (h : ∀ a ∈ args, Readable .ternary a.1 a.2) (read rest : List Lexeme)
    (hRead : read.map Lexeme.token = separated args ++ [close]) (depth : Nat) :
    ComesTo .ok (parseArguments close what endPosition depth (read ++ rest))
      (args.map Prod.snd) rest (depth + read.length) := by
  cases args with
  | nil =>
    obtain ⟨first, position, nothing, rfl, hFirst, hNothing⟩ := exists_split hRead
    obtain rfl := List.map_eq_nil_iff.mp hFirst
    obtain rfl := List.map_eq_nil_iff.mp hNothing
    rw [List.nil_append, List.cons_append, List.nil_append, parseArguments]
    simp only [if_true]
    exact .inl ⟨depth, _, by simp, rfl⟩
  | cons a more =>
    have hItems := comesTo_items hClose what endPosition (by simp) h read rest hRead depth
    obtain ⟨token, tail, hTokens, hOpens⟩ := (hDerives a (by simp)).exists_head
    obtain ⟨position, second, rfl⟩ : ∃ position second, read = ⟨token, position⟩ :: second := by
      obtain ⟨tail', hSeparated⟩ : ∃ tail', separated (a :: more) ++ [close] = token :: tail' := by
        cases more with
        | nil => exact ⟨_, by rw [separated_singleton, hTokens]; rfl⟩
        | cons b more => exact ⟨_, by rw [separated_cons_cons, hTokens]; rfl⟩
      obtain ⟨⟨_, position⟩, second, rfl, rfl, -⟩ :=
        List.map_eq_cons_iff.mp (hRead.trans hSeparated)
      exact ⟨position, second, rfl⟩
    rw [List.cons_append] at hItems ⊢
    rw [parseArguments, if_neg (hOpens.ne_of_binding hClose)]
    exact hItems

theorem readable_call {tokens : List Token} {callee : Expr} {args : List (List Token × Expr)}
    (h : Readable .chain tokens callee) (hDerives : ∀ a ∈ args, Derives .ternary a.1 a.2)
    (hArgs : ∀ a ∈ args, Readable .ternary a.1 a.2) :
    Readable .chain (tokens ++ .openParen :: (separated args ++ [.closeParen]))
      (.call callee (args.map Prod.snd)) := by
  refine readable_attached (by decide) h ?_
  intro position second rest input endPosition depth _ hSecond
  rw [parseAttachments]
  obtain hDescend | ⟨⟨position, hDeep⟩, hLimit⟩ := descend_cases endPosition depth
    (⟨.openParen, position⟩ :: (second ++ rest))
  · simp only [hDescend]
    obtain ⟨b, hShorter, hDepth, hOutcome⟩ | ⟨⟨position, hDeep⟩, hBound⟩ :=
      comesTo_arguments (.inl rfl) "')'" endPosition hDerives hArgs second rest hSecond (depth + 1)
    · simp only [hOutcome]
      exact .inl ⟨b, _, by omega, rfl⟩
    · simp only [hDeep]
      exact .inr ⟨⟨position, rfl⟩, by omega⟩
  · simp only [hDeep]
    exact .inr ⟨⟨position, rfl⟩, by omega⟩

theorem readable_leaf {token : Token} {leaf : Expr} (h : leafOf token = some (.ok leaf)) :
    Readable .primary [token] leaf := by
  intro read rest hRead hRest endPosition depth
  obtain ⟨⟨_, position⟩, nothing, rfl, rfl, hNothing⟩ := List.map_eq_cons_iff.mp hRead
  obtain rfl := List.map_eq_nil_iff.mp hNothing
  show ComesTo .ok (parsePrimary endPosition depth (_ :: rest)) _ _ (depth + 1)
  rw [parsePrimary.eq_def]
  simp only [h]
  exact .inl ⟨depth, _, by omega, rfl⟩

theorem readable_parenthesis {tokens : List Token} {e : Expr} (h : Readable .ternary tokens e) :
    Readable .primary (.openParen :: (tokens ++ [.closeParen])) e := by
  intro read rest hRead hRest endPosition depth
  obtain ⟨⟨_, position⟩, tail, rfl, rfl, hTail⟩ := List.map_eq_cons_iff.mp hRead
  obtain ⟨first, closePosition, nothing, rfl, hFirst, hNothing⟩ := exists_split hTail
  obtain rfl := List.map_eq_nil_iff.mp hNothing
  rw [List.cons_append, List.append_assoc]
  simp only [List.length_append, List.length_cons, List.length_nil, Phrase.room]
  have hInner : ComesTo .ok (parseTernary endPosition depth (first ++ _)) e
      (⟨.closeParen, closePosition⟩ :: rest) (depth + first.length + 1) :=
    h first _ hFirst (by simp [HoldsOn, Token.binding]) endPosition depth
  show ComesTo .ok (parsePrimary endPosition depth (_ :: (first ++ _ :: rest))) _ _ _
  rw [parsePrimary]
  simp only [leafOf]
  obtain ⟨a, hShorter, hDepth, hOutcome⟩ | ⟨⟨position, hDeep⟩, hBound⟩ := hInner
  · simp only [hOutcome]
    exact .inl ⟨a, _, by omega, rfl⟩
  · simp only [hDeep]
    exact .inr ⟨⟨position, rfl⟩, by omega⟩

theorem readable_array {args : List (List Token × Expr)}
    (hDerives : ∀ a ∈ args, Derives .ternary a.1 a.2)
    (hArgs : ∀ a ∈ args, Readable .ternary a.1 a.2) :
    Readable .primary (.openBracket :: (separated args ++ [.closeBracket]))
      (.array (args.map Prod.snd)) := by
  intro read rest hRead hRest endPosition depth
  obtain ⟨⟨_, position⟩, tail, rfl, rfl, hTail⟩ := List.map_eq_cons_iff.mp hRead
  show ComesTo .ok (parsePrimary endPosition depth (_ :: (tail ++ rest))) _ _
    (depth + (tail.length + 1))
  rw [parsePrimary]
  simp only [leafOf]
  obtain ⟨a, hShorter, hDepth, hOutcome⟩ | ⟨⟨position, hDeep⟩, hBound⟩ :=
    comesTo_arguments (.inr rfl) "']'" endPosition hDerives hArgs tail rest hTail depth
  · simp only [hOutcome]
    exact .inl ⟨a, _, by omega, rfl⟩
  · simp only [hDeep]
    exact .inr ⟨⟨position, rfl⟩, by omega⟩

/-! ## All phrases -/

/-- A token that is no number, or a finite one. -/
def Token.IsFinite : Token → Prop
  | .number x => x.isFinite = true
  | _ => True

/-- A finite number has a value. -/
theorem leafOf_number {x : Float} (h : x.isFinite = true) :
    leafOf (.number x) = some (.ok (.literal (numeral x))) := by
  have hValue : ∃ v, numberResult x = .ok v := by
    simp only [numberResult, h, if_true]
    split <;> exact ⟨_, rfl⟩
  obtain ⟨v, hValue⟩ := hValue
  simp [leafOf, numeral, hValue, Except.map, Except.toOption]

theorem Derives.length_pos {kind : Phrase} {tokens : List Token} {e : Expr}
    (h : Derives kind tokens e) : 0 < tokens.length := by
  obtain ⟨token, more, rfl, -⟩ := h.exists_head
  exact Nat.succ_pos _

/-- Every phrase whose numbers are finite can be read. The induction is on the derivation: each
rule reads its parts one after the other, and a part on the left leaves off where the loop behind
it takes over. -/
theorem Derives.readable {kind : Phrase} {tokens : List Token} {e : Expr}
    (h : Derives kind tokens e) (hFinite : ∀ token ∈ tokens, token.IsFinite) :
    Readable kind tokens e := by
  induction h with
  | @alone kind operand tokens e hOperand h ih =>
    have hPart := ih hFinite
    cases hLevel : kind.level? with
    | some level => exact readable_alone_of_level? hLevel hOperand hPart
    | none =>
      cases kind <;> cases hOperand <;> try cases hLevel
      · exact readable_alone_ternary h.length_pos hPart
      · exact readable_alone_unary h.exists_head hPart
      · exact readable_alone_chain hPart
  | conditional _ _ _ ihTest ihYes ihNo =>
    simp only [List.forall_mem_append, List.forall_mem_cons] at hFinite
    exact readable_conditional (ihTest hFinite.1) (ihYes hFinite.2.2.1) (ihNo hFinite.2.2.2.2)
  | joined hOperator hOperand _ _ ihLeft ihRight =>
    simp only [List.forall_mem_append, List.forall_mem_cons] at hFinite
    exact readable_joined hOperator hOperand (ihLeft hFinite.1) (ihRight hFinite.2.2)
  | not h ih => exact readable_leading rfl h.length_pos (ih (List.forall_mem_cons.mp hFinite).2)
  | negate h ih => exact readable_leading rfl h.length_pos (ih (List.forall_mem_cons.mp hFinite).2)
  | member name _ ih => exact readable_member name (ih (List.forall_mem_append.mp hFinite).1)
  | index _ _ ih ihKey =>
    simp only [List.forall_mem_append, List.forall_mem_cons] at hFinite
    exact readable_index (ih hFinite.1) (ihKey hFinite.2.2.1)
  | call _ hArgs ih ihArgs =>
    simp only [List.forall_mem_append, List.forall_mem_cons] at hFinite
    exact readable_call (ih hFinite.1) hArgs fun a ha =>
      ihArgs a ha fun token ht => hFinite.2.2.1 token ((infix_separated ha).subset ht)
  | number x => exact readable_leaf (leafOf_number (hFinite (.number x) (by simp)))
  | text | trueLit | falseLit | nullLit | root | ident => exact readable_leaf rfl
  | parenthesis _ ih =>
    simp only [List.forall_mem_append, List.forall_mem_cons] at hFinite
    exact readable_parenthesis (ih hFinite.2.1)
  | array hArgs ihArgs =>
    simp only [List.forall_mem_append, List.forall_mem_cons] at hFinite
    exact readable_array hArgs fun a ha =>
      ihArgs a ha fun token ht => hFinite.2.1 token ((infix_separated ha).subset ht)

/-- Tokens that are a phrase are parsed to its tree, unless there are too many of them. -/
theorem Derives.parseTokens_eq {tokens : List Lexeme} {e : Expr}
    (h : Derives .ternary (tokens.map Lexeme.token) e)
    (hFinite : ∀ token ∈ tokens.map Lexeme.token, token.IsFinite) (endPosition : Nat) :
    parseTokens endPosition tokens = .ok e ∨
      TooDeep (parseTokens endPosition tokens) ∧ depthLimit < tokens.length := by
  have hParsed : ComesTo .ok (parseTernary endPosition 0 (tokens ++ [])) e []
      (0 + tokens.length + 1) :=
    h.readable hFinite tokens [] rfl (by simp [HoldsOn]) endPosition 0
  rw [List.append_nil] at hParsed
  have hNonempty : tokens ≠ [] := by
    rintro rfl
    exact absurd h.length_pos (Nat.lt_irrefl 0)
  obtain ⟨l, more, rfl⟩ := List.exists_cons_of_ne_nil hNonempty
  unfold parseTokens
  obtain ⟨a, hShorter, hDepth, hOutcome⟩ | ⟨⟨position, hDeep⟩, hBound⟩ := hParsed
  · simp only [hOutcome]
    exact .inl trivial
  · simp only [hDeep]
    exact .inr ⟨⟨position, rfl⟩, by omega⟩

/-- The parser accepts its grammar. What it accepts, the tokens derive; what the tokens derive, it
accepts, if the numbers are finite, unless the text has more than 128 tokens and the parse reports
that they are nested too deeply. -/
theorem parse_accepts_grammar {source : List Char} {lexemes : List Lexeme}
    (hTokens : tokenize source = .ok lexemes) (e : Expr) :
    (parse source = .ok e → Derives .ternary (lexemes.map Lexeme.token) e) ∧
    (Derives .ternary (lexemes.map Lexeme.token) e →
      (∀ token ∈ lexemes.map Lexeme.token, token.IsFinite) →
      parse source = .ok e ∨ TooDeep (parse source) ∧ depthLimit < lexemes.length) := by
  have hParse : parse source = parseTokens (byteLength source) lexemes := by
    rw [parse, hTokens]
  rw [hParse]
  exact ⟨derives_of_parseTokens, fun h hFinite => h.parseTokens_eq hFinite _⟩

/-- The tokens of `-a(2) + ['b', c]`. -/
def sumLexemes : List Lexeme :=
  [⟨.minus, 0⟩, ⟨.ident "a", 1⟩, ⟨.openParen, 2⟩, ⟨.number 2.0, 3⟩, ⟨.closeParen, 4⟩, ⟨.plus, 6⟩,
    ⟨.openBracket, 8⟩, ⟨.text "b", 9⟩, ⟨.comma, 12⟩, ⟨.ident "c", 14⟩, ⟨.closeBracket, 15⟩]

/-- The tree of `-a(2) + ['b', c]`. -/
def sumTree : Expr :=
  .binary .add (.unary .negate (.call (.identifier "a") [.literal (numeral 2.0)]))
    (.array [.literal (.str "b"), .identifier "c"])

theorem derives_sumTree : Derives .ternary (sumLexemes.map Lexeme.token) sumTree := by
  have hNumber : Derives .ternary [.number 2.0] (.literal (numeral 2.0)) :=
    .ternary_of_unary (.alone rfl (.alone rfl (.number 2.0)))
  have hText : Derives .ternary [.text "b"] (.literal (.str "b")) :=
    .ternary_of_unary (.alone rfl (.alone rfl (.text "b")))
  have hName : Derives .ternary [.ident "c"] (.identifier "c") :=
    .ternary_of_unary (.alone rfl (.alone rfl (.ident "c")))
  have hArgs : ∀ a ∈ [([Token.number 2.0], Expr.literal (numeral 2.0))],
      Derives .ternary a.1 a.2 := by simpa using hNumber
  have hItems : ∀ a ∈ [([Token.text "b"], Expr.literal (.str "b")),
      ([Token.ident "c"], Expr.identifier "c")], Derives .ternary a.1 a.2 := by
    simpa using ⟨hText, hName⟩
  have hCall := Derives.call (.alone rfl (.ident "a")) hArgs
  have hLeft : Derives .additive _ _ := .alone rfl (.alone rfl (.negate (.alone rfl hCall)))
  have hRight : Derives .multiplicative _ _ :=
    .alone rfl (.alone rfl (.alone rfl (.array hItems)))
  have hSum := Derives.joined .add rfl hLeft hRight
  exact .alone rfl (.alone rfl (.alone rfl (.alone rfl (.alone rfl hSum))))

theorem parse_sumTree :
    tokenize "-a(2) + ['b', c]".toList = .ok sumLexemes ∧
    (∀ token ∈ sumLexemes.map Lexeme.token, token.IsFinite) ∧
    Derives .ternary (sumLexemes.map Lexeme.token) sumTree ∧
    parse "-a(2) + ['b', c]".toList = .ok sumTree := by
  have hTokens : tokenize "-a(2) + ['b', c]".toList = .ok sumLexemes := by
    have h : (tokenize "-a(2) + ['b', c]".toList).toOption = some sumLexemes := by decide +kernel
    revert h
    cases tokenize "-a(2) + ['b', c]".toList <;> simp [Except.toOption]
  have hFinite : ∀ token ∈ sumLexemes.map Lexeme.token, token.IsFinite := by
    simp [sumLexemes, Token.IsFinite]
    decide +kernel
  obtain hParsed | ⟨-, hMany⟩ :=
    (parse_accepts_grammar hTokens sumTree).2 derives_sumTree hFinite
  · exact ⟨hTokens, hFinite, derives_sumTree, hParsed⟩
  · exact absurd hMany (by decide)

end Workflow.Expr

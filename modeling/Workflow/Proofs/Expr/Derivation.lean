/-
Workflow.Proofs.Expr.Derivation — what has been parsed is a phrase.

A parse that ends well has read a part of its tokens from the front, and the
part is a phrase of the grammar with the parsed expression as its tree; the
levels that it has counted are those of the phrase. A parse that does not
end well reports that the text is no expression, and nothing else. The
proof has one lemma for each function of the parser and follows their
recursion; the loops behind an operand and behind a primary extend the
phrase on their left.

* `Yields` — the outcome of a parse is good, or such a report.
* `Parsed.Reads` — what has been read stands in a relation to the result.
* `parseTernary_yields` and the lemmas with it — one per function.
* `parseTokens_yields`, `parse_yields` — whole texts.
* `derives_of_parseTokens` — tokens that have been parsed derive the result.
-/
import Workflow.Proofs.Expr.Descent

namespace Workflow.Expr

/-- The error says that a text is no expression. -/
def EvaluationError.IsSyntactic : EvaluationError → Prop
  | .badSyntax _ _ | .notFinite _ => True
  | _ => False

/-- An outcome is good, or the error says that the text is no expression. -/
def Yields {α : Type} (outcome : Except EvaluationError α) (good : α → Prop) : Prop :=
  match outcome with
  | .ok a => good a
  | .error e => e.IsSyntactic

section

variable {α : Type} {outcome : Except EvaluationError α} {good : α → Prop}

theorem Yields.of_ok (h : Yields outcome good) {a : α} (hOk : outcome = .ok a) : good a := by
  rw [hOk] at h
  exact h

theorem Yields.of_error (h : Yields outcome good) {e : EvaluationError} (hError : outcome = .error e) :
    e.IsSyntactic := by
  rw [hError] at h
  exact h

theorem Yields.mono {better : α → Prop} (h : Yields outcome good) (hGood : ∀ a, good a → better a) :
    Yields outcome better := by
  cases outcome with
  | ok a => exact hGood a h
  | error e => exact h

end

/-- What a parse has read, from the front of its tokens on, stands in a relation to its result and to
the level behind it. -/
def Parsed.Reads {α : Type} {input : List Lexeme} (p : Parsed α input)
    (relation : List Token → α → Nat → Prop) : Prop :=
  ∃ read, input = read ++ p.rest ∧ relation (read.map Lexeme.token) p.result p.depth

/-- The phrases that a level of the parser reads: a kind with operators, or an operand of all. -/
def Phrase.ReadAt (kind : Phrase) (level : Nat) : Prop :=
  kind.level? = some level ∨ operatorLevels ≤ level ∧ kind = .unary

theorem Phrase.exists_operand_readAt {kind : Phrase} {level : Nat} (h : kind.level? = some level) :
    ∃ operand, kind.operand? = some operand ∧ operand.ReadAt (level + 1) := by
  cases kind <;> cases h <;>
    first
    | exact ⟨_, rfl, .inl rfl⟩
    | exact ⟨_, rfl, .inr ⟨by decide, rfl⟩⟩

theorem Phrase.ne_ternary_of_level? {kind : Phrase} {level : Nat} (h : kind.level? = some level) :
    kind ≠ .ternary := by
  rintro rfl
  cases h

/-- The tokens are phrases on a level with commas between them and the closing mark behind; the
expressions are their trees. -/
def ListedUpTo (close : Token) (depth : Nat) (tokens : List Token) (es : List Expr) (behind : Nat) :
    Prop :=
  behind = depth ∧ ∃ args : List (List Token × Expr),
    (∀ a ∈ args, Descends .ternary depth a.1 a.2 depth) ∧
      tokens = separated args ++ [close] ∧ es = args.map Prod.snd

/-- The same with one phrase at least, so that another one can stand in front. -/
def ItemsUpTo (close : Token) (depth : Nat) (tokens : List Token) (es : List Expr) (behind : Nat) :
    Prop :=
  ListedUpTo close depth tokens es behind ∧ es ≠ []

theorem ItemsUpTo.single {close : Token} {depth : Nat} {tokens : List Token} {e : Expr}
    (h : Descends .ternary depth tokens e depth) :
    ItemsUpTo close depth (tokens ++ [close]) [e] depth :=
  ⟨⟨rfl, [(tokens, e)], by simpa using h, by rw [separated_singleton], rfl⟩, by simp⟩

theorem ItemsUpTo.cons {close : Token} {depth behind : Nat} {first tokens : List Token} {e : Expr}
    {es : List Expr} (h : Descends .ternary depth first e depth)
    (hMore : ItemsUpTo close depth tokens es behind) :
    ItemsUpTo close depth (first ++ .comma :: tokens) (e :: es) behind := by
  obtain ⟨⟨rfl, args, hArgs, rfl, rfl⟩, hNonempty⟩ := hMore
  have hArgsNonempty : args ≠ [] := fun hNil => hNonempty (by rw [hNil]; rfl)
  obtain ⟨a, more, rfl⟩ := List.exists_cons_of_ne_nil hArgsNonempty
  refine ⟨⟨rfl, (first, e) :: a :: more, ?_, ?_, rfl⟩, by simp⟩
  · rintro b hMem
    obtain rfl | hMem := List.mem_cons.mp hMem
    · exact h
    · exact hArgs b hMem
  · simp [separated_cons_cons]

theorem descend_yields (endPosition depth : Nat) (tokens : List Lexeme) :
    Yields (descend endPosition depth tokens) fun deeper =>
      deeper = depth + 1 ∧ depth < depthLimit := by
  unfold descend
  split
  · trivial
  · exact ⟨rfl, by omega⟩

theorem leafOf_error {token : Token} {e : EvaluationError} (h : leafOf token = some (.error e)) :
    e.IsSyntactic := by
  cases token with
  | number x =>
    unfold leafOf numberResult at h
    dsimp only at h
    split at h
    · cases h
    · split at h
      · cases h
      · cases h
        trivial
  | _ => cases h

/-! ## One lemma for each function -/

mutual

theorem parseTernary_yields {endPosition depth : Nat} {tokens : List Lexeme} :
    Yields (parseTernary endPosition depth tokens) fun p => p.Reads (Descends .ternary depth) := by
  rw [parseTernary]
  split
  · rename_i hDeep
    exact (descend_yields ..).of_error hDeep
  rename_i deeper hDescend
  obtain ⟨rfl, hRoom⟩ := (descend_yields ..).of_ok hDescend
  split
  · rename_i hError
    exact (parseConditional_yields hRoom).of_error hError
  · rename_i p hConditional
    obtain ⟨read, hRead, hPhrase⟩ := (parseConditional_yields hRoom).of_ok hConditional
    exact ⟨read, hRead, hPhrase⟩
termination_by 16 * tokens.length + 12

theorem parseConditional_yields {endPosition depth : Nat} {tokens : List Lexeme}
    (hRoom : depth < depthLimit) :
    Yields (parseConditional endPosition (depth + 1) tokens) fun p =>
      p.Reads fun read e _ => Descends .ternary depth read e depth := by
  rw [parseConditional]
  split
  · rename_i hError
    exact (parseLevel_yields (show Phrase.ReadAt .or 0 from .inl rfl)).of_error hError
  rename_i test hTest
  have hTestShorter := test.shorter
  obtain ⟨first, hFirst, hTest⟩ :=
    (parseLevel_yields (show Phrase.ReadAt .or 0 from .inl rfl)).of_ok hTest
  split
  · rename_i position afterTest hQuestion
    have hAfter : afterTest.length < test.rest.length := by simp [hQuestion]
    split
    · rename_i hError
      exact parseTernary_yields.of_error hError
    rename_i consequent hYes
    have hYesShorter := consequent.shorter
    obtain ⟨second, hSecond, hThen⟩ := parseTernary_yields.of_ok hYes
    have hYesLevels := hThen.ternary_levels.1
    split
    · rename_i colonPosition afterColon hColon
      have hAfterColon : afterColon.length < consequent.rest.length := by simp [hColon]
      split
      · rename_i hError
        exact parseTernary_yields.of_error hError
      rename_i alternate hNo
      obtain ⟨third, hThird, hElse⟩ := parseTernary_yields.of_ok hNo
      have hNoLevels := hElse.ternary_levels.1
      refine ⟨first ++ ⟨.question, position⟩ :: (second ++ ⟨.colon, colonPosition⟩ :: third),
        hFirst.trans ?_, ?_⟩
      · simp [hQuestion, hSecond, hColon, hThird]
      · rw [hNoLevels, hYesLevels] at hElse
        rw [hYesLevels] at hThen
        simpa using Descends.conditional hRoom hTest hThen hElse
    · exact trivial
  · exact ⟨first, hFirst, .test hRoom hTest⟩
termination_by 16 * tokens.length + 11

theorem parseLevel_yields {level : Nat} {kind : Phrase} (hKind : kind.ReadAt level)
    {endPosition depth : Nat} {tokens : List Lexeme} :
    Yields (parseLevel level endPosition depth tokens) fun p => p.Reads (Descends kind depth) := by
  rw [parseLevel]
  split
  · rename_i hLow
    have hSix : level < 6 := hLow
    obtain hLevel | ⟨hHigh, _⟩ := hKind
    · obtain ⟨operand, hOperand, hNext⟩ := Phrase.exists_operand_readAt hLevel
      split
      · rename_i hError
        exact (parseLevel_yields hNext).of_error hError
      rename_i left hLeft
      have hLeftShorter := left.shorter
      obtain ⟨read, hRead, hPhrase⟩ := (parseLevel_yields hNext).of_ok hLeft
      exact parseOperands_yields hLevel
        ⟨read, hRead, .alone hOperand (Phrase.ne_ternary_of_level? hLevel) hPhrase⟩
    · omega
  · rename_i hHigh
    obtain hLevel | ⟨_, rfl⟩ := hKind
    · exact absurd (Phrase.precedence_of_level? hLevel).1 hHigh
    · exact parseUnary_yields
termination_by 16 * tokens.length + 4 + (6 - level)

theorem parseOperands_yields {level : Nat} {kind : Phrase} (hKind : kind.level? = some level)
    {endPosition depth : Nat} {tokens : List Lexeme} {left : Parsed Expr tokens}
    (hLeft : left.Reads (Descends kind depth)) :
    Yields (parseOperands level endPosition tokens left) fun p => p.Reads (Descends kind depth) := by
  rw [parseOperands]
  split
  · exact hLeft
  rename_i token position afterOperator hRest
  have hAfter : afterOperator.length < left.rest.length := by simp [hRest]
  split
  · exact hLeft
  rename_i combine hOperator
  have hSix : level < 6 := (Phrase.precedence_of_level? hKind).1
  obtain ⟨operand, hOperand, hNext⟩ := Phrase.exists_operand_readAt hKind
  split
  · rename_i hDeep
    exact (descend_yields ..).of_error hDeep
  rename_i deeper hDescend
  obtain ⟨rfl, hRoom⟩ := (descend_yields ..).of_ok hDescend
  split
  · rename_i hError
    exact (parseLevel_yields hNext).of_error hError
  rename_i right hRight
  have hRightShorter := right.shorter
  obtain ⟨first, hFirst, hPhrase⟩ := hLeft
  obtain ⟨second, hSecond, hRightPhrase⟩ := (parseLevel_yields hNext).of_ok hRight
  refine parseOperands_yields hKind ⟨first ++ ⟨token, position⟩ :: second, hFirst.trans ?_, ?_⟩
  · simp [hRest, hSecond]
  · simpa using Descends.joined ((operatorAt_eq_some_iff hKind).mp hOperator) hOperand
      hPhrase hRoom hRightPhrase
termination_by 16 * left.rest.length

theorem parseUnary_yields {endPosition depth : Nat} {tokens : List Lexeme} :
    Yields (parseUnary endPosition depth tokens) fun p => p.Reads (Descends .unary depth) := by
  rw [parseUnary.eq_def]
  split
  · refine parsePostfix_yields.mono ?_
    rintro p ⟨read, hRead, hPhrase⟩
    exact ⟨read, hRead, .alone rfl nofun hPhrase⟩
  rename_i token position afterOperator
  split
  · refine parsePostfix_yields.mono ?_
    rintro p ⟨read, hRead, hPhrase⟩
    exact ⟨read, hRead, .alone rfl nofun hPhrase⟩
  rename_i op hLeading
  split
  · rename_i hDeep
    exact (descend_yields ..).of_error hDeep
  rename_i deeper hDescend
  obtain ⟨rfl, hRoom⟩ := (descend_yields ..).of_ok hDescend
  split
  · rename_i hError
    exact parseUnary_yields.of_error hError
  rename_i operand hOperand
  obtain ⟨read, hRead, hPhrase⟩ := parseUnary_yields.of_ok hOperand
  exact ⟨⟨token, position⟩ :: read, congrArg (_ :: ·) hRead, .leading hLeading hRoom hPhrase⟩
termination_by 16 * tokens.length + 3

theorem parsePostfix_yields {endPosition depth : Nat} {tokens : List Lexeme} :
    Yields (parsePostfix endPosition depth tokens) fun p => p.Reads (Descends .chain depth) := by
  rw [parsePostfix]
  split
  · rename_i hError
    exact parsePrimary_yields.of_error hError
  rename_i object hObject
  have hShorter := object.shorter
  obtain ⟨read, hRead, hPhrase⟩ := parsePrimary_yields.of_ok hObject
  exact parseAttachments_yields ⟨read, hRead, .alone rfl nofun hPhrase⟩
termination_by 16 * tokens.length + 2

theorem parseAttachments_yields {endPosition depth : Nat} {tokens : List Lexeme}
    {object : Parsed Expr tokens} (hObject : object.Reads (Descends .chain depth)) :
    Yields (parseAttachments endPosition tokens object) fun p => p.Reads (Descends .chain depth) := by
  rw [parseAttachments]
  obtain ⟨first, hFirst, hPhrase⟩ := hObject
  split
  · rename_i position _ _
    split
    · rename_i hDeep
      exact (descend_yields ..).of_error hDeep
    rename_i deeper hDescend
    obtain ⟨rfl, hRoom⟩ := (descend_yields ..).of_ok hDescend
    split
    · rename_i property namePosition afterName hRest _
      have hName : afterName.length < object.rest.length := by
        rw [hRest, List.length_cons, List.length_cons]
        omega
      refine parseAttachments_yields
        ⟨first ++ [⟨.dot, position⟩, ⟨.ident property, namePosition⟩], hFirst.trans ?_, ?_⟩
      · simp [hRest]
      · simpa using Descends.member property hPhrase hRoom
    · exact trivial
  · rename_i position afterMark hRest
    have hAfter : afterMark.length < object.rest.length := by simp [hRest]
    split
    · rename_i hDeep
      exact (descend_yields ..).of_error hDeep
    rename_i deeper hDescend
    obtain ⟨rfl, hRoom⟩ := (descend_yields ..).of_ok hDescend
    split
    · rename_i hError
      exact parseTernary_yields.of_error hError
    rename_i key hKey
    have hKeyShorter := key.shorter
    obtain ⟨second, hSecond, hKeyPhrase⟩ := parseTernary_yields.of_ok hKey
    have hKeyLevels := hKeyPhrase.ternary_levels.1
    rw [hKeyLevels] at hKeyPhrase
    split
    · rename_i closePosition afterKey hClose
      have hEnd : afterKey.length < key.rest.length := by simp [hClose]
      refine parseAttachments_yields ⟨first ++ ⟨.openBracket, position⟩ ::
        (second ++ [⟨.closeBracket, closePosition⟩]), hFirst.trans ?_, ?_⟩
      · simp [hRest, hSecond, hClose]
      · simpa [hKeyLevels] using Descends.index hPhrase hRoom hKeyPhrase
    · exact trivial
  · rename_i position afterMark hRest
    have hAfter : afterMark.length < object.rest.length := by simp [hRest]
    split
    · rename_i hDeep
      exact (descend_yields ..).of_error hDeep
    rename_i deeper hDescend
    obtain ⟨rfl, hRoom⟩ := (descend_yields ..).of_ok hDescend
    split
    · rename_i hError
      exact parseArguments_yields.of_error hError
    rename_i args hArgs
    have hArgsShorter := args.shorter
    obtain ⟨second, hSecond, hLevels, listed, hListed, hTokens, hResult⟩ :=
      parseArguments_yields.of_ok hArgs
    refine parseAttachments_yields
      ⟨first ++ ⟨.openParen, position⟩ :: second, hFirst.trans ?_, ?_⟩
    · simp [hRest, hSecond]
    · simpa [hTokens, hResult, hLevels] using Descends.call hPhrase hRoom hListed
  · exact ⟨first, hFirst, hPhrase⟩
termination_by 16 * object.rest.length + 1

theorem parseArguments_yields {close : Token} {what : String} {endPosition depth : Nat}
    {tokens : List Lexeme} :
    Yields (parseArguments close what endPosition depth tokens) fun p =>
      p.Reads (ListedUpTo close depth) := by
  rw [parseArguments.eq_def]
  split
  · refine parseItems_yields.mono ?_
    rintro p ⟨read, hRead, hListed, -⟩
    exact ⟨read, hRead, hListed⟩
  rename_i l rest
  split
  · rename_i hClose
    exact ⟨[l], rfl, rfl, [], by simp, by simp [separated, hClose], rfl⟩
  · refine parseItems_yields.mono ?_
    rintro p ⟨read, hRead, hListed, -⟩
    exact ⟨read, hRead, hListed⟩
termination_by 16 * tokens.length + 14

theorem parseItems_yields {close : Token} {what : String} {endPosition depth : Nat}
    {tokens : List Lexeme} :
    Yields (parseItems close what endPosition depth tokens) fun p =>
      p.Reads (ItemsUpTo close depth) := by
  rw [parseItems]
  split
  · rename_i hError
    exact parseTernary_yields.of_error hError
  rename_i first hFirst
  have hFirstShorter := first.shorter
  obtain ⟨read, hRead, hPhrase⟩ := parseTernary_yields.of_ok hFirst
  have hLevels := hPhrase.ternary_levels.1
  rw [hLevels] at hPhrase
  split
  · exact trivial
  rename_i l rest hRest
  have hTail : rest.length < first.rest.length := by simp [hRest]
  split
  · rename_i hComma
    split
    · rename_i hError
      exact parseItems_yields.of_error hError
    rename_i more hMore
    obtain ⟨second, hSecond, hItems⟩ := parseItems_yields.of_ok hMore
    rw [hLevels] at hItems
    refine ⟨read ++ l :: second, hRead.trans ?_, ?_⟩
    · simp [hRest, hSecond]
    · simpa [hComma] using hItems.cons hPhrase
  · split
    · rename_i hClose
      refine ⟨read ++ [l], hRead.trans ?_, ?_⟩
      · simp [hRest]
      · simpa [hClose, hLevels] using ItemsUpTo.single hPhrase
    · exact trivial
termination_by 16 * tokens.length + 13

theorem parsePrimary_yields {endPosition depth : Nat} {tokens : List Lexeme} :
    Yields (parsePrimary endPosition depth tokens) fun p => p.Reads (Descends .primary depth) := by
  rw [parsePrimary.eq_def]
  split
  · exact trivial
  rename_i token position rest
  split
  · rename_i leaf hLeaf
    exact ⟨[⟨token, position⟩], rfl, .leaf hLeaf⟩
  · rename_i hLeaf
    exact leafOf_error hLeaf
  · split
    · split
      · rename_i hError
        exact parseTernary_yields.of_error hError
      rename_i inner hInner
      obtain ⟨read, hRead, hPhrase⟩ := parseTernary_yields.of_ok hInner
      have hLevels := hPhrase.ternary_levels.1
      rw [hLevels] at hPhrase
      split
      · rename_i closePosition afterClose hClose
        refine ⟨⟨.openParen, position⟩ :: (read ++ [⟨.closeParen, closePosition⟩]), ?_, ?_⟩
        · simp [hRead, hClose]
        · simpa [hLevels] using Descends.parenthesis hPhrase
      · exact trivial
    · split
      · rename_i hError
        exact parseArguments_yields.of_error hError
      rename_i items hItems
      obtain ⟨read, hRead, hLevels, listed, hListed, hTokens, hResult⟩ :=
        parseArguments_yields.of_ok hItems
      refine ⟨⟨.openBracket, position⟩ :: read, by simp [hRead], ?_⟩
      simpa [hTokens, hResult, hLevels] using Descends.array hListed
    · exact trivial
termination_by 16 * tokens.length + 1

end

/-! ## Whole texts -/

/-- Tokens that have been parsed are, all of them, a phrase with the parsed tree. -/
theorem parseTokens_yields (endPosition : Nat) (tokens : List Lexeme) :
    Yields (parseTokens endPosition tokens) fun e =>
      Descends .ternary 0 (tokens.map Lexeme.token) e 0 := by
  unfold parseTokens
  split
  · exact trivial
  split
  · rename_i hError
    exact parseTernary_yields.of_error hError
  rename_i p hParsed
  obtain ⟨read, hRead, hPhrase⟩ := parseTernary_yields.of_ok hParsed
  split
  · rename_i hEnd
    have hTokens : tokens.map Lexeme.token = read.map Lexeme.token := by
      simpa [hEnd] using congrArg (List.map Lexeme.token) hRead
    rw [hPhrase.ternary_levels.1] at hPhrase
    exact hTokens ▸ hPhrase
  · exact trivial

theorem derives_of_parseTokens {endPosition : Nat} {tokens : List Lexeme} {e : Expr}
    (h : parseTokens endPosition tokens = .ok e) :
    Derives .ternary (tokens.map Lexeme.token) e :=
  ((parseTokens_yields endPosition tokens).of_ok h).derives

theorem lexemesFrom_yields (position : Nat) (source : List Char) :
    Yields (lexemesFrom position source) fun _ => True := by
  fun_induction lexemesFrom position source <;> simp_all [Yields, EvaluationError.IsSyntactic]

/-- What can be said of the tree of a text that has been parsed, it says of the tokens. -/
theorem parse_yields (source : List Char) :
    Yields (parse source) fun e => ∃ tokens, tokenize source = .ok tokens ∧
      Descends .ternary 0 (tokens.map Lexeme.token) e 0 := by
  unfold parse
  split
  · rename_i hError
    exact (lexemesFrom_yields 0 source).of_error hError
  · rename_i tokens hTokens
    exact (parseTokens_yields _ tokens).mono fun e h => ⟨tokens, hTokens, h⟩

end Workflow.Expr

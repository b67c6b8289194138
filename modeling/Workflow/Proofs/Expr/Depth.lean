/-
Workflow.Proofs.Expr.Depth — how deep the trees of texts are.

The level that a parse counts is no bound on the depth of a tree: it is
forgotten behind a nested phrase, and what is applied to the closing mark is
counted from the level in front of it. Each nested phrase can be as deep as
the levels left for it allow, and then as many calls can stand behind its
closing mark. The trees that are built like this have all depths that there
are.

* `tower`, `parsedAs_tower` — a text of brackets whose tree has a given
  depth, and that it is parsed with enough levels left.
* `exists_parse_iff` — the depths that there are.
* `parse_depth` — how deep the tree of a text can be.
-/
import Workflow.Proofs.Expr.Recognition

namespace Workflow.Expr

/-! ## Texts of brackets -/

/-- Calls without arguments, one behind the other. -/
def emptyCalls : Nat → List Char
  | 0 => []
  | n + 1 => '(' :: ')' :: emptyCalls n

/-- A text whose tree has depth `n`, for so many levels left: an empty list with calls behind it, or,
if these are not enough, a list with a tower in it and as many calls behind it as there can be. -/
def tower : Nat → Nat → List Char
  | 0, _ => []
  | left + 1, n =>
    if n ≤ left + 1 then '[' :: ']' :: emptyCalls (n - 1)
    else '[' :: (tower left (n - (left + 1)) ++ ']' :: emptyCalls left)

/-- Whether a character is a bracket. -/
def IsBracket (c : Char) : Prop := c = '(' ∨ c = ')' ∨ c = '[' ∨ c = ']'

/-- The token of a bracket. -/
def bracketToken : Char → Token
  | '(' => .openParen
  | ')' => .closeParen
  | '[' => .openBracket
  | _ => .closeBracket

theorem isBracket_emptyCalls (n : Nat) : ∀ c ∈ emptyCalls n, IsBracket c := by
  induction n with
  | zero => exact nofun
  | succ n ih => simpa [emptyCalls, IsBracket] using ih

theorem isBracket_tower (left n : Nat) : ∀ c ∈ tower left n, IsBracket c := by
  induction left generalizing n with
  | zero => exact nofun
  | succ left ih =>
    rw [tower]
    split
    · simpa [IsBracket] using isBracket_emptyCalls (n - 1)
    · simp only [List.forall_mem_cons, List.forall_mem_append]
      exact ⟨.inr (.inr (.inl rfl)), ih _, .inr (.inr (.inr rfl)), isBracket_emptyCalls left⟩

theorem tokenAt_bracket {c : Char} (h : IsBracket c) (rest : List Char) :
    tokenAt c rest = .ok (bracketToken c, 0) := by
  obtain rfl | rfl | rfl | rfl := h <;> rfl

theorem lexemesFrom_brackets {source : List Char} (h : ∀ c ∈ source, IsBracket c) (position : Nat) :
    ∃ lexemes, lexemesFrom position source = .ok lexemes ∧
      lexemes.map Lexeme.token = source.map bracketToken := by
  induction source generalizing position with
  | nil => exact ⟨[], by rw [lexemesFrom], rfl⟩
  | cons c rest ih =>
    obtain ⟨hBracket, hRest⟩ := List.forall_mem_cons.mp h
    obtain ⟨lexemes, hLexemes, hTokens⟩ := ih hRest (position + 1)
    have hDark : Text.isBlank c = false := by
      obtain rfl | rfl | rfl | rfl := hBracket <;> rfl
    refine ⟨⟨bracketToken c, position⟩ :: lexemes, ?_, by rw [List.map_cons, hTokens, List.map_cons]⟩
    rw [lexemesFrom, hDark]
    simp [tokenAt_bracket hBracket, hLexemes]

/-! ## The parse of a tower -/

/-- Nothing that stands behind holds on to a phrase. -/
def LetsGo (rest : List Lexeme) : Prop := ∀ l ∈ rest.head?, l.token.binding = 0

/-- The outcome is of some size, with what is left over and the level behind it. -/
def Builds {α : Type} (sizeOf : α → Nat) {input : List Lexeme}
    (outcome : Except EvaluationError (Parsed α input)) (size : Nat) (rest : List Lexeme)
    (depth : Nat) : Prop :=
  ∃ p, outcome = .ok p ∧ sizeOf p.result = size ∧ p.rest = rest ∧ p.depth = depth

theorem descend_of_lt {depth : Nat} (h : depth < depthLimit) (endPosition : Nat)
    (tokens : List Lexeme) : descend endPosition depth tokens = .ok (depth + 1) :=
  if_neg (by omega)

variable {endPosition : Nat}

theorem parseLevel_of_unary {level depth : Nat} {tokens : List Lexeme} {p : Parsed Expr tokens}
    (h : parseUnary endPosition depth tokens = .ok p) (hRest : LetsGo p.rest)
    (hLevel : level ≤ operatorLevels) : parseLevel level endPosition depth tokens = .ok p := by
  induction hLeft : operatorLevels - level generalizing level with
  | zero =>
    rw [parseLevel, dif_neg (by omega)]
    exact h
  | succ n ih =>
    rw [parseLevel, dif_pos (by omega), ih (by omega) (by omega)]
    obtain ⟨result, rest, depth, hShorter⟩ := p
    dsimp only
    rw [parseOperands]
    cases rest with
    | nil => rfl
    | cons l more =>
      have hLoose := hRest l rfl
      have hNone : operatorAt level l.token = none := operatorAt_eq_none_of_binding (by omega)
      simp only [hNone]

theorem builds_calls {n : Nat} {tokens calls rest : List Lexeme} (object : Parsed Expr tokens)
    (hCalls : calls.map Lexeme.token = (emptyCalls n).map bracketToken)
    (hObject : object.rest = calls ++ rest) (hRest : LetsGo rest)
    (hRoom : object.depth + n ≤ depthLimit) :
    Builds Expr.depth (parseAttachments endPosition tokens object) (object.result.depth + n) rest
      (object.depth + n) := by
  induction n generalizing calls object with
  | zero =>
    obtain rfl := List.map_eq_nil_iff.mp hCalls
    have hEnd : resume .chain endPosition object = .ok object :=
      resume_of_binding_lt object fun l hl => by
        rw [hObject] at hl
        rw [hRest l hl]
        decide
    exact ⟨object, hEnd, rfl, hObject, rfl⟩
  | succ n ih =>
    have hTokens : calls.map Lexeme.token =
        .openParen :: .closeParen :: (emptyCalls n).map bracketToken := hCalls
    obtain ⟨⟨_, position⟩, tail, rfl, rfl, hTail⟩ := List.map_eq_cons_iff.mp hTokens
    obtain ⟨⟨_, closePosition⟩, more, rfl, rfl, hMore⟩ := List.map_eq_cons_iff.mp hTail
    obtain ⟨result, left, depth, hShorter⟩ := object
    dsimp only at hObject hRoom ⊢
    subst hObject
    have hNext : (more ++ rest).length < tokens.length := by
      simp only [List.cons_append, List.length_cons] at hShorter
      omega
    have hLoop := ih ⟨.call result [], more ++ rest, depth + 1, hNext⟩ hMore rfl
      (by dsimp only; omega)
    rw [parseAttachments]
    simp only [List.cons_append, descend_of_lt (show depth < depthLimit by omega), parseArguments,
      if_true]
    simpa only [Expr.depth, Expr.depthOfAll, Nat.max_zero, Nat.add_assoc, Nat.add_comm 1 n] using hLoop

/-- What starts with a bracket and is a chain up to where nothing holds on to it is a phrase. -/
theorem builds_ternary {depth size behind position : Nat} {more rest : List Lexeme}
    (hRoom : depth < depthLimit) (hRest : LetsGo rest)
    (h : Builds Expr.depth (parsePostfix endPosition (depth + 1) (⟨.openBracket, position⟩ :: more))
      size rest behind) :
    Builds Expr.depth (parseTernary endPosition depth (⟨.openBracket, position⟩ :: more)) size rest
      depth := by
  obtain ⟨p, hPostfix, hSize, rfl, -⟩ := h
  have hUnary : parseUnary endPosition (depth + 1) (⟨.openBracket, position⟩ :: more) = .ok p := by
    rw [parseUnary]
    exact hPostfix
  have hTest : parseConditional endPosition (depth + 1) (⟨.openBracket, position⟩ :: more) =
      .ok p := by
    rw [parseConditional, parseLevel_of_unary hUnary hRest (Nat.zero_le _)]
    obtain ⟨result, rest, depth, hShorter⟩ := p
    dsimp only
    split
    · exact absurd (hRest _ rfl) (by simp [Token.binding])
    · rfl
  refine ⟨{ p with depth }, ?_, hSize, rfl, rfl⟩
  rw [parseTernary, descend_of_lt hRoom]
  simp only [hTest]

/-- A list with calls behind it is a phrase. -/
theorem builds_list {depth size n : Nat} (position : Nat) {inner calls rest : List Lexeme}
    (hItems : Builds Expr.depthOfAll
      (parseArguments .closeBracket "']'" endPosition (depth + 1) inner) size (calls ++ rest) (depth + 1))
    (hCalls : calls.map Lexeme.token = (emptyCalls n).map bracketToken) (hRest : LetsGo rest)
    (hRoom : depth + 1 + n ≤ depthLimit) :
    Builds Expr.depth (parseTernary endPosition depth (⟨.openBracket, position⟩ :: inner))
      (size + 1 + n) rest depth := by
  obtain ⟨⟨items, left, _, hShorter⟩, hItems, rfl, hLeft, rfl⟩ := hItems
  have hChain : Builds Expr.depth
      (parsePostfix endPosition (depth + 1) (⟨.openBracket, position⟩ :: inner))
      (Expr.depthOfAll items + 1 + n) rest (depth + 1 + n) := by
    rw [parsePostfix, parsePrimary]
    simp only [leafOf, hItems]
    exact builds_calls _ hCalls hLeft hRest hRoom
  exact builds_ternary (by omega) hRest hChain

/-- A phrase that starts with a bracket is the only item of a list if the list is closed behind it. -/
theorem builds_item {depth size position closePosition : Nat} {what : String} {item back : List Lexeme}
    (h : Builds Expr.depth (parseTernary endPosition depth (⟨.openBracket, position⟩ :: item)) size
      (⟨.closeBracket, closePosition⟩ :: back) depth) :
    Builds Expr.depthOfAll (parseArguments .closeBracket what endPosition depth
      (⟨.openBracket, position⟩ :: item)) size back depth := by
  obtain ⟨⟨e, left, _, hShorter⟩, hItem, rfl, hLeft, rfl⟩ := h
  dsimp only at hLeft hItem
  subst hLeft
  rw [parseArguments, if_neg (by simp), parseItems]
  simp only [hItem, reduceCtorEq, if_false, if_true]
  exact ⟨_, rfl, Nat.max_zero _, rfl, rfl⟩

/-- A text of brackets is parsed as a tree of some depth, up to what lets go of it. -/
def ParsedAs (text : List Char) (size depth : Nat) : Prop :=
  ∀ endPosition read rest, read.map Lexeme.token = text.map bracketToken → LetsGo rest →
    Builds Expr.depth (parseTernary endPosition depth (read ++ rest)) size rest depth

theorem parsedAs_emptyList {depth n : Nat} (hRoom : depth + 1 + n ≤ depthLimit) :
    ParsedAs ('[' :: ']' :: emptyCalls n) (n + 1) depth := by
  intro endPosition read rest hRead hRest
  have hTokens : read.map Lexeme.token =
      .openBracket :: .closeBracket :: (emptyCalls n).map bracketToken := hRead
  obtain ⟨⟨_, position⟩, tail, rfl, rfl, hTail⟩ := List.map_eq_cons_iff.mp hTokens
  obtain ⟨⟨_, closePosition⟩, calls, rfl, rfl, hCalls⟩ := List.map_eq_cons_iff.mp hTail
  have hItems : Builds Expr.depthOfAll (parseArguments .closeBracket "']'" endPosition (depth + 1)
      (⟨.closeBracket, closePosition⟩ :: (calls ++ rest))) 0 (calls ++ rest) (depth + 1) := by
    rw [parseArguments, if_pos rfl]
    exact ⟨_, rfl, rfl, rfl, rfl⟩
  rw [show n + 1 = 0 + 1 + n by omega]
  exact builds_list position hItems hCalls hRest hRoom

theorem ParsedAs.inList {inner : List Char} {size depth n : Nat}
    (h : ParsedAs ('[' :: inner) size (depth + 1)) (hRoom : depth + 1 + n ≤ depthLimit) :
    ParsedAs ('[' :: ('[' :: inner ++ ']' :: emptyCalls n)) (size + 1 + n) depth := by
  intro endPosition read rest hRead hRest
  have hTokens : read.map Lexeme.token = .openBracket ::
      (('[' :: inner).map bracketToken ++ .closeBracket :: (emptyCalls n).map bracketToken) := by
    rw [hRead, List.map_cons, List.map_append, List.map_cons]
    rfl
  obtain ⟨⟨_, position⟩, tail, rfl, rfl, hTail⟩ := List.map_eq_cons_iff.mp hTokens
  obtain ⟨item, closePosition, calls, rfl, hItem, hCalls⟩ := exists_split hTail
  have hInner := h endPosition item (⟨.closeBracket, closePosition⟩ :: (calls ++ rest)) hItem
    (by simp [LetsGo, Token.binding])
  obtain ⟨⟨_, first⟩, item, rfl, rfl, -⟩ := List.map_eq_cons_iff.mp hItem
  rw [List.cons_append, List.append_assoc]
  exact builds_list position (builds_item hInner) hCalls hRest hRoom

theorem tower_head {left n : Nat} (hPos : 1 ≤ n) (hReach : n ≤ reach left) :
    ∃ more, tower left n = '[' :: more := by
  cases left with
  | zero =>
    rw [reach] at hReach
    omega
  | succ left =>
    rw [tower]
    split <;> exact ⟨_, rfl⟩

/-- A tower for so many levels is parsed if so many levels are left. -/
theorem parsedAs_tower {left n : Nat} (hPos : 1 ≤ n) (hReach : n ≤ reach left)
    (hLeft : left ≤ depthLimit) : ParsedAs (tower left n) n (depthLimit - left) := by
  induction left generalizing n with
  | zero =>
    rw [reach] at hReach
    omega
  | succ left ih =>
    rw [reach] at hReach
    rw [tower]
    split
    · have hList : ParsedAs _ (n - 1 + 1) (depthLimit - (left + 1)) :=
        parsedAs_emptyList (by omega)
      rw [show n - 1 + 1 = n by omega] at hList
      exact hList
    · have hTower : ParsedAs _ (n - (left + 1)) (depthLimit - left) :=
        ih (by omega) (by omega) (by omega)
      obtain ⟨more, hHead⟩ : ∃ more, tower left (n - (left + 1)) = '[' :: more :=
        tower_head (by omega) (by omega)
      rw [hHead, show depthLimit - left = depthLimit - (left + 1) + 1 by omega] at hTower
      have hList := hTower.inList (n := left) (by omega)
      rw [show n - (left + 1) + 1 + left = n by omega] at hList
      rw [hHead]
      exact hList

/-! ## The depths of trees -/

theorem depth_pos (e : Expr) : 1 ≤ e.depth := by
  cases e <;> simp [Expr.depth]

theorem reach_depthLimit : reach depthLimit = depthLimit * (depthLimit + 1) / 2 := by
  decide +kernel

/-- The trees that there can be with all levels left are those of the towers. -/
theorem exists_parse_tower {n : Nat} (hPos : 1 ≤ n) (hReach : n ≤ reach depthLimit) :
    ∃ e, parse (tower depthLimit n) = .ok e ∧ e.depth = n := by
  obtain ⟨lexemes, hLexemes, hTokens⟩ := lexemesFrom_brackets (isBracket_tower depthLimit n) 0
  obtain ⟨more, hHead⟩ := tower_head hPos hReach
  have hTokens' := hTokens
  rw [hHead] at hTokens'
  obtain ⟨first, others, rfl, -, -⟩ := List.map_eq_cons_iff.mp hTokens'
  have hBuilt : Builds Expr.depth (parseTernary (byteLength (tower depthLimit n))
      (depthLimit - depthLimit) (first :: others ++ [])) n [] (depthLimit - depthLimit) :=
    parsedAs_tower hPos hReach (Nat.le_refl _) _ _ _ hTokens nofun
  rw [List.append_nil, Nat.sub_self] at hBuilt
  obtain ⟨⟨e, rest, depth, hShorter⟩, hParsed, hDepth, hRest, -⟩ := hBuilt
  dsimp only at hDepth hRest
  subst hRest
  refine ⟨e, ?_, hDepth⟩
  rw [parse, tokenize, hLexemes]
  simp only [parseTokens, hParsed]

theorem depth_le_of_parse {source : List Char} {e : Expr} (h : parse source = .ok e) :
    e.depth ≤ depthLimit * (depthLimit + 1) / 2 := by
  obtain ⟨lexemes, -, hPhrase⟩ := (parse_yields source).of_ok h
  have hDepth := hPhrase.depth_le_reach (Nat.zero_le _)
  simp only [Phrase.room, Nat.sub_zero, reach_depthLimit] at hDepth
  omega

/-- The trees of texts have all depths up to 128 · 129 / 2 and no others. -/
theorem exists_parse_iff (n : Nat) :
    (∃ source e, parse source = .ok e ∧ e.depth = n) ↔
      1 ≤ n ∧ n ≤ depthLimit * (depthLimit + 1) / 2 := by
  constructor
  · rintro ⟨source, e, hParse, rfl⟩
    exact ⟨depth_pos e, depth_le_of_parse hParse⟩
  · rintro ⟨hPos, hReach⟩
    exact ⟨_, exists_parse_tower hPos (reach_depthLimit ▸ hReach)⟩

/-- The tree of a text is no deeper than 128 levels and what is applied behind its first closing mark,
and never deeper than 128 · 129 / 2. -/
theorem parse_depth {source : List Char} {e : Expr} (h : parse source = .ok e) :
    (∃ lexemes, tokenize source = .ok lexemes ∧
      e.depth ≤ depthLimit + overhang (lexemes.map Lexeme.token)) ∧
    e.depth ≤ depthLimit * (depthLimit + 1) / 2 := by
  obtain ⟨lexemes, hLexemes, hPhrase⟩ := (parse_yields source).of_ok h
  have hDepth := hPhrase.depth_le_overhang (Nat.zero_le _)
  simp only [Phrase.room] at hDepth
  exact ⟨⟨lexemes, hLexemes, by omega⟩, depth_le_of_parse h⟩

/-- The tree of `(a + b) * c` has depth 3, and one operator stands behind the closing mark. -/
theorem parse_depth_of_product : ∃ e lexemes, parse "(a + b) * c".toList = .ok e ∧
    tokenize "(a + b) * c".toList = .ok lexemes ∧ e.depth = 3 ∧
      overhang (lexemes.map Lexeme.token) = 1 ∧
        e.depth ≤ depthLimit + overhang (lexemes.map Lexeme.token) := by
  have hTree : (parse "(a + b) * c".toList).toOption.map Expr.depth = some 3 := by decide +kernel
  have hTokens : (tokenize "(a + b) * c".toList).toOption.map
      (fun lexemes => overhang (lexemes.map Lexeme.token)) = some 1 := by decide +kernel
  cases hParse : parse "(a + b) * c".toList with
  | error =>
    rw [hParse] at hTree
    cases hTree
  | ok e =>
    obtain ⟨⟨lexemes, hLexemes, hDepth⟩, -⟩ := parse_depth hParse
    rw [hParse] at hTree
    rw [hLexemes] at hTokens
    exact ⟨e, lexemes, rfl, hLexemes, Option.some.inj hTree, Option.some.inj hTokens, hDepth⟩

/-- A list in a list with 127 calls behind it: the tree is one level deeper than the limit. -/
theorem parse_too_deep : ∃ e, parse ('[' :: '[' :: ']' :: ']' :: emptyCalls 127) = .ok e ∧
    depthLimit < e.depth := by
  have hTower : tower depthLimit 129 = '[' :: '[' :: ']' :: ']' :: emptyCalls 127 := rfl
  obtain ⟨e, hParse, hDepth⟩ := exists_parse_tower (n := 129) (by decide) (by
    rw [reach_depthLimit]
    decide)
  rw [hTower] at hParse
  exact ⟨e, hParse, by rw [hDepth]; decide⟩

end Workflow.Expr

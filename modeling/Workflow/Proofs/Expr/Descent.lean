/-
Workflow.Proofs.Expr.Descent — phrases with the levels that a parse counts.

A parse counts a level for each operator, each thing that is attached to an
object and each phrase that is nested in another one, and never counts
above 128. But behind a nested phrase it forgets the levels inside: what is
attached to the closing mark is counted from the level in front of the
opening mark, though the tree grows above the nested one.

* `Descends` — the grammar with the level in front of a phrase and the one
  behind it.
* `Descends.derives` — it is the grammar.
* `Descends.depth_le_reach` — how deep the trees are with so many levels
  left.
* `overhang`, `Descends.depth_le_overhang` — how far they go beyond them.
-/
import Mathlib.Data.List.TakeWhile
import Workflow.Proofs.Expr.Grammar

namespace Workflow.Expr

/-- A conditional is one level further down than where it starts. -/
def Phrase.room : Phrase → Nat
  | .ternary => 1
  | _ => 0

/-- The tokens are a phrase of a kind and the expression is its tree; a parse that has counted to the
first number in front of the phrase has counted to the second one behind it. -/
inductive Descends : Phrase → Nat → List Token → Expr → Nat → Prop where
  | alone {kind operand : Phrase} {before behind : Nat} {tokens : List Token} {e : Expr} :
    kind.operand? = some operand → kind ≠ .ternary → Descends operand before tokens e behind →
    Descends kind before tokens e behind
  | test {before behind : Nat} {tokens : List Token} {e : Expr} :
    before < depthLimit → Descends .or (before + 1) tokens e behind →
    Descends .ternary before tokens e before
  | conditional {before behind : Nat} {test yes no : List Token} {t y n : Expr} :
    before < depthLimit → Descends .or (before + 1) test t behind →
    Descends .ternary behind yes y behind → Descends .ternary behind no n behind →
    Descends .ternary before (test ++ .question :: (yes ++ .colon :: no)) (.conditional t y n) before
  | joined {kind operand : Phrase} {token : Token} {combine : Expr → Expr → Expr}
    {before between behind : Nat} {left right : List Token} {l r : Expr} :
    Operator kind token combine → kind.operand? = some operand →
    Descends kind before left l between → between < depthLimit →
    Descends operand (between + 1) right r behind →
    Descends kind before (left ++ token :: right) (combine l r) behind
  | leading {op : Expr.UnaryOp} {token : Token} {before behind : Nat} {tokens : List Token} {e : Expr} :
    leadingOperator token = some op → before < depthLimit →
    Descends .unary (before + 1) tokens e behind →
    Descends .unary before (token :: tokens) (.unary op e) behind
  | member {before behind : Nat} {tokens : List Token} {object : Expr} (name : String) :
    Descends .chain before tokens object behind → behind < depthLimit →
    Descends .chain before (tokens ++ [.dot, .ident name]) (.member object name) (behind + 1)
  | index {before behind : Nat} {tokens key : List Token} {object k : Expr} :
    Descends .chain before tokens object behind → behind < depthLimit →
    Descends .ternary (behind + 1) key k (behind + 1) →
    Descends .chain before (tokens ++ .openBracket :: (key ++ [.closeBracket])) (.index object k)
      (behind + 1)
  | call {before behind : Nat} {tokens : List Token} {callee : Expr} {args : List (List Token × Expr)} :
    Descends .chain before tokens callee behind → behind < depthLimit →
    (∀ a ∈ args, Descends .ternary (behind + 1) a.1 a.2 (behind + 1)) →
    Descends .chain before (tokens ++ .openParen :: (separated args ++ [.closeParen]))
      (.call callee (args.map Prod.snd)) (behind + 1)
  | leaf {before : Nat} {token : Token} {leaf : Expr} :
    leafOf token = some (.ok leaf) → Descends .primary before [token] leaf before
  | parenthesis {before : Nat} {tokens : List Token} {e : Expr} :
    Descends .ternary before tokens e before →
    Descends .primary before (.openParen :: (tokens ++ [.closeParen])) e before
  | array {before : Nat} {args : List (List Token × Expr)} :
    (∀ a ∈ args, Descends .ternary before a.1 a.2 before) →
    Descends .primary before (.openBracket :: (separated args ++ [.closeBracket]))
      (.array (args.map Prod.snd)) before

/-! ## The grammar -/

/-- A token that stands for itself is a primary. -/
theorem derives_of_leafOf {token : Token} {leaf : Expr} (h : leafOf token = some (.ok leaf)) :
    Derives .primary [token] leaf := by
  cases token with
  | number x =>
    cases hValue : numberResult x with
    | error e => simp [leafOf, hValue, Except.map] at h
    | ok v =>
      have hLeaf : leaf = .literal (numeral x) := by
        simpa [leafOf, hValue, Except.map, numeral, Except.toOption, eq_comm] using h
      exact hLeaf ▸ .number x
  | text s => cases h; exact .text s
  | trueLit => cases h; exact .trueLit
  | falseLit => cases h; exact .falseLit
  | nullLit => cases h; exact .nullLit
  | root name => cases h; exact .root name
  | ident name => cases h; exact .ident name
  | _ => cases h

section

variable {kind : Phrase} {before behind : Nat} {tokens : List Token} {e : Expr}

theorem Descends.derives (h : Descends kind before tokens e behind) : Derives kind tokens e := by
  induction h with
  | alone hOperand _ _ ih => exact .alone hOperand ih
  | test _ _ ih => exact .alone rfl ih
  | conditional _ _ _ _ ihTest ihYes ihNo => exact .conditional ihTest ihYes ihNo
  | joined hOperator hOperand _ _ _ ihLeft ihRight => exact .joined hOperator hOperand ihLeft ihRight
  | @leading op token _ _ _ _ hLeading _ _ ih =>
    cases token <;> cases hLeading
    · exact .negate ih
    · exact .not ih
  | member name _ _ ih => exact .member name ih
  | index _ _ _ ih ihKey => exact .index ih ihKey
  | call _ _ _ ih ihArgs => exact .call ih ihArgs
  | leaf hLeaf => exact derives_of_leafOf hLeaf
  | parenthesis _ ih => exact .parenthesis ih
  | array _ ihArgs => exact .array ihArgs

/-! ## Levels -/

/-- Levels are counted, and not above the limit. -/
theorem Descends.le (h : Descends kind before tokens e behind) (hBefore : before ≤ depthLimit) :
    before ≤ behind ∧ behind ≤ depthLimit := by
  induction h with
  | alone _ _ _ ih => exact ih hBefore
  | test | conditional | leaf | parenthesis | array => exact ⟨Nat.le_refl _, hBefore⟩
  | joined _ _ _ hRoom _ ihLeft ihRight =>
    have hLeft := ihLeft hBefore
    have hRight := ihRight hRoom
    omega
  | leading _ hRoom _ ih =>
    have hOperand := ih hRoom
    omega
  | member _ _ hRoom ih | index _ hRoom _ ih | call _ hRoom _ ih =>
    have hObject := ih hBefore
    omega

/-- Behind a nested phrase the levels inside are forgotten. -/
theorem Descends.ternary_levels (h : Descends .ternary before tokens e behind) :
    behind = before ∧ before < depthLimit := by
  cases h with
  | alone _ hKind => exact absurd rfl hKind
  | test hRoom | conditional hRoom => exact ⟨rfl, hRoom⟩
  | joined hOperator => cases hOperator

/-! ## Depths of trees -/

theorem depth_of_leafOf {token : Token} {leaf : Expr} (h : leafOf token = some (.ok leaf)) :
    leaf.depth = 1 := by
  cases token with
  | number x =>
    cases hValue : numberResult x with
    | error e => simp [leafOf, hValue, Except.map] at h
    | ok v =>
      obtain rfl : .literal v = leaf := by simpa [leafOf, hValue, Except.map] using h
      rfl
  | _ => cases h <;> rfl

theorem Operator.depth_eq {token : Token} {combine : Expr → Expr → Expr}
    (h : Operator kind token combine) (l r : Expr) :
    (combine l r).depth = max l.depth r.depth + 1 := by
  cases h <;> rfl

theorem Operator.ne_ternary {token : Token} {combine : Expr → Expr → Expr}
    (h : Operator kind token combine) : kind ≠ .ternary := by
  rintro rfl
  cases h

theorem Phrase.ne_ternary_of_operand? {operand : Phrase} (h : kind.operand? = some operand) :
    operand ≠ .ternary := by
  rintro rfl
  cases kind <;> cases h

theorem Phrase.room_of_ne_ternary (h : kind ≠ .ternary) : kind.room = 0 := by
  cases kind <;> first | rfl | exact absurd rfl h

theorem depthOfAll_le {es : List Expr} {bound : Nat} (h : ∀ e ∈ es, e.depth ≤ bound) :
    Expr.depthOfAll es ≤ bound := by
  induction es with
  | nil => exact Nat.zero_le _
  | cons e rest ih =>
    rw [List.forall_mem_cons] at h
    exact Nat.max_le.mpr ⟨h.1, ih h.2⟩

/-- How deep a tree can be if so many levels are left for it. -/
def reach : Nat → Nat
  | 0 => 0
  | left + 1 => reach left + (left + 1)

theorem reach_mono {few many : Nat} (h : few ≤ many) : reach few ≤ reach many := by
  induction h with
  | refl => exact Nat.le_refl _
  | step _ ih => exact Nat.le_add_right_of_le ih

theorem reach_later (h : before ≤ behind) :
    reach (depthLimit - behind) ≤ reach (depthLimit - before) :=
  reach_mono (Nat.sub_le_sub_left h depthLimit)

/-- On the next level there is one level less for everything that stands above a nested phrase. -/
theorem reach_next (h : before < depthLimit) :
    reach (depthLimit - before) = reach (depthLimit - (before + 1)) + (depthLimit - before) := by
  rw [show depthLimit - before = depthLimit - (before + 1) + 1 by omega, reach]

theorem depthOfAll_le_reach {args : List (List Token × Expr)}
    (h : ∀ a ∈ args, a.2.depth + before + 1 ≤ reach (depthLimit - before) + before + 1) :
    Expr.depthOfAll (args.map Prod.snd) ≤ reach (depthLimit - before) := by
  refine depthOfAll_le (List.forall_mem_map.mpr fun a ha => ?_)
  have hArg := h a ha
  omega

/-- A tree is as deep as the levels that have been counted for it, but for what is nested in it: that
can be as deep as the levels left allow. -/
theorem Descends.depth_le_reach (h : Descends kind before tokens e behind)
    (hBefore : before ≤ depthLimit) :
    e.depth + before + kind.room ≤ reach (depthLimit - before) + behind + 1 := by
  -- `reach` at the place of each part bounds what is nested in it; the levels only grow on the way
  induction h with
  | alone hOperand hKind _ ih =>
    have hPart := ih hBefore
    rw [Phrase.room_of_ne_ternary (Phrase.ne_ternary_of_operand? hOperand)] at hPart
    rw [Phrase.room_of_ne_ternary hKind]
    exact hPart
  | test hRoom h ih =>
    have hPart := ih hRoom
    have hLevels := h.le hRoom
    have hNext := reach_next hRoom
    simp only [Phrase.room] at hPart ⊢
    omega
  | conditional hRoom hTest hYes hNo ihTest ihYes ihNo =>
    have hNext := reach_next hRoom
    have hLevels := hTest.le hRoom
    have hFewer := reach_later hLevels.1
    have hYesRoom := hYes.ternary_levels.2
    have hT := ihTest hRoom
    have hY := ihYes hLevels.2
    have hN := ihNo hLevels.2
    simp only [Phrase.room, Expr.depth] at hT hY hN ⊢
    omega
  | joined hOperator hOperand hLeft hRoom hRight ihLeft ihRight =>
    have hLevels := hLeft.le hBefore
    have hMore := hRight.le hRoom
    have hFewer := reach_later (Nat.le_add_right_of_le hLevels.1 : _ ≤ _ + 1)
    have hL := ihLeft hBefore
    have hR := ihRight hRoom
    rw [Phrase.room_of_ne_ternary hOperator.ne_ternary] at hL ⊢
    rw [Phrase.room_of_ne_ternary (Phrase.ne_ternary_of_operand? hOperand)] at hR
    rw [hOperator.depth_eq]
    omega
  | leading _ hRoom h ih =>
    have hPart := ih hRoom
    have hNext := reach_next hRoom
    simp only [Phrase.room, Expr.depth] at hPart ⊢
    omega
  | member _ _ _ ih =>
    have hObject := ih hBefore
    simp only [Phrase.room, Expr.depth] at hObject ⊢
    omega
  | index hObject hRoom _ ih ihKey =>
    have hLevels := hObject.le hBefore
    have hFewer := reach_later (Nat.le_add_right_of_le hLevels.1 : _ ≤ _ + 1)
    have hO := ih hBefore
    have hK := ihKey hRoom
    simp only [Phrase.room, Expr.depth] at hO hK ⊢
    omega
  | call hCallee hRoom _ ih ihArgs =>
    have hLevels := hCallee.le hBefore
    have hFewer := reach_later (Nat.le_add_right_of_le hLevels.1 : _ ≤ _ + 1)
    have hC := ih hBefore
    have hA := depthOfAll_le_reach fun a ha => ihArgs a ha hRoom
    simp only [Phrase.room, Expr.depth] at hC ⊢
    omega
  | leaf hLeaf =>
    rw [depth_of_leafOf hLeaf]
    simp only [Phrase.room]
    omega
  | parenthesis _ ih =>
    have hInner := ih hBefore
    simp only [Phrase.room] at hInner ⊢
    omega
  | array _ ihArgs =>
    have hA := depthOfAll_le_reach fun a ha => ihArgs a ha hBefore
    simp only [Phrase.room, Expr.depth]
    omega

/-! ## What stands behind a closing mark -/

/-- Whether a token closes a nested phrase. -/
def Token.closes : Token → Bool
  | .closeParen | .closeBracket => true
  | _ => false

/-- The number of operators and attachments behind the first closing mark. -/
def overhang (tokens : List Token) : Nat :=
  (tokens.dropWhile fun token => !token.closes).countP fun token => 0 < token.binding

/-- No token of a phrase closes a nested one. -/
def IsOpen (tokens : List Token) : Prop := ∀ token ∈ tokens, token.closes = false

theorem isOpen_iff : IsOpen tokens ↔ (tokens.dropWhile fun token => !token.closes) = [] := by
  simp only [List.dropWhile_eq_nil_iff, IsOpen, Bool.not_eq_true']

theorem overhang_append (left right : List Token) :
    IsOpen left ∧ overhang (left ++ right) = overhang right ∨
      ¬ IsOpen left ∧ overhang (left ++ right) =
        overhang left + right.countP fun token => 0 < token.binding := by
  unfold overhang
  rw [isOpen_iff, List.dropWhile_append]
  by_cases hOpen : left.dropWhile (fun token => !token.closes) = []
  · exact .inl ⟨hOpen, by rw [hOpen]; rfl⟩
  · refine .inr ⟨hOpen, ?_⟩
    rw [if_neg (by simpa using hOpen), List.countP_append]

theorem overhang_le_countP (tokens : List Token) :
    overhang tokens ≤ tokens.countP fun token => 0 < token.binding :=
  (List.dropWhile_sublist _).countP_le

/-- Nothing hangs over in a part that does not in the whole. -/
theorem overhang_le_of_infix {part : List Token} (h : part <:+: tokens) :
    overhang part ≤ overhang tokens := by
  obtain ⟨front, back, rfl⟩ := h
  have hPart : overhang part ≤ overhang (part ++ back) := by
    obtain ⟨hOpen, -⟩ | ⟨-, hMore⟩ := overhang_append part back
    · have hNone : overhang part = 0 := by
        obtain ⟨-, h⟩ | ⟨hClosed, -⟩ := overhang_append part []
        · rw [List.append_nil] at h
          exact h
        · exact absurd hOpen hClosed
      omega
    · omega
  rw [List.append_assoc]
  have hCount := overhang_le_countP (part ++ back)
  obtain ⟨-, hSame⟩ | ⟨-, hMore⟩ := overhang_append front (part ++ back) <;> omega

/-- What holds on to a phrase with a closing mark in it hangs over. -/
theorem overhang_of_binding (left right : List Token) {token : Token} (h : 0 < token.binding) :
    IsOpen left ∨ overhang left + 1 ≤ overhang (left ++ token :: right) := by
  obtain ⟨hOpen, -⟩ | ⟨-, hMore⟩ := overhang_append left (token :: right)
  · exact .inl hOpen
  · rw [List.countP_cons_of_pos (by simpa using h)] at hMore
    exact .inr (by omega)

theorem isOpen_append {left right : List Token} :
    IsOpen (left ++ right) ↔ IsOpen left ∧ IsOpen right :=
  List.forall_mem_append

theorem isOpen_cons {token : Token} : IsOpen (token :: tokens) ↔ token.closes = false ∧ IsOpen tokens :=
  List.forall_mem_cons

/-- Without closing marks the levels that have been counted are a bound on the depth. -/
theorem Descends.depth_le_of_isOpen (h : Descends kind before tokens e behind)
    (hKind : kind ≠ .ternary) (hBefore : before ≤ depthLimit) (hOpen : IsOpen tokens) :
    e.depth + before ≤ behind + 1 := by
  induction h with
  | alone hOperand _ _ ih => exact ih (Phrase.ne_ternary_of_operand? hOperand) hBefore hOpen
  | test | conditional => exact absurd rfl hKind
  | joined hOperator hOperand hLeft hRoom hRight ihLeft ihRight =>
    obtain ⟨hLeftOpen, hRightOpen⟩ := isOpen_append.mp hOpen
    have hL := ihLeft hKind hBefore hLeftOpen
    have hR := ihRight (Phrase.ne_ternary_of_operand? hOperand) hRoom (isOpen_cons.mp hRightOpen).2
    have hLevels := hLeft.le hBefore
    have hMore := hRight.le hRoom
    rw [hOperator.depth_eq]
    omega
  | leading _ hRoom _ ih =>
    have hPart := ih nofun hRoom (isOpen_cons.mp hOpen).2
    simp only [Expr.depth]
    omega
  | member _ _ _ ih =>
    have hObject := ih hKind hBefore (isOpen_append.mp hOpen).1
    simp only [Expr.depth]
    omega
  | leaf hLeaf =>
    rw [depth_of_leafOf hLeaf]
    omega
  | index | call | parenthesis | array =>
    -- the last token is a closing mark
    simp [isOpen_append, isOpen_cons, Token.closes] at hOpen

theorem Operator.binding_pos {token : Token} {combine : Expr → Expr → Expr}
    (h : Operator kind token combine) : 0 < token.binding := by
  cases h <;> decide

/-- What holds on to a phrase goes a level beyond it, on account of the levels counted so far or of
what hangs over. -/
theorem Descends.applied {between : Nat} {left : List Token} (h : Descends kind before left e between)
    (hKind : kind ≠ .ternary) (hBefore : before ≤ depthLimit) (hRoom : between < depthLimit)
    (token : Token) (hToken : 0 < token.binding) (right : List Token) (depth : Nat)
    (hLeft : e.depth + before ≤ depthLimit + 1 + overhang left)
    (hRight : depth + before ≤ depthLimit + overhang right) :
    max e.depth depth + 1 + before ≤ depthLimit + 1 + overhang (left ++ token :: right) := by
  have hPart : overhang right ≤ overhang (left ++ token :: right) :=
    overhang_le_of_infix ⟨left ++ [token], [], by simp⟩
  obtain hOpen | hMore := overhang_of_binding left right hToken
  · have hCounted := h.depth_le_of_isOpen hKind hBefore hOpen
    omega
  · omega

/-- The phrases of a list stand among its tokens. -/
theorem infix_separated {args : List (List Token × Expr)} {a : List Token × Expr} (h : a ∈ args) :
    a.1 <:+: separated args := by
  induction args with
  | nil => cases h
  | cons b more ih =>
    cases more with
    | nil =>
      obtain rfl := List.mem_singleton.mp h
      exact (separated_singleton a).symm ▸ List.infix_refl a.1
    | cons c more =>
      rw [separated_cons_cons]
      obtain rfl | hMore := List.mem_cons.mp h
      · exact (List.prefix_append _ _).isInfix
      · exact (ih hMore).trans ((List.suffix_cons _ _).trans (List.suffix_append _ _)).isInfix

/-- In a list each phrase starts on the same level. -/
theorem depthOfAll_le_overhang {args : List (List Token × Expr)} (close : Token)
    (h : ∀ a ∈ args, a.2.depth + before + 1 ≤ depthLimit + 1 + overhang a.1) :
    Expr.depthOfAll (args.map Prod.snd) ≤
      depthLimit + overhang (separated args ++ [close]) - before := by
  refine depthOfAll_le (List.forall_mem_map.mpr fun a ha => ?_)
  have hArg := h a ha
  have hPart := overhang_le_of_infix
    ((infix_separated ha).trans (List.prefix_append (separated args) [close]).isInfix)
  omega

/-- The levels that have been counted and what hangs over are a bound on the depth. -/
theorem Descends.depth_le_overhang (h : Descends kind before tokens e behind)
    (hBefore : before ≤ depthLimit) :
    e.depth + before + kind.room ≤ depthLimit + 1 + overhang tokens := by
  -- the tokens of a part are an infix of those of the whole, so they hang over no further
  induction h with
  | alone hOperand hKind _ ih =>
    have hPart := ih hBefore
    rw [Phrase.room_of_ne_ternary (Phrase.ne_ternary_of_operand? hOperand)] at hPart
    rw [Phrase.room_of_ne_ternary hKind]
    exact hPart
  | test hRoom _ ih =>
    have hPart := ih hRoom
    simp only [Phrase.room] at hPart ⊢
    omega
  | @conditional before behind _ yes no _ y n hRoom hTest hYes _ ihTest ihYes ihNo =>
    have hLevels := hTest.le hRoom
    have hY := ihYes hLevels.2
    have hN := ihNo hLevels.2
    have hYesPart : overhang yes ≤ overhang (yes ++ .colon :: no) :=
      overhang_le_of_infix (List.prefix_append _ _).isInfix
    have hNoPart : overhang no ≤ overhang (yes ++ .colon :: no) :=
      overhang_le_of_infix ((List.suffix_cons _ _).trans (List.suffix_append _ _)).isInfix
    simp only [Phrase.room] at hY hN
    exact hTest.applied nofun hRoom hYes.ternary_levels.2 .question (by decide) _
      (max y.depth n.depth) (ihTest hRoom) (by omega)
  | @joined _ _ _ _ _ _ _ _ _ _ r hOperator hOperand hLeft hRoom _ ihLeft ihRight =>
    have hLevels := hLeft.le hBefore
    have hKind := hOperator.ne_ternary
    have hL := ihLeft hBefore
    have hR := ihRight hRoom
    rw [Phrase.room_of_ne_ternary hKind] at hL ⊢
    rw [Phrase.room_of_ne_ternary (Phrase.ne_ternary_of_operand? hOperand)] at hR
    rw [hOperator.depth_eq]
    exact hLeft.applied hKind hBefore hRoom _ hOperator.binding_pos _ r.depth hL (by omega)
  | @leading _ token _ _ tokens _ _ hRoom _ ih =>
    have hPart := ih hRoom
    have hTokens : overhang tokens ≤ overhang (token :: tokens) :=
      overhang_le_of_infix (List.suffix_cons _ _).isInfix
    simp only [Phrase.room, Expr.depth] at hPart ⊢
    omega
  | member name hObject hRoom ih =>
    have hMember := hObject.applied nofun hBefore hRoom .dot (by decide) [.ident name] 0 (ih hBefore)
      (by omega)
    rw [Nat.max_zero] at hMember
    exact hMember
  | @index _ _ _ key _ k hObject hRoom _ ih ihKey =>
    have hLevels := hObject.le hBefore
    have hK := ihKey hRoom
    have hPart : overhang key ≤ overhang (key ++ [.closeBracket]) :=
      overhang_le_of_infix (List.prefix_append _ _).isInfix
    simp only [Phrase.room] at hK
    exact hObject.applied nofun hBefore hRoom .openBracket (by decide) _ k.depth (ih hBefore) (by omega)
  | call hCallee hRoom _ ih ihArgs =>
    have hLevels := hCallee.le hBefore
    have hArgs := depthOfAll_le_overhang .closeParen fun a ha => ihArgs a ha hRoom
    exact hCallee.applied nofun hBefore hRoom .openParen (by decide) _ _ (ih hBefore) (by omega)
  | leaf hLeaf =>
    rw [depth_of_leafOf hLeaf]
    simp only [Phrase.room]
    omega
  | @parenthesis _ tokens _ _ ih =>
    have hInner := ih hBefore
    have hPart : overhang tokens ≤ overhang (.openParen :: (tokens ++ [.closeParen])) :=
      overhang_le_of_infix ⟨[.openParen], [.closeParen], by simp⟩
    simp only [Phrase.room] at hInner ⊢
    omega
  | @array _ args _ ihArgs =>
    have hArgs := depthOfAll_le_overhang .closeBracket fun a ha => ihArgs a ha hBefore
    have hPart : overhang (separated args ++ [.closeBracket]) ≤
        overhang (.openBracket :: (separated args ++ [.closeBracket])) :=
      overhang_le_of_infix (List.suffix_cons _ _).isInfix
    simp only [Phrase.room, Expr.depth]
    omega

end

end Workflow.Expr

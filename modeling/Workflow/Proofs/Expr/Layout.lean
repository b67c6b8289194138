/-
Workflow.Proofs.Expr.Layout — white space between tokens.

A text that has tokens is white space, then one token after the other, each
with white space behind it. What the lexer takes for a token depends on what
stands behind it only as far as that goes on without white space, so more
white space anywhere between the tokens leaves them as they are and only
moves them.

* `StartsLike`, `tokenAt_of_startsLike` — what a token depends on.
* `Layout` — a text as tokens and white space.
* `tokenize_eq_ok_iff` — the tokens of a text are those of its layout.
* `layout_ignored` — more white space, the places of the tokens, and to which
  token a character belongs.
-/
import Workflow.Proofs.Expr.Spelling

namespace Workflow.Expr

open Text (isBlank)

/-! ## What stands behind a token -/

/-- A text starts like another as far as it goes on without white space: what it begins with up to
there, the other begins with as well. -/
def StartsLike (cs' cs : List Char) : Prop :=
  ∀ front, (∀ c ∈ front, isBlank c = false) → front <+: cs' → front <+: cs

section

variable {cs cs' body after after' gap gap' : List Char}

theorem StartsLike.append (h : StartsLike cs' cs) (body : List Char) :
    StartsLike (body ++ cs') (body ++ cs) := by
  rintro front hDark ⟨more, hFront⟩
  rcases List.append_eq_append_iff.mp hFront with ⟨rest, rfl, -⟩ | ⟨rest, rfl, hRest⟩
  · exact ⟨rest ++ cs, (List.append_assoc ..).symm⟩
  · have hRestDark : ∀ c ∈ rest, isBlank c = false := fun c hc =>
      hDark c (List.mem_append_right _ hc)
    exact (List.prefix_append_right_inj body).mpr (h rest hRestDark ⟨more, hRest.symm⟩)

/-- More white space in front of a text that starts like another. -/
theorem StartsLike.behind_gap (hMore : gap.Sublist gap') (hBlank : ∀ c ∈ gap', isBlank c = true)
    (h : StartsLike cs' cs) : StartsLike (gap' ++ cs') (gap ++ cs) := by
  cases gap' with
  | nil =>
    rw [List.sublist_nil.mp hMore]
    exact h.append []
  | cons b more =>
    rintro front hDark hFront
    cases front with
    | nil => exact List.nil_prefix
    | cons c front =>
      obtain ⟨rfl, -⟩ := List.cons_prefix_cons.mp hFront
      exact absurd (hBlank c List.mem_cons_self) (by simp [hDark c List.mem_cons_self])

/-- What is taken from the front of a text, as far as it goes on without white space, is the same
from a text that starts like it behind the end of what is taken. -/
theorem StartsLike.take_eq {take : List Char → List Char} (hPrefix : ∀ cs, take cs <+: cs)
    (hDark : ∀ cs, ∀ c ∈ take cs, isBlank c = false)
    (hAppend : ∀ cs rest, take (take cs ++ rest) = take cs ++ take rest)
    (h : StartsLike after' after) (hEnd : (take (body ++ after)).length = body.length) :
    take (body ++ after') = take (body ++ after) := by
  obtain ⟨rest, hRest⟩ := hPrefix (body ++ after)
  have hBody : take (body ++ after) = body := (List.append_inj hRest hEnd).1
  have hBehind : ∀ cs, take (body ++ cs) = body ++ take cs := fun cs => by
    rw [← hBody, hAppend, hBody]
  -- What would be taken of the text behind would have been taken before.
  obtain ⟨more, hMore⟩ := h _ (hDark after') (hPrefix after')
  have hNone : body ++ (take after' ++ take more) = body := by
    rw [← hAppend, hMore, ← hBehind, hBody]
  rw [List.append_right_eq_self, List.append_eq_nil_iff] at hNone
  rw [hBody, hBehind, hNone.1, List.append_nil]

theorem numberTail_append (h : Digits body) (after : List Char) :
    numberTail (body ++ after) = body ++ numberTail after := by
  induction h with
  | nil => rfl
  | digit hc h ih => rw [List.cons_append, numberTail_digit hc, ih, List.cons_append]
  | point hc h ih =>
    rw [List.cons_append, List.cons_append, numberTail, if_pos hc]
    rw [List.cons_append] at ih
    rw [ih]
    rfl

theorem StartsLike.numberTail_eq (h : StartsLike after' after)
    (hEnd : (numberTail (body ++ after)).length = body.length) :
    numberTail (body ++ after') = numberTail (body ++ after) :=
  h.take_eq prefix_numberTail (fun cs => (digits_numberTail cs).not_blank)
    (fun cs => numberTail_append (digits_numberTail cs)) hEnd

theorem StartsLike.takeWhile_eq (h : StartsLike after' after)
    (hEnd : ((body ++ after).takeWhile isNamePart).length = body.length) :
    (body ++ after').takeWhile isNamePart = (body ++ after).takeWhile isNamePart := by
  have hName : ∀ cs : List Char, ∀ c ∈ cs.takeWhile isNamePart, isNamePart c = true :=
    fun cs => List.all_eq_true.mp List.all_takeWhile
  exact h.take_eq (fun cs => List.takeWhile_prefix isNamePart)
    (fun cs c hc => isBlank_eq_false_of_isNamePart (hName cs c hc))
    (fun cs rest => List.takeWhile_append_of_pos (hName cs)) hEnd

/-- A mark is not read as a longer one in front of a text that starts like the text behind it. -/
theorem StartsLike.markOf?_eq {m : List Char × Token} (h : StartsLike after' after)
    (hMark : markOf? (m.1 ++ after) = some m) : markOf? (m.1 ++ after') = some m := by
  obtain ⟨-, before, behind, hMarks, hBefore⟩ := List.find?_eq_some_iff_append.mp hMark
  refine List.find?_eq_some_iff_append.mpr ⟨?_, before, behind, hMarks, fun m' hm' => ?_⟩
  · exact List.isPrefixOf_iff_prefix.mpr (List.prefix_append _ _)
  · have hNot := hBefore m' hm'
    rw [Bool.not_eq_true', ← Bool.not_eq_true, List.isPrefixOf_iff_prefix] at hNot ⊢
    have hMem : m' ∈ marks := hMarks ▸ List.mem_append_left _ hm'
    exact fun hPrefix => hNot (h.append m.1 m'.1 (marks_not_blank m' hMem).2 hPrefix)

theorem textTail_cons {mark c : Char} (hEscape : c ≠ '\\') (rest : List Char) :
    textTail mark (c :: rest) =
      if c = mark then .ok ([], 1)
      else
        match textTail mark rest with
        | .ok (cs, width) => .ok (c :: cs, width + 1)
        | .error (.danglingEscape, place) => .error (.danglingEscape, place + 1)
        | .error problem => .error problem :=
  textTail.eq_4 mark c rest (fun _ _ hSame => absurd hSame hEscape)
    fun hSame => absurd hSame hEscape

theorem textTail_append {mark : Char} {text : List Char} (hEscape : mark ≠ '\\')
    (h : Quoted mark body text) (after : List Char) :
    textTail mark (body ++ after) = .ok (text, body.length) := by
  induction h with
  | close =>
    rw [List.singleton_append, textTail_cons hEscape, if_pos rfl]
    rfl
  | escape c h ih =>
    rw [List.cons_append, List.cons_append, textTail, ih]
    rfl
  | plain hNot hMark h ih =>
    rw [List.cons_append, textTail_cons hNot, if_neg hMark, ih]
    rfl

/-- What the lexer takes for a token, it takes for it in front of every text that starts like the
text behind it. -/
theorem tokenAt_of_startsLike {c : Char} {token : Token}
    (hToken : tokenAt c (body ++ after) = .ok (token, body.length))
    (h : StartsLike after' after) : tokenAt c (body ++ after') = .ok (token, body.length) := by
  -- each kind of token ends where its reader stops; that it stops there is what `StartsLike` carries
  -- over to the other text
  unfold tokenAt at hToken ⊢
  split at hToken
  case isTrue hDigit =>
    rw [if_pos hDigit]
    dsimp only at hToken ⊢
    split at hToken
    case h_1 x hValue =>
      obtain ⟨rfl, hEnd⟩ := Prod.mk.inj (Except.ok.inj hToken)
      rw [h.numberTail_eq hEnd, hValue, hEnd]
    case h_2 => cases hToken
  case isFalse hDigit =>
    rw [if_neg hDigit]
    split at hToken
    case isTrue hMark =>
      rw [if_pos hMark]
      have hEscape : c ≠ '\\' := by rcases hMark with rfl | rfl <;> decide
      split at hToken
      case h_1 text width hTail =>
        obtain ⟨rfl, rfl⟩ := Prod.mk.inj (Except.ok.inj hToken)
        obtain ⟨quoted, behind, hRest, hLength, hQuoted⟩ := quoted_of_textTail hTail
        obtain ⟨rfl, -⟩ := List.append_inj hRest hLength.symm
        rw [textTail_append hEscape hQuoted]
      case h_2 => cases hToken
    case isFalse hMark =>
      rw [if_neg hMark]
      split at hToken
      case isTrue hName =>
        rw [if_pos hName]
        dsimp only at hToken ⊢
        split at hToken
        case h_1 t hWord =>
          obtain ⟨rfl, hEnd⟩ := Prod.mk.inj (Except.ok.inj hToken)
          rw [h.takeWhile_eq hEnd, hWord]
          dsimp only
          rw [hEnd]
        case h_2 => cases hToken
      case isFalse hName =>
        rw [if_neg hName]
        split at hToken
        case h_1 marked hMarked =>
          obtain rfl := Except.ok.inj hToken
          obtain ⟨mark, behind, hRest, hLength, hFound⟩ := exists_mark_of_markAt hMarked
          obtain ⟨rfl, -⟩ := List.append_inj hRest hLength.symm
          have hFound' : markOf? (c :: (body ++ after')) = some (c :: body, token) :=
            h.markOf?_eq (m := (c :: body, token)) hFound
          rw [markAt_of_markOf? hFound']
        case h_2 => cases hToken

end

/-! ## Layouts -/

/-- A token as it stands in a text: its characters and the white space behind them. -/
@[ext]
structure Word where
  token : Token
  body : List Char
  gap : List Char
  spells : Spells token body
  blank : ∀ c ∈ gap, isBlank c = true

/-- The characters of some words. -/
def written : List Word → List Char
  | [] => []
  | w :: ws => w.body ++ (w.gap ++ written ws)

/-- The tokens of some words, the first of which stands at a position. -/
def placed (position : Nat) : List Word → List Lexeme
  | [] => []
  | w :: ws => ⟨w.token, position⟩ :: placed (position + w.body.length + w.gap.length) ws

/-- A text laid out: white space, and then words. -/
@[ext]
structure Layout where
  front : List Char
  words : List Word
  blank : ∀ c ∈ front, isBlank c = true

namespace Layout

/-- The text that is laid out. -/
def text (l : Layout) : List Char := l.front ++ written l.words

/-- The tokens of the text, each at the place of its first character. -/
def lexemes (l : Layout) : List Lexeme := placed l.front.length l.words

end Layout

/-! ## Reading a layout -/

/-- The lexer takes the characters of a word for its token, in front of a text. -/
def Word.ReadsBefore (w : Word) (after : List Char) : Prop :=
  ∃ c body, w.body = c :: body ∧ tokenAt c (body ++ after) = .ok (w.token, body.length)

/-- The lexer takes the characters of each word for its token. -/
def AllRead : List Word → Prop
  | [] => True
  | w :: ws => w.ReadsBefore (w.gap ++ written ws) ∧ AllRead ws

theorem lexemesFrom_blank {gap : List Char} (h : ∀ c ∈ gap, isBlank c = true) (position : Nat)
    (cs : List Char) :
    lexemesFrom position (gap ++ cs) = lexemesFrom (position + gap.length) cs := by
  induction gap generalizing position with
  | nil => rfl
  | cons c gap ih =>
    obtain ⟨hBlank, hGap⟩ := List.forall_mem_cons.mp h
    rw [List.cons_append, lexemesFrom, if_pos hBlank, ih hGap, List.length_cons, Nat.add_assoc,
      Nat.add_comm 1]

theorem lexemesFrom_written {ws : List Word} (h : AllRead ws) (position : Nat) :
    lexemesFrom position (written ws) = .ok (placed position ws) := by
  induction ws generalizing position with
  | nil => rw [written, lexemesFrom, placed]
  | cons w ws ih =>
    obtain ⟨⟨c, body, hBody, hToken⟩, hRest⟩ := h
    have hDark : isBlank c = false := by
      obtain ⟨d, rest, hWord, hDark⟩ := w.spells.exists_cons
      cases hBody.symm.trans hWord
      exact hDark
    rw [written, hBody, List.cons_append, lexemesFrom, hDark]
    simp only [Bool.false_eq_true, if_false, hToken, List.drop_left]
    rw [lexemesFrom_blank w.blank, ih hRest, placed, hBody]
    simp only [List.length_cons, Nat.add_assoc, Nat.add_comm 1]

/-- A text that has tokens has a layout with them, which the lexer reads. -/
theorem exists_layout {position : Nat} {cs : List Char} {lexemes : List Lexeme}
    (h : lexemesFrom position cs = .ok lexemes) :
    ∃ l : Layout, l.text = cs ∧ placed (position + l.front.length) l.words = lexemes ∧
      AllRead l.words := by
  fun_induction lexemesFrom position cs generalizing lexemes with
  | case1 position =>
    cases h
    exact ⟨⟨[], [], nofun⟩, rfl, rfl, trivial⟩
  | case2 position c rest hBlank ih =>
    obtain ⟨l, rfl, hPlaced, hRead⟩ := ih h
    refine ⟨⟨c :: l.front, l.words, List.forall_mem_cons.mpr ⟨hBlank, l.blank⟩⟩, rfl, ?_, hRead⟩
    rw [← hPlaced, List.length_cons, Nat.add_assoc, Nat.add_comm 1]
  | case3 => cases h
  | case4 position c rest hBlank token width hToken more hMore ih =>
    cases h
    obtain ⟨body, after, rfl, rfl, hSpells⟩ := spells_of_tokenAt hToken
    rw [List.drop_left] at hMore ih
    obtain ⟨l, rfl, hPlaced, hRead⟩ := ih hMore
    refine ⟨⟨[], ⟨token, c :: body, l.front, hSpells, l.blank⟩ :: l.words, nofun⟩, rfl, ?_,
      ⟨c, body, rfl, hToken⟩, hRead⟩
    have hPosition : position + (c :: body).length = position + 1 + body.length := by
      rw [List.length_cons, Nat.add_comm body.length, Nat.add_assoc]
    rw [← hPlaced, placed, List.length_nil, Nat.add_zero, hPosition]
  | case5 => cases h

/-! ## More white space -/

/-- The same token and characters, with more white space behind them. -/
def Word.Loosens (w w' : Word) : Prop :=
  w'.token = w.token ∧ w'.body = w.body ∧ w.gap.Sublist w'.gap

/-- A layout with white space inserted in front of the first token, between tokens and behind the
last. -/
def Layout.Loosens (l l' : Layout) : Prop :=
  l.front.Sublist l'.front ∧ List.Forall₂ Word.Loosens l.words l'.words

theorem startsLike_written {ws ws' : List Word} (h : List.Forall₂ Word.Loosens ws ws') :
    StartsLike (written ws') (written ws) := by
  induction h with
  | nil => exact fun _ _ hFront => hFront
  | @cons w w' ws ws' hWord _ ih =>
    obtain ⟨-, hBody, hGap⟩ := hWord
    rw [written, written, hBody]
    exact (ih.behind_gap hGap w'.blank).append w.body

theorem AllRead.loosens {ws ws' : List Word} (hRead : AllRead ws)
    (h : List.Forall₂ Word.Loosens ws ws') : AllRead ws' := by
  induction h with
  | nil => trivial
  | @cons w w' ws ws' hWord hWords ih =>
    obtain ⟨⟨c, body, hBody, hToken⟩, hRest⟩ := hRead
    obtain ⟨hSame, hBody', hGap⟩ := hWord
    refine ⟨⟨c, body, hBody'.trans hBody, ?_⟩, ih hRest⟩
    rw [hSame]
    exact tokenAt_of_startsLike hToken ((startsLike_written hWords).behind_gap hGap w'.blank)

theorem map_token_placed {ws ws' : List Word} (h : List.Forall₂ Word.Loosens ws ws')
    (position position' : Nat) :
    (placed position' ws').map Lexeme.token = (placed position ws).map Lexeme.token := by
  induction h generalizing position position' with
  | nil => rfl
  | cons hWord _ ih => rw [placed, placed, List.map_cons, List.map_cons, hWord.1, ih]

/-! ## A text has one layout -/

theorem trimEnd_append {body gap : List Char}
    (hBody : ∃ front c, body = front ++ [c] ∧ isBlank c = false)
    (hGap : ∀ c ∈ gap, isBlank c = true) : Text.trimEnd (body ++ gap) = body := by
  obtain ⟨front, c, rfl, hDark⟩ := hBody
  have hReverse : (front ++ [c] ++ gap).reverse = gap.reverse ++ c :: front.reverse := by simp
  rw [Text.trimEnd, hReverse, List.dropWhile_append_of_pos (by simpa using hGap),
    List.dropWhile_cons_of_neg (by simp [hDark]), List.reverse_cons, List.reverse_reverse]

/-- Where the words of two equal texts begin at the same places, what stands in front is equal. -/
theorem eq_of_append_written {position : Nat} {front front' : List Char} {ws ws' : List Word}
    (hText : front ++ written ws = front' ++ written ws')
    (hPlaced : placed (position + front.length) ws = placed (position + front'.length) ws') :
    front = front' ∧ written ws = written ws' := by
  cases ws with
  | nil =>
    cases ws' with
    | nil => simpa [written] using hText
    | cons w' ws' => cases hPlaced
  | cons w ws =>
    cases ws' with
    | nil => cases hPlaced
    | cons w' ws' =>
      have hPosition : position + front.length = position + front'.length :=
        congrArg Lexeme.position (List.cons.inj hPlaced).1
      exact List.append_inj hText (Nat.add_left_cancel hPosition)

theorem words_unique {position : Nat} {ws ws' : List Word} (hText : written ws = written ws')
    (hPlaced : placed position ws = placed position ws') : ws = ws' := by
  induction ws generalizing position ws' with
  | nil =>
    cases ws' with
    | nil => rfl
    | cons w' ws' => cases hPlaced
  | cons w ws ih =>
    cases ws' with
    | nil => cases hPlaced
    | cons w' ws' =>
      obtain ⟨hFirst, hMore⟩ := List.cons.inj hPlaced
      rw [written, written, ← List.append_assoc, ← List.append_assoc] at hText
      simp only [Nat.add_assoc, ← List.length_append] at hMore
      obtain ⟨hFront, hRest⟩ := eq_of_append_written hText hMore
      rw [hFront] at hMore
      -- The characters of a token are all up to the white space behind it.
      have hBody : w.body = w'.body := by
        rw [← trimEnd_append w.spells.exists_concat w.blank, hFront,
          trimEnd_append w'.spells.exists_concat w'.blank]
      have hGap : w.gap = w'.gap := List.append_cancel_left (hBody ▸ hFront)
      rw [Word.ext (congrArg Lexeme.token hFirst) hBody hGap, ih hRest hMore]

/-- A layout is one of a text, with its tokens. -/
structure Layout.Shows (l : Layout) (source : List Char) (lexemes : List Lexeme) : Prop where
  text_eq : l.text = source
  lexemes_eq : l.lexemes = lexemes

theorem Layout.Shows.unique {l l' : Layout} {source : List Char} {lexemes : List Lexeme}
    (h : l.Shows source lexemes) (h' : l'.Shows source lexemes) : l' = l := by
  have hPlaced := h'.lexemes_eq.trans h.lexemes_eq.symm
  rw [Layout.lexemes, Layout.lexemes, ← Nat.zero_add l.front.length,
    ← Nat.zero_add l'.front.length] at hPlaced
  obtain ⟨hFront, hWords⟩ :=
    eq_of_append_written (h'.text_eq.trans h.text_eq.symm) hPlaced
  rw [hFront] at hPlaced
  exact Layout.ext hFront (words_unique hWords hPlaced)

/-! ## The places of the tokens -/

theorem position_le_of_mem_placed {position : Nat} {ws : List Word} :
    ∀ lexeme ∈ placed position ws, position ≤ lexeme.position := by
  induction ws generalizing position with
  | nil => nofun
  | cons w ws ih =>
    refine List.forall_mem_cons.mpr ⟨Nat.le_refl _, fun lexeme hMem => ?_⟩
    have := ih lexeme hMem
    omega

theorem placed_increasing (position : Nat) (ws : List Word) :
    (placed position ws).Pairwise fun a b => a.position < b.position := by
  induction ws generalizing position with
  | nil => exact .nil
  | cons w ws ih =>
    refine .cons (fun lexeme hMem => ?_) (ih _)
    have hLater := position_le_of_mem_placed lexeme hMem
    obtain ⟨c, rest, hBody, -⟩ := w.spells.exists_cons
    rw [hBody, List.length_cons] at hLater
    dsimp only
    omega

/-- The word at an index among some words has a place in the text. -/
def Covers (position : Nat) (ws : List Word) (i place : Nat) : Prop :=
  ∃ word lexeme, ws[i]? = some word ∧ (placed position ws)[i]? = some lexeme ∧
    lexeme.position ≤ place ∧ place < lexeme.position + word.body.length

theorem covers_zero {position place : Nat} {w : Word} {ws : List Word} :
    Covers position (w :: ws) 0 place ↔ position ≤ place ∧ place < position + w.body.length := by
  simp [Covers, placed]

theorem covers_succ {position place i : Nat} {w : Word} {ws : List Word} :
    Covers position (w :: ws) (i + 1) place ↔
      Covers (position + w.body.length + w.gap.length) ws i place := by
  simp [Covers, placed]

theorem Covers.le {position place i : Nat} {ws : List Word} (h : Covers position ws i place) :
    position ≤ place := by
  obtain ⟨word, lexeme, -, hLexeme, hPlace, -⟩ := h
  exact Nat.le_trans (position_le_of_mem_placed lexeme (List.mem_of_getElem? hLexeme)) hPlace

/-- A character that is no white space is in the place of one word. -/
theorem existsUnique_covers (position : Nat) {k : Nat} {c : Char} {ws : List Word}
    (hChar : (written ws)[k]? = some c) (hDark : isBlank c = false) :
    ∃! i, Covers position ws i (position + k) := by
  induction ws generalizing position k with
  | nil => simp [written] at hChar
  | cons w ws ih =>
    rw [written] at hChar
    by_cases hBody : k < w.body.length
    · refine ⟨0, covers_zero.mpr ⟨by omega, by omega⟩, fun i hCovers => ?_⟩
      cases i with
      | zero => rfl
      | succ i =>
        have := (covers_succ.mp hCovers).le
        omega
    · rw [List.getElem?_append_right (Nat.le_of_not_lt hBody)] at hChar
      have hGap : w.gap.length ≤ k - w.body.length := by
        by_contra hInside
        rw [List.getElem?_append_left (Nat.lt_of_not_le hInside)] at hChar
        rw [w.blank c (List.mem_of_getElem? hChar)] at hDark
        cases hDark
      rw [List.getElem?_append_right hGap] at hChar
      obtain ⟨i, hCovers, hUnique⟩ := ih (position + w.body.length + w.gap.length) hChar
      have hPlace : position + w.body.length + w.gap.length + (k - w.body.length - w.gap.length) =
          position + k := by omega
      rw [hPlace] at hCovers hUnique
      refine ⟨i + 1, covers_succ.mpr hCovers, fun j hj => ?_⟩
      cases j with
      | zero =>
        have := (covers_zero.mp hj).2
        omega
      | succ j => rw [hUnique j (covers_succ.mp hj)]

/-- The characters of a word stand at the position of its token. -/
theorem prefix_drop_written (position : Nat) {i : Nat} {ws : List Word} {word : Word}
    {lexeme : Lexeme} (hWord : ws[i]? = some word)
    (hLexeme : (placed position ws)[i]? = some lexeme) :
    ∃ k, lexeme.position = position + k ∧ word.body <+: (written ws).drop k := by
  induction ws generalizing position i with
  | nil => cases hWord
  | cons w ws ih =>
    cases i with
    | zero =>
      cases hWord
      cases hLexeme
      exact ⟨0, rfl, List.prefix_append _ _⟩
    | succ i =>
      rw [placed, List.getElem?_cons_succ] at hLexeme
      obtain ⟨k, hPosition, hPrefix⟩ := ih _ hWord hLexeme
      refine ⟨w.body.length + (w.gap.length + k), by omega, ?_⟩
      rwa [written, List.drop_length_add_append, List.drop_length_add_append]

namespace Layout

/-- The characters of each token stand at its position. -/
def InPlace (l : Layout) : Prop :=
  ∀ (i : Nat) (word : Word) (lexeme : Lexeme), l.words[i]? = some word →
    l.lexemes[i]? = some lexeme → word.body <+: l.text.drop lexeme.position

theorem inPlace (l : Layout) : l.InPlace := by
  intro i word lexeme hWord hLexeme
  obtain ⟨k, hPosition, hPrefix⟩ := prefix_drop_written _ hWord hLexeme
  rwa [hPosition, text, List.drop_length_add_append]

/-- A place in the text belongs to the token at an index. -/
def Owns (l : Layout) (i place : Nat) : Prop := Covers l.front.length l.words i place

theorem existsUnique_owner (l : Layout) {place : Nat} {c : Char}
    (hChar : l.text[place]? = some c) (hDark : isBlank c = false) : ∃! i, l.Owns i place := by
  have hFront : l.front.length ≤ place := by
    by_contra hInside
    rw [text, List.getElem?_append_left (Nat.lt_of_not_le hInside)] at hChar
    rw [l.blank c (List.mem_of_getElem? hChar)] at hDark
    cases hDark
  rw [text, List.getElem?_append_right hFront] at hChar
  have hCovers := existsUnique_covers l.front.length hChar hDark
  rwa [Nat.add_sub_cancel' hFront] at hCovers

end Layout

/-! ## White space is ignored -/

/-- The tokens of a text are those of a layout of it that the lexer reads. -/
theorem tokenize_eq_ok_iff {source : List Char} {lexemes : List Lexeme} :
    tokenize source = .ok lexemes ↔ ∃ l : Layout, l.Shows source lexemes ∧ AllRead l.words := by
  constructor
  · intro h
    obtain ⟨l, hText, hPlaced, hRead⟩ := exists_layout h
    rw [Nat.zero_add] at hPlaced
    exact ⟨l, ⟨hText, hPlaced⟩, hRead⟩
  · rintro ⟨l, ⟨rfl, rfl⟩, hRead⟩
    rw [tokenize, Layout.text, lexemesFrom_blank l.blank, lexemesFrom_written hRead, Nat.zero_add]
    rfl

/-- White space between tokens is ignored. A text that has tokens has one layout with them, and in
the text with more white space in front of the first token, between tokens or behind the last, the
tokens are the same, each where its first character now stands. Their positions increase, and every
character that is no white space belongs to one of them. -/
theorem layout_ignored {source : List Char} {lexemes : List Lexeme}
    (h : tokenize source = .ok lexemes) :
    ∃ l : Layout, (∀ l' : Layout, l'.Shows source lexemes ↔ l' = l) ∧
      (∀ l' : Layout, l.Loosens l' → tokenize l'.text = .ok l'.lexemes ∧
        l'.lexemes.map Lexeme.token = lexemes.map Lexeme.token ∧ l'.InPlace) ∧
      lexemes.Pairwise (fun a b => a.position < b.position) ∧
      ∀ place c, source[place]? = some c → isBlank c = false → ∃! i, l.Owns i place := by
  obtain ⟨l, hShows, hRead⟩ := tokenize_eq_ok_iff.mp h
  refine ⟨l, fun l' => ⟨hShows.unique, ?_⟩, fun l' hLoosens => ⟨?_, ?_, l'.inPlace⟩, ?_, ?_⟩
  · rintro rfl
    exact hShows
  · exact tokenize_eq_ok_iff.mpr ⟨l', ⟨rfl, rfl⟩, hRead.loosens hLoosens.2⟩
  · rw [← hShows.lexemes_eq]
    exact map_token_placed hLoosens.2 _ _
  · rw [← hShows.lexemes_eq]
    exact placed_increasing _ _
  · intro place c hChar hDark
    rw [← hShows.text_eq] at hChar
    exact l.existsUnique_owner hChar hDark

/-- `$a>=1.b`, with some white space in front of each token and behind the last. -/
def comparison (gap : List Char) (h : ∀ c ∈ gap, isBlank c = true) : Layout where
  front := gap
  words :=
    [⟨.root "a", ['$', 'a'], gap, .root nofun (List.forall_mem_singleton.mpr rfl), h⟩,
      ⟨.greaterEqual, ['>', '='], gap, .mark (by decide), h⟩,
      ⟨.number 1.0, ['1'], gap, .number rfl .nil (by decide +kernel), h⟩,
      ⟨.dot, ['.'], gap, .mark (by decide), h⟩,
      ⟨.ident "b", ['b'], gap, .ident rfl (by decide) nofun (by decide), h⟩]
  blank := h

theorem layout_ignored_in_comparison :
    tokenize "$a>=1.b".toList =
      .ok [⟨.root "a", 0⟩, ⟨.greaterEqual, 2⟩, ⟨.number 1.0, 4⟩, ⟨.dot, 5⟩, ⟨.ident "b", 6⟩] ∧
    tokenize " $a >= 1 . b ".toList =
      .ok [⟨.root "a", 1⟩, ⟨.greaterEqual, 4⟩, ⟨.number 1.0, 7⟩, ⟨.dot, 9⟩, ⟨.ident "b", 11⟩] := by
  have hTokens : tokenize "$a>=1.b".toList = .ok (comparison [] nofun).lexemes := by
    have h : (tokenize "$a>=1.b".toList).toOption = some (comparison [] nofun).lexemes := by
      decide +kernel
    exact toOption_eq_some_iff.mp h
  obtain ⟨l, hUnique, hLoosens, -, -⟩ := layout_ignored hTokens
  -- The layout of the text is the one without white space.
  obtain rfl : comparison [] nofun = l := (hUnique _).mp ⟨by decide +kernel, rfl⟩
  have hMore : (comparison [] nofun).Loosens
      (comparison [' '] (List.forall_mem_singleton.mpr rfl)) :=
    ⟨List.nil_sublist _, by simp [comparison, Word.Loosens]⟩
  exact ⟨hTokens, (hLoosens _ hMore).1⟩

end Workflow.Expr

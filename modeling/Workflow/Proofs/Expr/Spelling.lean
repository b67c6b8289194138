/-
Workflow.Proofs.Expr.Spelling — how tokens are written.

`Spells` says which characters a token may be written with, apart from the
text that it stands in. The lexer takes such characters and no others, and no
token begins or ends with white space.

* `Spells` — a token and its characters.
* `spells_of_tokenAt` — the characters that the lexer takes for a token spell
  it.
* `Spells.exists_cons`, `Spells.exists_concat` — their first and last one.
-/
import Mathlib.Data.List.Infix
import Workflow.Expr.Lexer
import Workflow.Proofs.Text.Blank

namespace Workflow.Expr

open Text (isBlank)

/-! ## Characters of tokens -/

/-- The further characters of a number: digits, and points with a digit behind them. -/
inductive Digits : List Char → Prop where
  | nil : Digits []
  | digit {c : Char} {cs : List Char} (hc : c.isDigit = true) (h : Digits cs) : Digits (c :: cs)
  | point {c : Char} {cs : List Char} (hc : c.isDigit = true) (h : Digits (c :: cs)) :
      Digits ('.' :: c :: cs)

/-- What stands behind an opening quotation mark, up to the closing one, and the text it stands
for. -/
inductive Quoted (mark : Char) : List Char → List Char → Prop where
  | close : Quoted mark [mark] []
  | escape (c : Char) {cs text : List Char} (h : Quoted mark cs text) :
      Quoted mark ('\\' :: c :: cs) (escaped c :: text)
  | plain {c : Char} {cs text : List Char} (hEscape : c ≠ '\\') (hMark : c ≠ mark)
      (h : Quoted mark cs text) : Quoted mark (c :: cs) (c :: text)

/-- The words that are no names. -/
def literals : List (String × Token) :=
  [("true", .trueLit), ("false", .falseLit), ("null", .nullLit), ("undefined", .nullLit)]

/-- The operators and marks. One that is the beginning of another stands behind it. -/
def marks : List (List Char × Token) :=
  [(['=', '=', '='], .equal), (['=', '='], .equal), (['!', '=', '='], .notEqual),
    (['!', '='], .notEqual), (['<', '='], .lessEqual), (['>', '='], .greaterEqual),
    (['&', '&'], .andAnd), (['|', '|'], .orOr), (['<'], .less), (['>'], .greater), (['!'], .bang),
    (['.'], .dot), ([','], .comma), (['('], .openParen), ([')'], .closeParen),
    (['['], .openBracket), ([']'], .closeBracket), (['?'], .question), ([':'], .colon),
    (['+'], .plus), (['-'], .minus), (['*'], .star), (['/'], .slash), (['%'], .percent)]

/-- A token and characters that it is written with. -/
inductive Spells : Token → List Char → Prop where
  | number {x : Float} {c : Char} {cs : List Char} (hc : c.isDigit = true) (h : Digits cs)
      (hValue : Number.readFloat? (c :: cs) = some x) : Spells (.number x) (c :: cs)
  | text {mark : Char} {cs text : List Char} (hMark : mark = '\'' ∨ mark = '"')
      (h : Quoted mark cs text) : Spells (.text (String.ofList text)) (mark :: cs)
  | root {name : List Char} (hName : name ≠ []) (h : ∀ c ∈ name, isNamePart c = true) :
      Spells (.root (String.ofList name)) ('$' :: name)
  | literal {word : String} {token : Token} (h : (word, token) ∈ literals) :
      Spells token word.toList
  | ident {c : Char} {cs : List Char} (hc : isNameStart c = true) (hRoot : c ≠ '$')
      (h : ∀ d ∈ cs, isNamePart d = true)
      (hName : String.ofList (c :: cs) ∉ literals.map Prod.fst) :
      Spells (.ident (String.ofList (c :: cs))) (c :: cs)
  | mark {token : Token} {cs : List Char} (h : (cs, token) ∈ marks) : Spells token cs

/-! ## White space is not among them -/

theorem isBlank_eq_false_of_isNamePart {c : Char} (h : isNamePart c = true) :
    isBlank c = false := by
  by_contra hBlank
  rw [Bool.not_eq_false] at hBlank
  rw [isNamePart, Text.isLetterOrNumeral_eq_false_of_isBlank hBlank, Bool.or_false, beq_iff_eq] at h
  subst h
  cases hBlank

theorem isBlank_eq_false_of_isNameStart {c : Char} (h : isNameStart c = true) :
    isBlank c = false := by
  by_cases hDollar : c = '$'
  · subst hDollar
    rfl
  · refine isBlank_eq_false_of_isNamePart ?_
    simp only [isNameStart, Bool.or_eq_true, beq_iff_eq, hDollar, false_or] at h
    simp only [isNamePart, Text.isLetterOrNumeral, Bool.or_eq_true, beq_iff_eq]
    exact h.imp_right .inl

theorem isNamePart_of_isDigit {c : Char} (h : c.isDigit = true) : isNamePart c = true := by
  have hSmall : c.toNat < 128 := by
    simp [Char.isDigit, UInt32.le_iff_toNat_le] at h
    omega
  simp [isNamePart, Text.isLetterOrNumeral, Text.isNumeral, hSmall, h]

theorem isBlank_eq_false_of_isDigit {c : Char} (h : c.isDigit = true) : isBlank c = false :=
  isBlank_eq_false_of_isNamePart (isNamePart_of_isDigit h)

theorem Digits.not_blank {cs : List Char} (h : Digits cs) : ∀ c ∈ cs, isBlank c = false := by
  induction h with
  | nil => exact List.forall_mem_nil _
  | digit hc h ih => exact List.forall_mem_cons.mpr ⟨isBlank_eq_false_of_isDigit hc, ih⟩
  | point hc h ih => exact List.forall_mem_cons.mpr ⟨rfl, ih⟩

theorem marks_not_blank : ∀ m ∈ marks, m.1 ≠ [] ∧ ∀ c ∈ m.1, isBlank c = false := by
  -- With `List.all` the characters of the mark are tested, and not all that there are.
  have hMarks : ∀ m ∈ marks, m.1 ≠ [] ∧ m.1.all (!isBlank ·) = true := by decide
  simpa only [List.all_eq_true, Bool.not_eq_true'] using hMarks

theorem literals_not_blank :
    ∀ m ∈ literals, m.1.toList ≠ [] ∧ ∀ c ∈ m.1.toList, isBlank c = false := by
  have hLiterals : ∀ m ∈ literals, m.1.toList ≠ [] ∧ m.1.toList.all (!isBlank ·) = true := by
    decide +kernel
  simpa only [List.all_eq_true, Bool.not_eq_true'] using hLiterals

theorem Quoted.exists_concat {mark : Char} {cs text : List Char} (h : Quoted mark cs text) :
    ∃ front, cs = front ++ [mark] := by
  induction h with
  | close => exact ⟨[], rfl⟩
  | escape c h ih =>
    obtain ⟨front, rfl⟩ := ih
    exact ⟨'\\' :: c :: front, rfl⟩
  | plain hEscape hMark h ih =>
    obtain ⟨front, rfl⟩ := ih
    exact ⟨_ :: front, rfl⟩

/-- The characters of a token: a quotation, or characters that are no white space. -/
theorem Spells.not_blank_or_quoted {token : Token} {body : List Char} (h : Spells token body) :
    (body ≠ [] ∧ ∀ c ∈ body, isBlank c = false) ∨
      ∃ mark front, isBlank mark = false ∧ body = mark :: (front ++ [mark]) := by
  cases h with
  | number hc h _ =>
    exact .inl ⟨nofun, List.forall_mem_cons.mpr ⟨isBlank_eq_false_of_isDigit hc, h.not_blank⟩⟩
  | text hMark h =>
    obtain ⟨front, rfl⟩ := h.exists_concat
    refine .inr ⟨_, front, ?_, rfl⟩
    rcases hMark with rfl | rfl <;> rfl
  | root _ h =>
    exact .inl ⟨nofun, List.forall_mem_cons.mpr
      ⟨rfl, fun c hc => isBlank_eq_false_of_isNamePart (h c hc)⟩⟩
  | literal h => exact .inl (literals_not_blank _ h)
  | ident hc _ h _ =>
    exact .inl ⟨nofun, List.forall_mem_cons.mpr
      ⟨isBlank_eq_false_of_isNameStart hc, fun d hd => isBlank_eq_false_of_isNamePart (h d hd)⟩⟩
  | mark h => exact .inl (marks_not_blank _ h)

theorem Spells.exists_cons {token : Token} {body : List Char} (h : Spells token body) :
    ∃ c rest, body = c :: rest ∧ isBlank c = false := by
  obtain ⟨hSome, hDark⟩ | ⟨mark, front, hMark, rfl⟩ := h.not_blank_or_quoted
  · obtain ⟨c, rest, rfl⟩ := List.exists_cons_of_ne_nil hSome
    exact ⟨c, rest, rfl, hDark c List.mem_cons_self⟩
  · exact ⟨mark, front ++ [mark], rfl, hMark⟩

theorem Spells.exists_concat {token : Token} {body : List Char} (h : Spells token body) :
    ∃ front c, body = front ++ [c] ∧ isBlank c = false := by
  obtain ⟨hSome, hDark⟩ | ⟨mark, front, hMark, rfl⟩ := h.not_blank_or_quoted
  · refine ⟨body.dropLast, body.getLast hSome, (List.dropLast_append_getLast hSome).symm, ?_⟩
    exact hDark _ (List.getLast_mem hSome)
  · exact ⟨mark :: front, mark, rfl, hMark⟩

/-! ## What the lexer takes -/

theorem prefix_numberTail (cs : List Char) : numberTail cs <+: cs := by
  fun_induction numberTail cs with
  | case1 => exact List.prefix_rfl
  | case2 c rest _ ih | case4 c rest _ _ ih => exact List.cons_prefix_cons.mpr ⟨rfl, ih⟩
  | case3 | case5 => exact List.nil_prefix

theorem numberTail_digit {c : Char} (hc : c.isDigit = true) (cs : List Char) :
    numberTail (c :: cs) = c :: numberTail cs := by
  have hPoint : c ≠ '.' := by
    rintro rfl
    cases hc
  rw [numberTail.eq_3 c cs fun _ _ hSame _ => hPoint hSame, if_pos hc]

theorem digits_numberTail (cs : List Char) : Digits (numberTail cs) := by
  fun_induction numberTail cs with
  | case1 | case3 | case5 => exact .nil
  | case2 c rest hc ih =>
    rw [numberTail_digit hc] at ih ⊢
    exact .point hc ih
  | case4 c rest _ hc ih => exact .digit hc ih

theorem quoted_of_textTail {mark : Char} {rest text : List Char} {width : Nat}
    (h : textTail mark rest = .ok (text, width)) :
    ∃ body after, rest = body ++ after ∧ body.length = width ∧ Quoted mark body text := by
  fun_induction textTail mark rest generalizing text width with
  | case1 | case3 | case4 | case5 | case8 | case9 => cases h
  | case2 c rest cs width hTail ih =>
    cases h
    obtain ⟨body, after, rfl, rfl, hBody⟩ := ih hTail
    exact ⟨'\\' :: c :: body, after, rfl, rfl, .escape c hBody⟩
  | case6 rest =>
    cases h
    exact ⟨[mark], rest, rfl, rfl, .close⟩
  | case7 c rest hMore hEnd hOther cs width hTail ih =>
    cases h
    obtain ⟨body, after, rfl, rfl, hBody⟩ := ih hTail
    have hNot : c ≠ '\\' := fun hBackslash =>
      match body ++ after, hMore, hEnd with
      | [], _, hEnd => hEnd hBackslash rfl
      | d :: more, hMore, _ => hMore d more hBackslash rfl
    exact ⟨c :: body, after, rfl, rfl, .plain hNot hOther hBody⟩

theorem Spells.of_literal {word : String} {token : Token} {cs : List Char}
    (hWord : String.ofList cs = word) (h : (word, token) ∈ literals) : Spells token cs := by
  have hSpells := Spells.literal h
  rwa [← hWord, String.toList_ofList] at hSpells

theorem spells_of_wordToken {c : Char} {cs : List Char} {token : Token}
    (hc : isNameStart c = true) (h : ∀ d ∈ cs, isNamePart d = true)
    (hToken : wordToken (c :: cs) = .ok token) : Spells token (c :: cs) := by
  unfold wordToken at hToken
  split at hToken
  case h_1 => cases hToken
  case h_2 name hSome hRoot =>
    obtain ⟨rfl, rfl⟩ := List.cons.inj hRoot
    cases hToken
    exact .root (fun hNone => hSome (by rw [hNone])) h
  case h_3 hDollar hRoot =>
    split at hToken
    case h_1 hWord | h_2 hWord | h_3 hWord | h_4 hWord =>
      cases hToken
      exact .of_literal hWord (by simp [literals])
    case h_5 hTrue hFalse hNull hUndefined =>
      cases hToken
      refine .ident hc (fun hSame => hRoot cs (by rw [hSame])) h ?_
      simp only [literals, List.map_cons, List.map_nil, List.mem_cons, List.not_mem_nil, or_false]
      rintro (hWord | hWord | hWord | hWord)
      exacts [hTrue hWord, hFalse hWord, hNull hWord, hUndefined hWord]

/-- The first of the marks that a text begins with. -/
def markOf? (cs : List Char) : Option (List Char × Token) :=
  marks.find? fun m => m.1.isPrefixOf cs

theorem mem_and_prefix_of_markOf? {cs : List Char} {m : List Char × Token}
    (h : markOf? cs = some m) : m ∈ marks ∧ m.1 <+: cs := by
  refine ⟨List.mem_of_find?_eq_some h, List.isPrefixOf_iff_prefix.mp ?_⟩
  exact List.find?_some (p := fun m : List Char × Token => m.1.isPrefixOf cs) h

theorem isPrefixOf_cons_eq_false {d : Char} {more rest : List Char}
    (h : ∀ tail, rest = d :: tail → False) : (d :: more).isPrefixOf rest = false := by
  rw [← Bool.not_eq_true, List.isPrefixOf_iff_prefix, List.cons_prefix_iff]
  rintro ⟨tail, hRest, -⟩
  exact h tail hRest

/-- The lexer takes the first mark of the list. -/
theorem toOption_markAt (c : Char) (rest : List Char) :
    (markAt c rest).toOption = (markOf? (c :: rest)).map fun m => (m.2, m.1.length - 1) := by
  unfold markAt
  split
  -- Where one mark begins another, the longer one has failed.
  case h_2 h | h_4 h | h_9 h | h_10 h | h_11 _ h | h_25 _ h =>
    simp only [markOf?, marks, List.find?, List.isPrefixOf, isPrefixOf_cons_eq_false h]
    rfl
  case h_26 =>
    simp_all [markOf?, marks, Except.toOption, List.isPrefixOf_iff_prefix, List.cons_prefix_iff]
  all_goals rfl

theorem toOption_eq_some_iff {ε α : Type} {outcome : Except ε α} {a : α} :
    outcome.toOption = some a ↔ outcome = .ok a := by
  cases outcome <;> simp [Except.toOption]

theorem markAt_of_markOf? {c : Char} {body rest : List Char} {token : Token}
    (h : markOf? (c :: rest) = some (c :: body, token)) :
    markAt c rest = .ok (token, body.length) := by
  rw [← toOption_eq_some_iff, toOption_markAt, h]
  rfl

theorem exists_mark_of_markAt {c : Char} {rest : List Char} {token : Token} {width : Nat}
    (h : markAt c rest = .ok (token, width)) :
    ∃ body after, rest = body ++ after ∧ body.length = width ∧
      markOf? (c :: rest) = some (c :: body, token) := by
  rw [← toOption_eq_some_iff, toOption_markAt, Option.map_eq_some_iff] at h
  obtain ⟨⟨cs, t⟩, hFound, hSame⟩ := h
  obtain ⟨hMem, hPrefix⟩ := mem_and_prefix_of_markOf? hFound
  obtain ⟨d, body, rfl⟩ := List.exists_cons_of_ne_nil (marks_not_blank _ hMem).1
  obtain ⟨rfl, after, hAfter⟩ := List.cons_prefix_cons.mp hPrefix
  cases hSame
  exact ⟨body, after, hAfter.symm, rfl, hFound⟩

/-- The characters that the lexer takes for a token spell it. -/
theorem spells_of_tokenAt {c : Char} {rest : List Char} {token : Token} {width : Nat}
    (h : tokenAt c rest = .ok (token, width)) :
    ∃ body after, rest = body ++ after ∧ body.length = width ∧ Spells token (c :: body) := by
  -- the branches are the readers of numbers, texts, names and marks, in this order
  unfold tokenAt at h
  split at h
  case isTrue hDigit =>
    obtain ⟨after, hAfter⟩ := prefix_numberTail rest
    dsimp only at h
    split at h
    case h_1 x hValue =>
      cases h
      exact ⟨_, after, hAfter.symm, rfl, .number hDigit (digits_numberTail rest) hValue⟩
    case h_2 => cases h
  case isFalse hDigit =>
    split at h
    case isTrue hMark =>
      split at h
      case h_1 text _ hTail =>
        cases h
        obtain ⟨body, after, hRest, hLength, hBody⟩ := quoted_of_textTail hTail
        exact ⟨body, after, hRest, hLength, .text hMark hBody⟩
      case h_2 => cases h
    case isFalse hMark =>
      split at h
      case isTrue hName =>
        dsimp only at h
        split at h
        case h_1 t hWord =>
          cases h
          refine ⟨_, rest.dropWhile isNamePart, List.takeWhile_append_dropWhile.symm, rfl, ?_⟩
          refine spells_of_wordToken hName (fun d hd => ?_) hWord
          exact List.all_eq_true.mp List.all_takeWhile d hd
        case h_2 => cases h
      case isFalse hName =>
        split at h
        case h_1 hMarked =>
          cases h
          obtain ⟨body, after, hRest, hLength, hFound⟩ := exists_mark_of_markAt hMarked
          exact ⟨body, after, hRest, hLength, .mark (mem_and_prefix_of_markOf? hFound).1⟩
        case h_2 => cases h

end Workflow.Expr

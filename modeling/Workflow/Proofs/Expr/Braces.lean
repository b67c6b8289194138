/-
Workflow.Proofs.Expr.Braces — expressions with braces and without.

A condition or a collection may stand in braces or not. The braces make it
a template, whose split knows quotations and nothing else of expressions;
without them it goes to the lexer, which reads texts in quotation marks
among its tokens. The two agree on where a quotation ends, and no token
shows a closing brace: so the region that the braces open is closed by
those behind the text, and its body is the text. The two places that the
opening braces take are all that errors can tell.

* `Secluded` — a text that leaves no quotation open and shows no closing
  brace; `secluded_of_tokenize`: a text that has tokens is one.
* `segments_braced` — a text in braces is a region and nothing else.
* `evalRegion_add` — an error moves with the place of its region.
* `braces_optional` — conditions and collections are the same in braces.
-/
import Workflow.Proofs.Expr.Obstruction
import Workflow.Proofs.Expr.Outcome
import Workflow.Proofs.Expr.Spelling

namespace Workflow.Expr

/-! ## Texts that keep to themselves -/

/-- A text leaves no quotation open, and shows no closing brace outside of its quotations. -/
structure Secluded (cs : List Char) : Prop where
  outside : Place.outside.after cs = .outside
  unbraced : '\x7d' ∉ exposed .outside cs

/-- Neither a quotation mark nor a closing brace. -/
def IsBare (c : Char) : Prop := c ≠ '\'' ∧ c ≠ '"' ∧ c ≠ '\x7d'

instance (c : Char) : Decidable (IsBare c) :=
  inferInstanceAs (Decidable (c ≠ '\'' ∧ c ≠ '"' ∧ c ≠ '\x7d'))

section

variable {c q : Char} {as bs cs body rest : List Char} {width : Nat}

theorem Secluded.append (ha : Secluded as) (hb : Secluded bs) : Secluded (as ++ bs) where
  outside := by rw [Place.after_append, ha.outside, hb.outside]
  unbraced := by
    rw [exposed_append, ha.outside, List.mem_append]
    exact not_or_intro ha.unbraced hb.unbraced

theorem IsBare.next (h : IsBare c) : Place.outside.next c = .outside :=
  Place.next_outside (not_or_intro h.1 h.2.1)

theorem Secluded.nil : Secluded [] := ⟨rfl, nofun⟩

theorem Secluded.cons (hc : IsBare c) (h : Secluded cs) : Secluded (c :: cs) where
  outside := by rw [Place.after_cons, hc.next, h.outside]
  unbraced := by
    rw [exposed_outside_cons, hc.next, List.mem_cons]
    exact not_or_intro (Ne.symm hc.2.2) h.unbraced

theorem Secluded.of_bare (h : ∀ c ∈ cs, IsBare c) : Secluded cs := by
  induction cs with
  | nil => exact .nil
  | cons c cs ih =>
    exact .cons (h c List.mem_cons_self) (ih fun d hd => h d (List.mem_cons_of_mem _ hd))

/-- The closing braces behind the text are the first outside of quotations. -/
theorem Secluded.closes (h : Secluded cs) (rest : List Char) :
    Closes .outside (cs ++ '\x7d' :: '\x7d' :: rest) cs rest := by
  refine ⟨⟨rfl, h.outside⟩, fun body' rest' hAt => Nat.le_of_not_lt fun hShorter => h.unbraced ?_⟩
  -- A brace in front of them would be part of the text.
  rcases List.append_eq_append_iff.mp hAt.eq with ⟨as, rfl, -⟩ | ⟨bs, rfl, hMore⟩
  · rw [List.length_append] at hShorter
    omega
  · cases bs with
    | nil => simp at hShorter
    | cons d more =>
      obtain ⟨rfl, -⟩ := List.cons.inj hMore
      have hOutside : Place.outside.after body' = .outside := hAt.free
      rw [exposed_append, hOutside, exposed_outside_cons]
      exact List.mem_append_right _ List.mem_cons_self

/-! ## Tokens -/

/-- A text ends a quotation, and not before its last character. -/
structure Encloses (place : Place) (cs : List Char) : Prop where
  outside : place.after cs = .outside
  hidden : exposed place cs = []

theorem Encloses.cons {place : Place} (hPlace : place ≠ .outside)
    (h : Encloses (place.next c) cs) : Encloses place (c :: cs) where
  outside := h.outside
  hidden := (exposed_cons_of_ne hPlace c cs).trans h.hidden

/-- The lexer ends a text in quotation marks where the quotation ends. -/
theorem Quoted.encloses {text : List Char} (hEscape : q ≠ '\\') (h : Quoted q cs text) :
    Encloses (.quoted q) cs := by
  induction h with
  | close =>
    refine .cons nofun ?_
    rw [Place.next_quoted_mark hEscape]
    exact ⟨rfl, rfl⟩
  | escape c _ ih =>
    refine .cons nofun ?_
    rw [Place.next_quoted_backslash]
    exact .cons nofun ih
  | plain hNot hMark _ ih =>
    refine .cons nofun ?_
    rw [Place.next_quoted hNot hMark]
    exact ih

/-- A quotation keeps to itself: of its characters only the opening mark stands outside. -/
theorem Encloses.secluded (hMark : c = '\'' ∨ c = '"') (h : Encloses (.quoted c) cs) :
    Secluded (c :: cs) where
  outside := by rw [Place.after_cons, Place.next_outside_of_mark hMark, h.outside]
  unbraced := by
    rw [exposed_outside_cons, Place.next_outside_of_mark hMark, h.hidden]
    rcases hMark with rfl | rfl <;> decide

theorem IsBare.of_test {p : Char → Bool} (hMark : p '\'' = false) (hMark' : p '"' = false)
    (hBrace : p '\x7d' = false) (h : p c = true) : IsBare c := by
  refine ⟨?_, ?_, ?_⟩
  all_goals
    rintro rfl
    simp_all

theorem isBare_of_isDigit (h : c.isDigit = true) : IsBare c :=
  .of_test rfl rfl rfl h

theorem isBare_of_isNamePart (h : isNamePart c = true) : IsBare c :=
  .of_test (p := isNamePart) rfl rfl rfl h

theorem Digits.bare (h : Digits cs) : ∀ d ∈ cs, IsBare d := by
  induction h with
  | nil => exact List.forall_mem_nil _
  | digit hc _ ih => exact List.forall_mem_cons.mpr ⟨isBare_of_isDigit hc, ih⟩
  | point _ _ ih => exact List.forall_mem_cons.mpr ⟨by decide, ih⟩

theorem marks_bare : ∀ m ∈ marks, ∀ d ∈ m.1, IsBare d := by
  have hMarks : ∀ m ∈ marks, m.1.all (IsBare ·) = true := by decide
  simpa only [List.all_eq_true, decide_eq_true_eq] using hMarks

theorem literals_bare : ∀ m ∈ literals, ∀ d ∈ m.1.toList, IsBare d := by
  have hLiterals : ∀ m ∈ literals, m.1.toList.all (IsBare ·) = true := by decide +kernel
  simpa only [List.all_eq_true, decide_eq_true_eq] using hLiterals

/-- A token keeps to itself: its characters are bare, or it is a quotation. -/
theorem Spells.secluded {token : Token} (h : Spells token cs) : Secluded cs := by
  cases h with
  | number hc h _ => exact .of_bare (List.forall_mem_cons.mpr ⟨isBare_of_isDigit hc, h.bare⟩)
  | text hMark h =>
    refine Encloses.secluded hMark (h.encloses ?_)
    rcases hMark with rfl | rfl <;> decide
  | root _ h =>
    exact .of_bare (List.forall_mem_cons.mpr ⟨by decide, fun d hd => isBare_of_isNamePart (h d hd)⟩)
  | literal h => exact .of_bare (literals_bare _ h)
  | ident hc _ h _ =>
    exact .of_bare (List.forall_mem_cons.mpr
      ⟨.of_test (p := isNameStart) rfl rfl rfl hc, fun d hd => isBare_of_isNamePart (h d hd)⟩)
  | mark h => exact .of_bare (marks_bare _ h)

theorem secluded_of_lexemesFrom {position : Nat} {lexemes : List Lexeme}
    (h : lexemesFrom position cs = .ok lexemes) : Secluded cs := by
  fun_induction lexemesFrom position cs generalizing lexemes with
  | case1 => exact .nil
  | case2 position c rest hBlank ih =>
    exact .cons (.of_test (p := Text.isBlank) rfl rfl rfl hBlank) (ih h)
  | case3 => cases h
  | case4 position c rest hBlank token width hToken more hMore ih =>
    obtain ⟨body, after, rfl, rfl, hSpells⟩ := spells_of_tokenAt hToken
    rw [List.drop_left] at hMore ih
    exact hSpells.secluded.append (ih hMore)
  | case5 => cases h

theorem secluded_of_tokenize {lexemes : List Lexeme} (h : tokenize cs = .ok lexemes) :
    Secluded cs :=
  secluded_of_lexemesFrom h

end

/-! ## A text in braces -/

/-- A text in braces. -/
def braced (text : String) : String := "\x7b\x7b" ++ text ++ "\x7d\x7d"

theorem toList_braced (text : String) :
    (braced text).toList = '\x7b' :: '\x7b' :: (text.toList ++ ['\x7d', '\x7d']) := by
  simp [braced]

theorem hasRegion_iff (cs : List Char) : hasRegion cs = true ↔ ['\x7b', '\x7b'] <:+: cs := by
  fun_induction hasRegion cs with
  | case1 more => exact iff_of_true rfl (List.infix_cons_iff.mpr (.inl (List.prefix_append _ more)))
  | case2 c rest hNot ih =>
    rw [ih, List.infix_cons_iff, or_iff_right]
    rintro ⟨more, hMore⟩
    obtain ⟨rfl, rfl⟩ := List.cons.inj hMore
    exact hNot more rfl rfl
  | case3 => simp

section

variable {text : String}

theorem segments_braced (h : Secluded text.toList) (hPlain : Plain .outside text.toList) :
    segments (braced text).toList = .ok [.region text.toList 2] := by
  have hFind : findClose none (text.toList ++ ['\x7d', '\x7d']) = .closed text.toList [] :=
    findClose_eq_closed_iff.mpr ⟨h.closes [], hPlain⟩
  rw [toList_braced, segments, segmentsFrom_open, regionFrom, hFind]
  simp [segmentsFrom, withText]

/-- The region that the braces open is all there is. -/
theorem evaluateBare_braced (ctx : DataContext) (h : Secluded text.toList)
    (hPlain : Plain .outside text.toList) :
    evaluateBare ctx (braced text) = asFault (evalRegion ctx text.toList 2) := by
  have hRegion : hasRegion (braced text).toList = true := by
    rw [toList_braced, hasRegion]
  rw [evaluateBare, if_pos hRegion, evaluate, segments_braced h hPlain]
  rfl

end

/-! ## Places -/

theorem EvaluationError.shift_of_not_isOfForm {e : EvaluationError} (h : ¬ e.IsOfForm)
    (offset : Nat) : e.shift offset = e := by
  cases e <;> first | rfl | exact absurd trivial h

theorem EvaluationError.shift_shift (e : EvaluationError) (m n : Nat) :
    (e.shift m).shift n = e.shift (m + n) := by
  cases e <;> simp [EvaluationError.shift, Nat.add_assoc]

theorem OfValues.mapError_shift {α : Type} {outcome : Except EvaluationError α}
    (h : OfValues outcome) (offset : Nat) : outcome.mapError (·.shift offset) = outcome := by
  cases outcome with
  | ok a => rfl
  | error e =>
    exact congrArg Except.error (EvaluationError.shift_of_not_isOfForm (h.not_form e rfl) offset)

/-- An error moves with the place of its region if it is of form, and has no place otherwise. -/
theorem evalRegion_add (ctx : DataContext) (body : List Char) (m n : Nat) :
    evalRegion ctx body (m + n) = (evalRegion ctx body m).mapError (·.shift n) := by
  unfold evalRegion parseRegion
  cases parse body with
  | error e => exact congrArg Except.error (e.shift_shift m n).symm
  | ok e => exact ((eval_ofValues ctx e).mapError_shift n).symm

/-- The same value, or the same error at a place that is `offset` further on. -/
inductive SameFurtherOn {α : Type} (offset : Nat) : Except Fault α → Except Fault α → Prop where
  | value (a : α) : SameFurtherOn offset (.ok a) (.ok a)
  | error (e : EvaluationError) :
    SameFurtherOn offset (.error (.error e)) (.error (.error (e.shift offset)))

theorem sameFurtherOn_asFault {α : Type} (outcome : Except EvaluationError α) (offset : Nat) :
    SameFurtherOn offset (asFault outcome) (asFault (outcome.mapError (·.shift offset))) := by
  cases outcome with
  | ok a => exact .value a
  | error e => exact .error e

section

variable {text : String}

theorem evaluateBare_sameFurtherOn {lexemes : List Lexeme}
    (hTokens : tokenize text.toList = .ok lexemes)
    (hOpen : ¬ ['\x7b', '\x7b'] <:+: text.toList) (hPlain : Plain .outside text.toList)
    (ctx : DataContext) :
    SameFurtherOn 2 (evaluateBare ctx text) (evaluateBare ctx (braced text)) := by
  have hBare : hasRegion text.toList = false := by
    rwa [Bool.eq_false_iff, Ne, hasRegion_iff]
  rw [evaluateBare_braced ctx (secluded_of_tokenize hTokens) hPlain, evaluateBare, hBare,
    evalRegion_add ctx text.toList 0 2]
  exact sameFurtherOn_asFault _ 2

theorem evaluateCondition_sameFurtherOn {ctx : DataContext} {text' : String} {offset : Nat}
    (h : SameFurtherOn offset (evaluateBare ctx text) (evaluateBare ctx text')) :
    SameFurtherOn offset (evaluateCondition ctx text) (evaluateCondition ctx text') := by
  unfold evaluateCondition
  generalize evaluateBare ctx text = result at h
  generalize evaluateBare ctx text' = result' at h
  cases h with
  | error e => exact .error e
  | value v =>
    cases v with
    | arr items => exact .error (.notACondition .array)
    | obj entries => exact .error (.notACondition .object)
    | _ => exact .value _

theorem evaluateCollection_sameFurtherOn {ctx : DataContext} {text' : String} {offset : Nat}
    (h : SameFurtherOn offset (evaluateBare ctx text) (evaluateBare ctx text')) :
    SameFurtherOn offset (evaluateCollection ctx text) (evaluateCollection ctx text') := by
  unfold evaluateCollection
  generalize evaluateBare ctx text = result at h
  generalize evaluateBare ctx text' = result' at h
  cases h with
  | error e => exact .error e
  | value v =>
    cases v with
    | arr items => exact .value items
    | _ => exact .error (.notIterable _)

/-- Braces around a text that has tokens, no opening braces and nothing beyond ASCII outside of its
quotations make no difference but for the two places that they take. -/
theorem braces_optional {lexemes : List Lexeme} (hTokens : tokenize text.toList = .ok lexemes)
    (hOpen : ¬ ['\x7b', '\x7b'] <:+: text.toList) (hPlain : Plain .outside text.toList)
    (ctx : DataContext) :
    SameFurtherOn 2 (evaluateCondition ctx text) (evaluateCondition ctx (braced text)) ∧
      SameFurtherOn 2 (evaluateCollection ctx text) (evaluateCollection ctx (braced text)) := by
  have hBare := evaluateBare_sameFurtherOn hTokens hOpen hPlain ctx
  exact ⟨evaluateCondition_sameFurtherOn hBare, evaluateCollection_sameFurtherOn hBare⟩

end

/-- A quotation with a character of two bytes behind a backslash, closing braces, and a mark behind
another backslash. -/
def quotedText : String := "$json == '\\é\x7d\x7d\\''"

/-- The text in the quotation as the current item. -/
def quotedContext : DataContext where
  json := .str "é\x7d\x7d'"
  node := []
  context := []
  workflow := .null
  execution := .null
  now := ⟨0, 0⟩

/-- The text equals the item, in braces and without. -/
theorem braces_optional_quotedText :
    evaluateCondition quotedContext quotedText = .ok true ∧
      evaluateCondition quotedContext (braced quotedText) = .ok true := by
  have hTokens : (tokenize quotedText.toList).toOption.isSome = true := by decide +kernel
  have hOpen : ¬ ['\x7b', '\x7b'] <:+: quotedText.toList := by
    rw [← hasRegion_iff]
    decide +kernel
  have hPlain : Plain .outside quotedText.toList := by decide +kernel
  have hTrue : (evaluateCondition quotedContext quotedText).toOption = some true := by
    decide +kernel
  cases hLexemes : tokenize quotedText.toList with
  | error => simp [hLexemes, Except.toOption] at hTokens
  | ok lexemes =>
    obtain ⟨hSame, -⟩ := braces_optional hLexemes hOpen hPlain quotedContext
    generalize evaluateCondition quotedContext quotedText = result at hSame hTrue
    generalize evaluateCondition quotedContext (braced quotedText) = result' at hSame
    cases hSame with
    | error => cases hTrue
    | value b =>
      cases hTrue
      exact ⟨rfl, rfl⟩

end Workflow.Expr

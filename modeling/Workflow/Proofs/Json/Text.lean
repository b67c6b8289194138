/-
Workflow.Proofs.Json.Text — JSON text read back.

The text of a value is cut into its symbols: every bracket, comma and colon
is one, every text between quotation marks, every word and every number,
which must not run into what follows. From the symbols of a value the reader
builds the document of that value in the innermost open container. Both
facts are by induction on the value.

* `escapeChar` and `readText` — `readText_quoted`.
* `Chunk`, `Word` — characters that are cut into symbols.
* `symbols`, `word_pretty` — the symbols of a value and of its text.
* `foldlM_symbols` — the document built from the symbols.
* `readDocument?_pretty`, `read?_pretty` — a value, read back from its text.
-/
import Mathlib.Data.List.Forall2
import Mathlib.Data.List.TakeWhile
import Workflow.Json.Reader
import Workflow.Json.Writer
import Workflow.Proofs.Document.Values

namespace Workflow.Json

/-! ## Texts between quotation marks -/

theorem hexQuad?_escape {n : Nat} (h : n < 32) :
    hexQuad? '0' '0' (Nat.digitChar (n / 16)) (Nat.digitChar (n % 16)) = some n := by
  revert n
  decide

theorem readText_short {acc rest : List Char} {width : Nat} {c e : Char}
    (h : shortEscape? c = some e) :
    readText acc true width ('\\' :: c :: rest) = readText (e :: acc) true (width + 2) rest := by
  have hUnicode : c ≠ 'u' := by
    rintro rfl
    cases h
  rw [readText.eq_def]
  split
  case h_6 hNot heq =>
    obtain ⟨hSlash, hRest⟩ := List.cons.inj heq
    exact absurd hRest.symm (hNot _ _ hSlash.symm)
  all_goals simp_all

theorem readText_unicode {acc rest : List Char} {width : Nat} {a b : Char} {n : Nat}
    (hQuad : hexQuad? '0' '0' a b = some n) (h : n < 32) :
    readText acc true width ('\\' :: 'u' :: '0' :: '0' :: a :: b :: rest) =
      readText (Char.ofNat n :: acc) true (width + 6) rest := by
  have hHigh : isHighHalf n = false := by
    simp only [isHighHalf, Bool.and_eq_false_imp, decide_eq_true_eq]
    omega
  have hLow : isLowHalf n = false := by
    simp only [isLowHalf, Bool.and_eq_false_imp, decide_eq_true_eq]
    omega
  rw [readText.eq_def]
  split
  case h_3 heq =>
    simp only [List.cons.injEq] at heq
    obtain ⟨-, -, rfl, rfl, rfl, rfl, rfl⟩ := heq
    simp only [hQuad, hHigh, hLow, Bool.false_eq_true, if_false, Bool.not_false, Bool.and_true]
  case h_4 heq =>
    simp only [List.cons.injEq] at heq
    obtain ⟨-, -, rfl, rfl, rfl, rfl, rfl⟩ := heq
    simp only [hQuad, hHigh, hLow, Bool.not_false, Bool.and_true]
  case h_5 hNot heq =>
    obtain ⟨-, heq⟩ := List.cons.inj heq
    obtain ⟨hLetter, hRest⟩ := List.cons.inj heq
    exact absurd hRest.symm (hNot _ _ _ _ _ hLetter.symm)
  case h_6 hNot heq =>
    obtain ⟨hSlash, hRest⟩ := List.cons.inj heq
    exact absurd hRest.symm (hNot _ _ hSlash.symm)
  all_goals simp_all

theorem readText_plain {acc rest : List Char} {width : Nat} {c : Char} (hQuote : c ≠ '"')
    (hBackslash : c ≠ '\\') (h : ¬c.toNat < 32) :
    readText acc true width (c :: rest) = readText (c :: acc) true (width + 1) rest := by
  rw [readText.eq_def]
  split
  case h_6 heq =>
    obtain ⟨rfl, rfl⟩ := List.cons.inj heq
    exact if_neg h
  all_goals simp_all

/-- One character, written and read. -/
theorem readText_escapeChar (c : Char) (acc rest : List Char) (width : Nat) :
    readText acc true width (escapeChar c ++ rest) =
      readText (c :: acc) true (width + (escapeChar c).length) rest := by
  unfold escapeChar
  repeat' split
  · rename_i h
    rcases Bool.or_eq_true_iff.mp h with h | h <;> obtain rfl := eq_of_beq h
    · exact readText_short rfl
    · exact readText_short rfl
  · rename_i h
    obtain rfl := eq_of_beq h
    exact readText_short rfl
  · rename_i h
    obtain rfl := eq_of_beq h
    exact readText_short rfl
  · rename_i h
    obtain rfl := eq_of_beq h
    exact readText_short rfl
  · rename_i h
    have hCode : c = Char.ofNat 8 := by rw [← eq_of_beq h, Char.ofNat_toNat]
    rw [hCode]
    exact readText_short rfl
  · rename_i h
    have hCode : c = Char.ofNat 12 := by rw [← eq_of_beq h, Char.ofNat_toNat]
    rw [hCode]
    exact readText_short rfl
  · rename_i h
    have hRead := @readText_unicode acc rest width _ _ _ (hexQuad?_escape h) h
    rwa [Char.ofNat_toNat] at hRead
  · rename_i h _ _ _ _ _ hControl
    obtain ⟨hQuote, hBackslash⟩ := not_or.mp (mt Bool.or_eq_true_iff.mpr h)
    exact readText_plain (mt beq_iff_eq.mpr hQuote) (mt beq_iff_eq.mpr hBackslash) hControl

/-- A text, written and read up to its closing mark. -/
theorem readText_quoted (cs acc rest : List Char) (width : Nat) :
    readText acc true width (cs.flatMap escapeChar ++ '"' :: rest) =
      some (some (String.ofList (acc.reverse ++ cs)),
        width + (cs.flatMap escapeChar).length + 1) := by
  induction cs generalizing acc width with
  | nil => simp [readText]
  | cons c cs ih =>
    rw [List.flatMap_cons, List.append_assoc, readText_escapeChar, ih]
    simp [Nat.add_assoc]

/-! ## Cutting text into symbols -/

/-- Characters that are cut into symbols, whatever follows. -/
def Chunk (cs : List Char) (symbols : List Symbol) : Prop :=
  ∀ acc rest, collectSymbols? acc (cs ++ rest) = collectSymbols? (symbols.reverse ++ acc) rest

/-- What follows a word or a number does not belong to it. -/
def Delimited (rest : List Char) : Prop :=
  ∀ c ∈ rest.head?, isNumberChar c = false ∧ c.isAlphanum = false

/-- Characters that are cut into symbols if they end there. -/
def Word (cs : List Char) (symbols : List Symbol) : Prop :=
  ∀ acc rest, Delimited rest →
    collectSymbols? acc (cs ++ rest) = collectSymbols? (symbols.reverse ++ acc) rest

section Chunks

variable {a b : List Char} {s t : List Symbol}

theorem Chunk.word (h : Chunk a s) : Word a s := fun acc rest _ => h acc rest

theorem chunk_nil : Chunk [] [] := fun _ _ => rfl

theorem Chunk.append (ha : Chunk a s) (hb : Chunk b t) : Chunk (a ++ b) (s ++ t) := fun acc rest => by
  rw [List.append_assoc, ha, hb, List.reverse_append, List.append_assoc]

theorem Chunk.append_word (ha : Chunk a s) (hb : Word b t) : Word (a ++ b) (s ++ t) :=
  fun acc rest hRest => by
    rw [List.append_assoc, ha, hb _ _ hRest, List.reverse_append, List.append_assoc]

theorem Word.append_chunk (ha : Word a s) (hb : Chunk b t) (hDelimiter : ∀ rest, Delimited (b ++ rest)) :
    Chunk (a ++ b) (s ++ t) := fun acc rest => by
  rw [List.append_assoc, ha _ _ (hDelimiter rest), hb, List.reverse_append, List.append_assoc]

theorem delimited_cons {c : Char} {rest : List Char}
    (h : isNumberChar c = false ∧ c.isAlphanum = false) : Delimited (c :: rest) := by
  intro d hd
  obtain rfl := Option.some.inj hd
  exact h

theorem chunk_symbol {c : Char} {symbol : Symbol} (hLayout : isLayout c = false)
    (h : ∀ rest, symbolAt? c rest = some (symbol, 0)) : Chunk [c] [symbol] := fun acc rest => by
  rw [List.singleton_append, collectSymbols?, hLayout, h]
  rfl

theorem chunk_openList : Chunk ['['] [.openList] := chunk_symbol (by decide) fun _ => rfl

theorem chunk_closeList : Chunk [']'] [.closeList] := chunk_symbol (by decide) fun _ => rfl

theorem chunk_openDict : Chunk ['\x7b'] [.openDict] := chunk_symbol (by decide) fun _ => rfl

theorem chunk_closeDict : Chunk ['\x7d'] [.closeDict] := chunk_symbol (by decide) fun _ => rfl

theorem chunk_comma : Chunk [','] [.comma] := chunk_symbol (by decide) fun _ => rfl

theorem chunk_colon : Chunk [':'] [.colon] := chunk_symbol (by decide) fun _ => rfl

/-- Blanks are no symbols. -/
theorem chunk_layout {cs : List Char} (h : ∀ c ∈ cs, isLayout c = true) : Chunk cs [] := by
  induction cs with
  | nil => exact chunk_nil
  | cons c rest ih =>
    obtain ⟨hFirst, hRest⟩ := List.forall_mem_cons.mp h
    intro acc more
    rw [List.cons_append, collectSymbols?, hFirst, if_pos rfl]
    exact ih hRest acc more

theorem chunk_quoteString (text : String) :
    Chunk (quoteString text).toList [.scalar (.text text)] := fun acc rest => by
  have hText : (quoteString text).toList ++ rest =
      '"' :: (text.toList.flatMap escapeChar ++ '"' :: rest) := by
    simp [quoteString]
  have hRead := readText_quoted text.toList [] rest 0
  have hSymbol : symbolAt? '"' (text.toList.flatMap escapeChar ++ '"' :: rest) =
      some (.scalar (.text text), (text.toList.flatMap escapeChar).length + 1) := by
    simp only [symbolAt?, hRead]
    simp
  have hDrop : (text.toList.flatMap escapeChar ++ '"' :: rest).drop
      ((text.toList.flatMap escapeChar).length + 1) = rest := by
    rw [List.append_cons]
    exact List.drop_left' (List.length_append ..)
  rw [hText, collectSymbols?, if_neg (by decide), hSymbol]
  simp only [hDrop]
  rfl

theorem takeWhile_delimited {p : Char → Bool} {cs rest : List Char} (h : ∀ c ∈ cs, p c = true)
    (hRest : ∀ c ∈ rest.head?, p c = false) : (cs ++ rest).takeWhile p = cs := by
  rw [List.takeWhile_append_of_pos h]
  cases rest with
  | nil => simp
  | cons c rest => simp [hRest c rfl]

/-- The text of a number is read as that number. -/
def Num.ReadsBack (n : Num) : Prop :=
  (∃ c ∈ n.text.toList.head?, c.isDigit ∨ c = '-') ∧ (∀ c ∈ n.text.toList, isNumberChar c = true) ∧
    (numberParts? n.text.toList).bind scaledNumber? = some n

-- The characters are checked one by one; a search through all characters there are would not end.
instance : DecidablePred Num.ReadsBack := fun n =>
  decidable_of_iff
    ((n.text.toList.head?.any fun c => c.isDigit || c == '-') = true ∧
      n.text.toList.all isNumberChar = true ∧
      (numberParts? n.text.toList).bind scaledNumber? = some n)
    (by simp [Num.ReadsBack, Option.any_eq_true])

theorem word_num {n : Num} (h : n.ReadsBack) : Word n.text.toList [.scalar (.num n)] := by
  obtain ⟨⟨c, hHead, hFirst⟩, hChars, hRead⟩ := h
  obtain ⟨cs, hText⟩ : ∃ cs, n.text.toList = c :: cs := by
    cases hList : n.text.toList with
    | nil =>
      rw [hList] at hHead
      cases hHead
    | cons d ds =>
      rw [hList] at hHead
      obtain rfl := Option.some.inj hHead
      exact ⟨ds, rfl⟩
  obtain ⟨parts, hParts, hNumber⟩ := Option.bind_eq_some_iff.mp hRead
  rw [hText] at hParts hChars ⊢
  intro acc rest hRest
  have hMore : (cs ++ rest).takeWhile isNumberChar = cs :=
    takeWhile_delimited (fun d hd => hChars d (List.mem_cons_of_mem _ hd)) fun d hd => (hRest d hd).1
  have hStart : (c.isDigit || c == '-') = true := by simpa using hFirst
  have hLayout : isLayout c = false := by
    rw [← Bool.not_eq_true]
    intro hBlank
    simp only [isLayout, Bool.or_eq_true, beq_iff_eq] at hBlank
    rcases hBlank with ((rfl | rfl) | rfl) | rfl <;> exact absurd hStart (by decide)
  have hSymbol : symbolAt? c (cs ++ rest) = some (.scalar (.num n), cs.length) := by
    unfold symbolAt?
    split
    case h_8 => simp only [hStart, if_true, hMore, hParts, hNumber, Option.map_some]
    all_goals exact absurd hStart (by decide)
  rw [List.cons_append, collectSymbols?, if_neg (by simp [hLayout]), hSymbol]
  simp

/-- A word of letters is read as a whole. -/
theorem word_scalar {word : String} {c : Char} {cs : List Char} {d : Document}
    (hWord : word.toList = c :: cs) (hLetters : ∀ c ∈ cs, c.isAlphanum = true)
    (h : ∀ rest, cs = rest.takeWhile Char.isAlphanum →
      symbolAt? c rest = some (.scalar d, cs.length)) (hLayout : isLayout c = false) :
    Word word.toList [.scalar d] := by
  rw [hWord]
  intro acc rest hRest
  have hMore : (cs ++ rest).takeWhile Char.isAlphanum = cs :=
    takeWhile_delimited hLetters fun d hd => (hRest d hd).2
  rw [List.cons_append, collectSymbols?, if_neg (by simp [hLayout]), h _ hMore.symm]
  simp

end Chunks

/-! ## The symbols of a value -/

mutual

/-- The symbols of the text of a value. -/
def symbols : Json → List Symbol
  | .null => [.scalar .null]
  | .bool b => [.scalar (.bool b)]
  | .num n => [.scalar (.num n)]
  | .str s => [.scalar (.text s)]
  | .arr items => .openList :: ([.comma].intercalate (itemSymbols items) ++ [.closeList])
  | .obj fields => .openDict :: ([.comma].intercalate (fieldSymbols fields) ++ [.closeDict])

/-- The symbols of the items of an array. -/
def itemSymbols : List Json → List (List Symbol)
  | [] => []
  | v :: rest => symbols v :: itemSymbols rest

/-- The symbols of the entries of an object. -/
def fieldSymbols : List (String × Json) → List (List Symbol)
  | [] => []
  | (k, v) :: rest => (.scalar (.text k) :: .colon :: symbols v) :: fieldSymbols rest

end

/-- Parts of a text, each with the symbols it is cut into. -/
def Words (parts : List String) (symbols : List (List Symbol)) : Prop :=
  List.Forall₂ (fun part s => Word part.toList s) parts symbols

theorem chunk_separator : Chunk ",\n".toList [.comma] :=
  chunk_comma.append (chunk_layout (List.forall_mem_singleton.mpr rfl))

theorem chunk_indentation (level : Nat) : Chunk (indentation level).toList [] := by
  refine chunk_layout fun c hc => ?_
  rw [indentation, String.toList_ofList] at hc
  rw [List.eq_of_mem_replicate hc]
  rfl

/-- Parts, one a line, with commas between them. -/
theorem word_lines {level : Nat} {parts : List String} {symbols : List (List Symbol)}
    (h : Words parts symbols) (hSome : parts ≠ []) :
    Word (String.intercalate ",\n" (parts.map (indentation level ++ ·))).toList
      ([.comma].intercalate symbols) := by
  induction h with
  | nil => exact absurd rfl hSome
  | @cons part s parts symbols hPart hParts ih =>
    have hLine : Word (indentation level ++ part).toList s := by
      rw [String.toList_append]
      exact (chunk_indentation level).append_word hPart
    cases hParts with
    | nil => simpa using hLine
    | @cons next t parts symbols hNext hParts =>
      have hMore := ih nofun
      rw [List.map_cons, List.map_cons, String.intercalate_cons_cons, String.toList_append,
        String.toList_append, List.intercalate_cons_cons]
      have hSeparated := hLine.append_chunk chunk_separator fun rest => delimited_cons (by decide)
      exact hSeparated.append_word hMore

/-- Parts between brackets. -/
theorem chunk_bracketLines {opening closing : Char} {first last : Symbol}
    (hOpening : Chunk [opening] [first]) (hClosing : Chunk [closing] [last]) (level : Nat)
    {parts : List String} {symbols : List (List Symbol)} (h : Words parts symbols) :
    Chunk (bracketLines (String.singleton opening) (String.singleton closing) level parts).toList
      (first :: ([.comma].intercalate symbols ++ [last])) := by
  cases h with
  | nil => simpa [bracketLines] using hOpening.append hClosing
  | @cons part s parts symbols hPart hParts =>
    have hLines := @word_lines (level + 1) _ _ (.cons hPart hParts) nofun
    have hBreak : Chunk ['\n'] [] := chunk_layout (List.forall_mem_singleton.mpr rfl)
    have hEnd := (hBreak.append (chunk_indentation level)).append hClosing
    have hBody := hLines.append_chunk hEnd fun rest => delimited_cons (by decide)
    have hAll := (hOpening.append hBreak).append hBody
    simpa [bracketLines] using hAll

theorem words_prettyItems {level : Nat} {items : List Json}
    (h : ∀ v ∈ items, Word (prettyAt level v).toList (symbols v)) :
    Words (prettyItems level items) (itemSymbols items) := by
  induction items with
  | nil => exact .nil
  | cons v rest ih =>
    obtain ⟨hFirst, hRest⟩ := List.forall_mem_cons.mp h
    exact .cons hFirst (ih hRest)

theorem words_prettyFields {level : Nat} {fields : List (String × Json)}
    (h : ∀ e ∈ fields, Word (prettyAt level e.2).toList (symbols e.2)) :
    Words (prettyFields level fields) (fieldSymbols fields) := by
  induction fields with
  | nil => exact .nil
  | cons e rest ih =>
    obtain ⟨hFirst, hRest⟩ := List.forall_mem_cons.mp h
    refine .cons ?_ (ih hRest)
    have hColon : Chunk ": ".toList [.colon] :=
      chunk_colon.append (chunk_layout (List.forall_mem_singleton.mpr rfl))
    have hEntry := ((chunk_quoteString e.1).append hColon).append_word hFirst
    simpa using hEntry

theorem word_bool (b : Bool) :
    Word (if b then "true" else "false").toList [.scalar (.bool b)] := by
  cases b with
  | true =>
    have hTrue : ['r', 'u', 'e'].all Char.isAlphanum = true := rfl
    refine word_scalar rfl (List.all_eq_true.mp hTrue) (fun rest h => ?_) rfl
    simp only [symbolAt?, ← h]
    rfl
  | false =>
    have hFalse : ['a', 'l', 's', 'e'].all Char.isAlphanum = true := rfl
    refine word_scalar rfl (List.all_eq_true.mp hFalse) (fun rest h => ?_) rfl
    simp only [symbolAt?, ← h]
    rfl

theorem word_null : Word "null".toList [.scalar .null] := by
  have hLetters : ['u', 'l', 'l'].all Char.isAlphanum = true := rfl
  refine word_scalar rfl (List.all_eq_true.mp hLetters) (fun rest h => ?_) rfl
  simp only [symbolAt?, ← h]
  rfl

/-- The text of a value is cut into the symbols of the value. -/
theorem word_prettyAt {v : Json} (h : v.Proper Num.ReadsBack) (level : Nat) :
    Word (prettyAt level v).toList (symbols v) := by
  induction h generalizing level with
  | null => exact word_null
  | bool b => exact word_bool b
  | num h => exact word_num h
  | str s => exact (chunk_quoteString s).word
  | arr _ ih =>
    exact (chunk_bracketLines chunk_openList chunk_closeList level
      (words_prettyItems fun v hv => ih v hv (level + 1))).word
  | obj _ _ ih =>
    exact (chunk_bracketLines chunk_openDict chunk_closeDict level
      (words_prettyFields fun e he => ih e he (level + 1))).word

/-! ## Documents from symbols -/

theorem intercalate_comma (first : List Symbol) (rest : List (List Symbol)) :
    [.comma].intercalate (first :: rest) = first ++ rest.flatMap (.comma :: ·) := by
  induction rest generalizing first with
  | nil => simp
  | cons next rest ih =>
    rw [List.intercalate_cons_cons, ih, List.flatMap_cons, List.append_assoc, List.singleton_append,
      List.cons_append]

theorem foldlM_append_of {s t : List Symbol} {state next : ReaderState}
    (h : s.foldlM readStep state = some next) :
    (s ++ t).foldlM readStep state = t.foldlM readStep next := by
  rw [List.foldlM_append, h]
  rfl

/-- The symbols of a value, read where a value is expected, put its document into the innermost
open container. -/
def Builds (v : Json) : Prop :=
  ∀ stack next, deliver (.ofJson v) stack = some next →
    (symbols v).foldlM readStep (.value, stack) = some next

/-- Where an item or the end of a list may come, an item is read as a value. -/
theorem foldlM_firstItem (v : Json) (stack : List Frame) :
    (symbols v).foldlM readStep (.itemOrClose, stack) =
      (symbols v).foldlM readStep (.value, stack) := by
  cases v <;> rfl

theorem foldlM_moreItems {items : List Json} (h : ∀ v ∈ items, Builds v) (done : List Document)
    (stack : List Frame) :
    ((itemSymbols items).flatMap (.comma :: ·)).foldlM readStep
        (.commaOrClose, .list done :: stack) =
      some (.commaOrClose, .list ((Document.ofItems items).reverse ++ done) :: stack) := by
  induction items generalizing done with
  | nil => rfl
  | cons v rest ih =>
    obtain ⟨hFirst, hRest⟩ := List.forall_mem_cons.mp h
    have hItem : (.comma :: symbols v).foldlM readStep (.commaOrClose, .list done :: stack) =
        some (.commaOrClose, .list (.ofJson v :: done) :: stack) :=
      hFirst (.list done :: stack) _ rfl
    rw [itemSymbols, List.flatMap_cons, foldlM_append_of hItem, ih hRest, Document.ofItems,
      List.reverse_cons, List.append_assoc, List.singleton_append]

theorem builds_arr {items : List Json} (h : ∀ v ∈ items, Builds v) : Builds (.arr items) := by
  intro stack next hNext
  cases items with
  | nil =>
    exact congrArg (Option.bind · some) hNext
  | cons v rest =>
    obtain ⟨hFirst, hRest⟩ := List.forall_mem_cons.mp h
    have hOpen : (symbols v).foldlM readStep (.itemOrClose, .list [] :: stack) =
        some (.commaOrClose, .list [.ofJson v] :: stack) :=
      (foldlM_firstItem ..).trans (hFirst _ _ rfl)
    have hClose : closeFrame (.list ((Document.ofItems rest).reverse ++ [.ofJson v]) :: stack)
        .closeList = some next := by
      rw [closeFrame, List.reverse_append, List.reverse_reverse]
      exact hNext
    calc (symbols (.arr (v :: rest))).foldlM readStep (.value, stack)
        = (symbols v ++ ((itemSymbols rest).flatMap (Symbol.comma :: ·) ++ [Symbol.closeList])).foldlM
            readStep (.itemOrClose, .list [] :: stack) := by
          rw [symbols, itemSymbols, intercalate_comma, List.append_assoc]
          rfl
      _ = (closeFrame (.list ((Document.ofItems rest).reverse ++ [.ofJson v]) :: stack)
            .closeList).bind some := by
          rw [foldlM_append_of hOpen, foldlM_append_of (foldlM_moreItems hRest _ stack)]
          rfl
      _ = some next := by rw [hClose, Option.bind_some]

/-- One entry of an object, from its key. -/
theorem foldlM_entry {key : String} {v : Json} (h : Builds v) (done : List (Document × Document))
    (stack : List Frame) :
    (.scalar (.text key) :: .colon :: symbols v).foldlM readStep (.key, .dict done :: stack) =
      some (.commaOrClose, .dict ((.text key, .ofJson v) :: done) :: stack) :=
  h (.entry (.text key) done :: stack) _ rfl

theorem foldlM_moreFields {fields : List (String × Json)} (h : ∀ e ∈ fields, Builds e.2)
    (done : List (Document × Document)) (stack : List Frame) :
    ((fieldSymbols fields).flatMap (.comma :: ·)).foldlM readStep
        (.commaOrClose, .dict done :: stack) =
      some (.commaOrClose, .dict ((Document.ofFields fields).reverse ++ done) :: stack) := by
  induction fields generalizing done with
  | nil => rfl
  | cons e rest ih =>
    obtain ⟨hFirst, hRest⟩ := List.forall_mem_cons.mp h
    have hEntry : (.comma :: .scalar (.text e.1) :: .colon :: symbols e.2).foldlM readStep
        (.commaOrClose, .dict done :: stack) =
        some (.commaOrClose, .dict ((.text e.1, .ofJson e.2) :: done) :: stack) :=
      foldlM_entry hFirst done stack
    rw [fieldSymbols, List.flatMap_cons, foldlM_append_of hEntry, ih hRest, Document.ofFields,
      List.reverse_cons, List.append_assoc, List.singleton_append]

theorem builds_obj {fields : List (String × Json)} (h : ∀ e ∈ fields, Builds e.2) :
    Builds (.obj fields) := by
  intro stack next hNext
  cases fields with
  | nil =>
    exact congrArg (Option.bind · some) hNext
  | cons e rest =>
    obtain ⟨hFirst, hRest⟩ := List.forall_mem_cons.mp h
    have hOpen : (.scalar (.text e.1) :: .colon :: symbols e.2).foldlM readStep
        (.keyOrClose, .dict [] :: stack) =
        some (.commaOrClose, .dict [(.text e.1, .ofJson e.2)] :: stack) :=
      foldlM_entry hFirst [] stack
    have hClose : closeFrame
        (.dict ((Document.ofFields rest).reverse ++ [(.text e.1, .ofJson e.2)]) :: stack)
        .closeDict = some next := by
      rw [closeFrame, List.reverse_append, List.reverse_reverse]
      exact hNext
    calc (symbols (.obj (e :: rest))).foldlM readStep (.value, stack)
        = (Symbol.scalar (.text e.1) :: Symbol.colon :: symbols e.2 ++
            ((fieldSymbols rest).flatMap (Symbol.comma :: ·) ++ [Symbol.closeDict])).foldlM readStep
            (.keyOrClose, .dict [] :: stack) := by
          rw [symbols, fieldSymbols, intercalate_comma, List.append_assoc]
          rfl
      _ = (closeFrame
            (.dict ((Document.ofFields rest).reverse ++ [(.text e.1, .ofJson e.2)]) :: stack)
            .closeDict).bind some := by
          rw [foldlM_append_of hOpen, foldlM_append_of (foldlM_moreFields hRest _ stack)]
          rfl
      _ = some next := by rw [hClose, Option.bind_some]

/-- The document of a value is built from its symbols. -/
theorem foldlM_symbols {good : Num → Prop} {v : Json} (h : v.Proper good) : Builds v := by
  induction h with
  | null | bool | num | str =>
    intro stack next hNext
    exact congrArg (Option.bind · some) hNext
  | arr _ ih => exact builds_arr ih
  | obj _ _ ih => exact builds_obj ih

/-- The document of a value, read from its text. -/
theorem readDocument?_pretty {v : Json} (h : v.Proper Num.ReadsBack) :
    readDocument? v.pretty = some (.ofJson v) := by
  have hSymbols : symbols? v.pretty.toList = some (symbols v) := by
    have hWord := word_prettyAt h 0 [] [] nofun
    rw [List.append_nil, List.append_nil, collectSymbols?] at hWord
    rw [symbols?, pretty, hWord, Option.map_some, List.reverse_reverse]
  have hBuilds := foldlM_symbols h [] (.done (.ofJson v), []) rfl
  rw [readDocument?, hSymbols, Option.bind_some, hBuilds]

/-! ## Nesting -/

mutual

/-- How deep the containers of a value are nested. -/
def depth : Json → Nat
  | .null | .bool _ | .num _ | .str _ => 0
  | .arr items => itemsDepth items + 1
  | .obj fields => fieldsDepth fields + 1

/-- How deep the containers in the items of an array are nested. -/
def itemsDepth : List Json → Nat
  | [] => 0
  | v :: rest => max (depth v) (itemsDepth rest)

/-- How deep the containers in the entries of an object are nested. -/
def fieldsDepth : List (String × Json) → Nat
  | [] => 0
  | (_, v) :: rest => max (depth v) (fieldsDepth rest)

end

theorem withinItems_ofItems {items : List Json} {n : Nat}
    (h : ∀ v ∈ items, depth v ≤ n → (Document.ofJson v).within n = .ofJson v)
    (hDepth : itemsDepth items ≤ n) :
    Document.withinItems n (Document.ofItems items) = Document.ofItems items := by
  induction items with
  | nil => rfl
  | cons v rest ih =>
    obtain ⟨hFirst, hRest⟩ := List.forall_mem_cons.mp h
    obtain ⟨hDepthFirst, hDepthRest⟩ := Nat.max_le.mp hDepth
    rw [Document.ofItems, Document.withinItems, hFirst hDepthFirst, ih hRest hDepthRest]

theorem withinEntries_ofFields {fields : List (String × Json)} {n : Nat}
    (h : ∀ e ∈ fields, depth e.2 ≤ n → (Document.ofJson e.2).within n = .ofJson e.2)
    (hDepth : fieldsDepth fields ≤ n) :
    Document.withinEntries n (Document.ofFields fields) = Document.ofFields fields := by
  induction fields with
  | nil => rfl
  | cons e rest ih =>
    obtain ⟨hFirst, hRest⟩ := List.forall_mem_cons.mp h
    obtain ⟨hDepthFirst, hDepthRest⟩ := Nat.max_le.mp hDepth
    have hKey : (Document.text e.1).within n = .text e.1 := by simp [Document.within]
    rw [Document.ofFields, Document.withinEntries, hFirst hDepthFirst, ih hRest hDepthRest, hKey]

/-- A value that is not nested too deep stays as it is. -/
theorem within_ofJson {good : Num → Prop} {v : Json} (h : v.Proper good) {n : Nat}
    (hDepth : depth v ≤ n) : (Document.ofJson v).within n = .ofJson v := by
  induction h generalizing n with
  | null | bool | num | str => rfl
  | @arr items _ ih =>
    have hSome : n ≠ 0 := Nat.ne_zero_of_lt hDepth
    have hItems : itemsDepth items ≤ n - 1 := Nat.le_sub_one_of_lt hDepth
    rw [Document.ofJson, Document.within, if_neg hSome,
      withinItems_ofItems (fun v hv => ih v hv) hItems]
  | @obj fields _ _ ih =>
    have hSome : n ≠ 0 := Nat.ne_zero_of_lt hDepth
    have hFields : fieldsDepth fields ≤ n - 1 := Nat.le_sub_one_of_lt hDepth
    rw [Document.ofJson, Document.within, if_neg hSome,
      withinEntries_ofFields (fun e he => ih e he) hFields]

/-- The text of a value is read as the document of that value. -/
def ReadsBack (v : Json) : Prop :=
  (readDocument? v.pretty).map (Document.within depthLimit) = some (.ofJson v)

/-- A value whose numbers read back and that is not nested too deep reads back from its text. -/
theorem readsBack {v : Json} (h : v.Proper Num.ReadsBack) (hDepth : depth v ≤ depthLimit) :
    v.ReadsBack := by
  rw [ReadsBack, readDocument?_pretty h, Option.map_some, within_ofJson h hDepth]

theorem read?_pretty {v : Json} (h : v.Proper Num.ReadsBack) (hDepth : depth v ≤ depthLimit) :
    read? v.pretty = some v := by
  rw [read?, readDocument?_pretty h, Option.bind_some, within_ofJson h hDepth,
    Document.toJson?_ofJson h]

/-! ## Integers -/

/-- Digits whose value fits are all collected. -/
theorem collectDigits_of_lt {cs : List Char} {start : Nat}
    (h : Nat.ofDigitChars 10 cs start < collectBound) :
    collectDigits start cs = (Nat.ofDigitChars 10 cs start, []) := by
  induction cs generalizing start with
  | nil => rfl
  | cons c rest ih =>
    have hGrows : ∀ (cs : List Char) (n : Nat), n ≤ Nat.ofDigitChars 10 cs n := by
      intro cs
      induction cs with
      | nil => exact fun n => Nat.le_refl n
      | cons d cs ih =>
        intro n
        rw [Nat.ofDigitChars_cons]
        exact Nat.le_trans (by omega) (ih _)
    rw [Nat.ofDigitChars_cons] at h ⊢
    have hNext : 10 * start + (c.toNat - '0'.toNat) < collectBound :=
      Nat.lt_of_le_of_lt (hGrows rest _) h
    rw [collectDigits]
    simp only [hNext, if_true]
    exact ih h

theorem collectDigits_toDigits {n : Nat} (h : n < collectBound) :
    collectDigits 0 (Nat.toDigits 10 n) = (n, []) := by
  have hValue : Nat.ofDigitChars 10 (Nat.toDigits 10 n) 0 = n := Nat.ofDigitChars_ten_toDigits
  rw [collectDigits_of_lt (by rwa [hValue]), hValue]

/-- Digits do not start with a zero, except for the zero itself. -/
theorem head?_toDigits {n : Nat} (h : 0 < n) : (Nat.toDigits 10 n).head? ≠ some '0' := by
  induction n using Nat.strongRecOn with
  | ind n ih =>
    by_cases hSmall : n < 10
    · rw [Nat.toDigits_of_lt_base hSmall]
      intro hZero
      have hCode := congrArg Char.toNat (Option.some.inj hZero)
      rw [Nat.toNat_digitChar_of_lt_ten hSmall] at hCode
      have hZeroCode : '0'.toNat = 48 := rfl
      omega
    · rw [Nat.toDigits_of_base_le (by decide) (by omega), List.head?_append_of_ne_nil _
        Nat.toDigits_ne_nil]
      exact ih _ (by omega) (by omega)

/-- Digits, behind a sign or not, are a numeral. -/
theorem numberParts?_digits {negative : Bool} {digits : List Char} (hSome : digits ≠ [])
    (hDigits : ∀ c ∈ digits, c.isDigit = true)
    (hZero : digits.length = 1 ∨ digits.head? ≠ some '0') :
    numberParts? ((if negative then ['-'] else []) ++ digits) =
      some ⟨negative, digits, none, none⟩ := by
  have hTake : digits.takeWhile Char.isDigit = digits := List.takeWhile_eq_self_iff.mpr hDigits
  have hDrop : digits.dropWhile Char.isDigit = [] := List.dropWhile_eq_nil_iff.mpr hDigits
  have hSound : (!digits.isEmpty && (digits.length == 1 || digits.head? != some '0')) = true := by
    rcases hZero with hZero | hZero <;> simp [hSome, hZero]
  cases negative with
  | true =>
    simp only [numberParts?, if_true, List.singleton_append, hTake, hDrop, hSound]
    rfl
  | false =>
    obtain ⟨c, rest, rfl⟩ := List.exists_cons_of_ne_nil hSome
    have hMinus : c ≠ '-' := by
      rintro rfl
      exact absurd (hDigits '-' (List.mem_cons_self ..)) (by decide)
    simp only [numberParts?, Bool.false_eq_true, if_false, List.nil_append, List.cons.injEq, hMinus,
      false_and, imp_self, implies_true, hTake, hDrop, hSound]
    rfl

theorem numberParts?_toDigits (negative : Bool) (n : Nat) :
    numberParts? ((if negative then ['-'] else []) ++ Nat.toDigits 10 n) =
      some ⟨negative, Nat.toDigits 10 n, none, none⟩ := by
  refine numberParts?_digits Nat.toDigits_ne_nil
    (fun c hc => Nat.isDigit_of_mem_toDigits (by decide) (by decide) hc) ?_
  cases n with
  | zero => exact .inl rfl
  | succ n => exact .inr (head?_toDigits (Nat.succ_pos n))

theorem isNumberChar_of_mem_toDigits {n : Nat} {c : Char} (h : c ∈ Nat.toDigits 10 n) :
    isNumberChar c = true := by
  have hDigit : c.isDigit = true := Nat.isDigit_of_mem_toDigits (by decide) (by decide) h
  simp [isNumberChar, hDigit]

/-- The text of an integer of 64 bits is read as that integer. -/
theorem Num.readsBack_int {n : Int} (hLow : leastInt ≤ n) (hHigh : n ≤ greatestInt) :
    (Num.int n).ReadsBack := by
  have hLeast : leastInt = -9223372036854775808 := rfl
  have hGreatest : greatestInt = 18446744073709551615 := rfl
  have hBound : collectBound = 18446744073709551616 := rfl
  cases n with
  | ofNat n =>
    have hText : (Num.int (.ofNat n)).text.toList = Nat.toDigits 10 n :=
      (congrArg String.toList Nat.toString_eq_ofList_toDigits).trans String.toList_ofList
    have hFits : n < collectBound := by
      rw [Int.ofNat_eq_natCast] at hHigh
      omega
    refine ⟨?_, fun c hc => isNumberChar_of_mem_toDigits (hText ▸ hc), ?_⟩
    · obtain ⟨c, rest, hDigits⟩ := List.exists_cons_of_ne_nil (Nat.toDigits_ne_nil (n := n) (b := 10))
      have hMem : c ∈ Nat.toDigits 10 n := hDigits ▸ List.mem_cons_self ..
      rw [hText, hDigits]
      exact ⟨c, rfl, .inl (Nat.isDigit_of_mem_toDigits (by decide) (by decide) hMem)⟩
    · rw [hText]
      exact (congrArg (Option.bind · scaledNumber?) (numberParts?_toDigits false n)).trans (by
        simp [scaledNumber?, collectDigits_toDigits hFits])
  | negSucc n =>
    have hText : (Num.int (.negSucc n)).text.toList = '-' :: Nat.toDigits 10 (n + 1) := by
      have hDigits : (toString (n + 1)).toList = Nat.toDigits 10 (n + 1) :=
        (congrArg String.toList Nat.toString_eq_ofList_toDigits).trans String.toList_ofList
      calc (Num.int (.negSucc n)).text.toList
          = ("-" ++ toString (n + 1)).toList := rfl
        _ = '-' :: Nat.toDigits 10 (n + 1) := by rw [String.toList_append, hDigits]; rfl
    have hFits : n + 1 < collectBound := by omega
    have hSize : n < 9223372036854775808 := by omega
    refine ⟨⟨'-', by rw [hText]; rfl, .inr rfl⟩, fun c hc => ?_, ?_⟩
    · rw [hText] at hc
      rcases List.mem_cons.mp hc with rfl | hc
      · rfl
      · exact isNumberChar_of_mem_toDigits hc
    · rw [hText]
      exact (congrArg (Option.bind · scaledNumber?) (numberParts?_toDigits true (n + 1))).trans (by
        simp only [Option.bind_some, scaledNumber?, collectDigits_toDigits hFits]
        simp [Int.negSucc_eq]
        omega)

end Workflow.Json

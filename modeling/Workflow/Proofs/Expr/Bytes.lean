/-
Workflow.Proofs.Expr.Bytes — templates as bytes.

A template is stored as the bytes of its characters, and it is split byte
by byte: opening braces are two bytes, a backslash in a quotation takes the
next byte with it, which need not be a whole character, and outside of
quotations the rest of the template is sliced off at every byte. A slice at
a byte in the middle of a character crashes.

This split and that by characters have the same pieces at the same places,
the same errors and the same crashes.

* `bytesOf` — the bytes of a text.
* `splitBytes` — the split of a template byte by byte.
* `splitBytes_eq` — it is the split by characters.
* `CrashesExactly`, `crashesExactly` — the templates whose split, evaluation
  or check crashes.
-/
import Workflow.Proofs.Expr.Obstruction
import Workflow.Proofs.Expr.Split

namespace Workflow.Expr

/-! ## Characters as bytes -/

/-- The bytes of a text. -/
def bytesOf (cs : List Char) : List UInt8 := cs.flatMap String.utf8EncodeChar

@[simp] theorem bytesOf_nil : bytesOf [] = [] := rfl

@[simp] theorem bytesOf_cons (c : Char) (cs : List Char) :
    bytesOf (c :: cs) = String.utf8EncodeChar c ++ bytesOf cs := rfl

@[simp] theorem bytesOf_append (as bs : List Char) :
    bytesOf (as ++ bs) = bytesOf as ++ bytesOf bs := List.flatMap_append

@[simp] theorem length_bytesOf (cs : List Char) : (bytesOf cs).length = byteLength cs := by
  induction cs with
  | nil => rfl
  | cons c cs ih => simp [ih]

theorem toUTF8_eq (text : String) : text.toUTF8.data.toList = bytesOf text.toList := by
  rw [String.toUTF8, ← String.utf8Encode_toList]
  exact List.toList_data_toByteArray

/-- The only byte of a character of ASCII. -/
def byteOf (c : Char) : UInt8 := UInt8.ofNat c.toNat

/-- Whether a byte continues a character. -/
def isContinuation (b : UInt8) : Bool := 0x80 ≤ b && b < 0xC0

section

variable {c d : Char}

theorem utf8EncodeChar_of_small (h : c.toNat < 128) : String.utf8EncodeChar c = [byteOf c] := by
  have hLe : c.toNat ≤ 127 := by omega
  simp [String.utf8EncodeChar, hLe, byteOf]

theorem utf8Size_of_small (h : c.toNat < 128) : c.utf8Size = 1 := by
  rw [← String.length_utf8EncodeChar, utf8EncodeChar_of_small h, List.length_singleton]

theorem byteOf_toNat (h : c.toNat < 128) : (byteOf c).toNat = c.toNat := by
  simp [byteOf]
  omega

theorem byteOf_inj (hc : c.toNat < 128) (hd : d.toNat < 128) : byteOf c = byteOf d ↔ c = d := by
  rw [← UInt8.toNat_inj, byteOf_toNat hc, byteOf_toNat hd, Char.toNat_inj]

theorem isContinuation_iff (b : UInt8) :
    isContinuation b = true ↔ 128 ≤ b.toNat ∧ b.toNat < 192 := by
  simp [isContinuation, UInt8.le_iff_toNat_le, UInt8.lt_iff_toNat_lt]

theorem isContinuation_eq_false {b : UInt8} (h : b.toNat < 128 ∨ 192 ≤ b.toNat) :
    isContinuation b = false := by
  rw [Bool.eq_false_iff, Ne, isContinuation_iff]
  omega

theorem isContinuation_ofNat (n : Nat) : isContinuation (UInt8.ofNat (n % 64 + 128)) = true := by
  rw [isContinuation_iff, UInt8.toNat_ofNat']
  omega

/-- A character beyond ASCII is a leading byte and bytes that continue it. -/
theorem utf8EncodeChar_of_large (h : 128 ≤ c.toNat) :
    ∃ lead second more, String.utf8EncodeChar c = lead :: second :: more ∧ 192 ≤ lead.toNat ∧
      ∀ b ∈ second :: more, isContinuation b = true := by
  have hLarge : ¬ c.toNat ≤ 127 := by omega
  have hLead (n k : Nat) (hk : 192 ≤ k) (hn : n + k < 256) : 192 ≤ (UInt8.ofNat (n + k)).toNat := by
    rw [UInt8.toNat_ofNat']
    omega
  simp only [String.utf8EncodeChar, Char.toNat_val, hLarge, if_false]
  split
  · exact ⟨_, _, _, rfl, hLead _ _ (by omega) (by omega),
      by simp only [List.forall_mem_cons, isContinuation_ofNat, true_and]; nofun⟩
  · split
    · exact ⟨_, _, _, rfl, hLead _ _ (by omega) (by omega),
        by simp only [List.forall_mem_cons, isContinuation_ofNat, true_and]; nofun⟩
    · exact ⟨_, _, _, rfl, hLead _ _ (by omega) (by omega),
        by simp only [List.forall_mem_cons, isContinuation_ofNat, true_and]; nofun⟩

theorem utf8EncodeChar_cases (c : Char) :
    (c.toNat < 128 ∧ String.utf8EncodeChar c = [byteOf c]) ∨
      128 ≤ c.toNat ∧ ∃ lead second more, String.utf8EncodeChar c = lead :: second :: more ∧
        192 ≤ lead.toNat ∧ ∀ b ∈ second :: more, isContinuation b = true := by
  rcases Nat.lt_or_ge c.toNat 128 with hSmall | hLarge
  · exact .inl ⟨hSmall, utf8EncodeChar_of_small hSmall⟩
  · exact .inr ⟨hLarge, utf8EncodeChar_of_large hLarge⟩

end

theorem forall_mem_utf8EncodeChar {c : Char} (h : 128 ≤ c.toNat) :
    ∀ b ∈ String.utf8EncodeChar c, 128 ≤ b.toNat := by
  obtain ⟨lead, second, more, hEncode, hLead, hMore⟩ := utf8EncodeChar_of_large h
  rw [hEncode, List.forall_mem_cons]
  exact ⟨by omega, fun b hb => ((isContinuation_iff b).mp (hMore b hb)).1⟩

/-! ## The search for the end of a region -/

/-- How the search can come out: the place of the closing braces, no closing braces, or a crash. -/
inductive ByteEnd where
  | closed (index : Nat)
  | unclosed
  | crash
deriving DecidableEq, Repr

/-- Search for the end of a region from an index on; `quote` is the mark of the open quotation, if
there is one. Outside of quotations the bytes that are left are sliced off and compared with closing
braces. -/
def closeFrom (quote : Option UInt8) (index : Nat) : List UInt8 → ByteEnd
  | [] => .unclosed
  | b :: rest =>
    match quote with
    | some q =>
      if b = byteOf '\\' then
        match rest with
        | [] => .unclosed
        | _ :: more => closeFrom quote (index + 2) more
      else if b = q then closeFrom none (index + 1) rest
      else closeFrom quote (index + 1) rest
    | none =>
      if b = byteOf '\'' ∨ b = byteOf '"' then closeFrom (some b) (index + 1) rest
      else if isContinuation b then .crash
      else if b = byteOf '\x7d' ∧ rest.head? = some (byteOf '\x7d') then .closed index
      else closeFrom none (index + 1) rest

/-- The end of a region by the index of its closing braces. -/
def RegionEnd.toByteEnd (index : Nat) : RegionEnd → ByteEnd
  | .closed body _ => .closed (index + byteLength body)
  | .unclosed => .unclosed
  | .crash => .crash

theorem RegionEnd.toByteEnd_push (index : Nat) (c : Char) (found : RegionEnd) :
    (found.push c).toByteEnd index = found.toByteEnd (index + c.utf8Size) := by
  cases found <;> simp [RegionEnd.push, RegionEnd.toByteEnd, Nat.add_assoc]

section

variable {q b : UInt8} {index : Nat} {bytes rest : List UInt8}

theorem closeFrom_inside : closeFrom (some q) index (b :: rest) =
    if b = byteOf '\\' then
      match rest with
      | [] => .unclosed
      | _ :: more => closeFrom (some q) (index + 2) more
    else if b = q then closeFrom none (index + 1) rest
    else closeFrom (some q) (index + 1) rest :=
  closeFrom.eq_def (some q) index (b :: rest)

theorem closeFrom_escape :
    closeFrom (some q) index (byteOf '\\' :: b :: rest) = closeFrom (some q) (index + 2) rest := by
  rw [closeFrom_inside, if_pos rfl]

theorem closeFrom_closing (hEscape : q ≠ byteOf '\\') :
    closeFrom (some q) index (q :: rest) = closeFrom none (index + 1) rest := by
  rw [closeFrom_inside, if_neg hEscape, if_pos rfl]

theorem closeFrom_quoted (hEscape : b ≠ byteOf '\\') (hOther : b ≠ q) :
    closeFrom (some q) index (b :: rest) = closeFrom (some q) (index + 1) rest := by
  rw [closeFrom_inside, if_neg hEscape, if_neg hOther]

theorem closeFrom_outside : closeFrom none index (b :: rest) =
    if b = byteOf '\'' ∨ b = byteOf '"' then closeFrom (some b) (index + 1) rest
    else if isContinuation b then .crash
    else if b = byteOf '\x7d' ∧ rest.head? = some (byteOf '\x7d') then .closed index
    else closeFrom none (index + 1) rest :=
  closeFrom.eq_def none index (b :: rest)

theorem closeFrom_opening (h : q = byteOf '\'' ∨ q = byteOf '"') :
    closeFrom none index (q :: rest) = closeFrom (some q) (index + 1) rest := by
  rw [closeFrom_outside, if_pos h]

theorem closeFrom_text (hMark : ¬ (b = byteOf '\'' ∨ b = byteOf '"'))
    (hWhole : isContinuation b = false)
    (hEnd : ¬ (b = byteOf '\x7d' ∧ rest.head? = some (byteOf '\x7d'))) :
    closeFrom none index (b :: rest) = closeFrom none (index + 1) rest := by
  rw [closeFrom_outside, if_neg hMark, if_neg (by simp [hWhole]), if_neg hEnd]

theorem closeFrom_continuation (h : isContinuation b = true) :
    closeFrom none index (b :: rest) = .crash := by
  have hMark : ¬ (b = byteOf '\'' ∨ b = byteOf '"') := by
    rintro (rfl | rfl) <;> revert h <;> decide
  rw [closeFrom_outside, if_neg hMark, if_pos h]

/-- The bytes of a character beyond ASCII, or some of them, are nothing to a quotation. -/
theorem closeFrom_quoted_append (hQuote : q.toNat < 128) (h : ∀ b ∈ bytes, 128 ≤ b.toNat) :
    closeFrom (some q) index (bytes ++ rest) = closeFrom (some q) (index + bytes.length) rest := by
  induction bytes generalizing index with
  | nil => rfl
  | cons b bytes ih =>
    have hLarge : 128 ≤ b.toNat := h b List.mem_cons_self
    have hEscape : b ≠ byteOf '\\' := by
      rintro rfl
      revert hLarge
      decide
    have hOther : b ≠ q := by
      rintro rfl
      omega
    rw [List.cons_append, closeFrom_quoted hEscape hOther,
      ih fun b hb => h b (List.mem_cons_of_mem _ hb), List.length_cons]
    congr 1
    omega

end

section

variable {c d q : Char} {index : Nat} {bytes : List UInt8}

/-- Of a character in a quotation only a mark and a backslash matter. -/
theorem closeFrom_quoted_char (hQuote : q.toNat < 128) (hEscape : c ≠ '\\') (hOther : c ≠ q) :
    closeFrom (some (byteOf q)) index (String.utf8EncodeChar c ++ bytes) =
      closeFrom (some (byteOf q)) (index + c.utf8Size) bytes := by
  rw [← String.length_utf8EncodeChar]
  rcases Nat.lt_or_ge c.toNat 128 with hSmall | hLarge
  · rw [utf8EncodeChar_of_small hSmall]
    exact closeFrom_quoted (mt (byteOf_inj hSmall (by decide)).mp hEscape)
      (mt (byteOf_inj hSmall hQuote).mp hOther)
  · exact closeFrom_quoted_append (by rwa [byteOf_toNat hQuote]) (forall_mem_utf8EncodeChar hLarge)

/-- A backslash takes the first byte of a character, and the quotation takes its others. -/
theorem closeFrom_escaped_char (hQuote : q.toNat < 128) :
    closeFrom (some (byteOf q)) index (byteOf '\\' :: String.utf8EncodeChar c ++ bytes) =
      closeFrom (some (byteOf q)) (index + 1 + c.utf8Size) bytes := by
  rw [← String.length_utf8EncodeChar]
  rcases utf8EncodeChar_cases c with ⟨hSmall, hEncode⟩ | ⟨-, lead, second, more, hEncode, -, hMore⟩
  · rw [hEncode]
    exact closeFrom_escape
  · rw [hEncode, List.cons_append, List.cons_append, closeFrom_escape,
      closeFrom_quoted_append (by rwa [byteOf_toNat hQuote])
        fun b hb => ((isContinuation_iff b).mp (hMore b hb)).1]
    simp only [List.length_cons]
    congr 1
    omega

/-- Outside of quotations the first byte of a character beyond ASCII passes, and its second one is
not the place for a slice. -/
theorem closeFrom_large (h : 128 ≤ c.toNat) :
    closeFrom none index (String.utf8EncodeChar c ++ bytes) = .crash := by
  obtain ⟨lead, second, more, hEncode, hLead, hMore⟩ := utf8EncodeChar_of_large h
  have hNot (b : UInt8) (hb : b.toNat < 128) : lead ≠ b := by
    rintro rfl
    omega
  rw [hEncode, List.cons_append, List.cons_append,
    closeFrom_text _ (isContinuation_eq_false (.inr hLead))]
  · exact closeFrom_continuation (hMore second List.mem_cons_self)
  · exact fun hEnd => hNot _ (by decide) hEnd.1
  · rintro (hMark | hMark)
    · exact hNot _ (by decide) hMark
    · exact hNot _ (by decide) hMark

end

theorem head?_bytesOf_eq_iff {cs : List Char} {d : Char} (hd : d.toNat < 128) :
    (bytesOf cs).head? = some (byteOf d) ↔ cs.head? = some d := by
  cases cs with
  | nil => simp
  | cons c cs =>
    rw [bytesOf_cons]
    rcases utf8EncodeChar_cases c with
      ⟨hSmall, hEncode⟩ | ⟨hLarge, lead, second, more, hEncode, hLead, -⟩
    · simp [hEncode, byteOf_inj hSmall hd]
    · have hByte : lead ≠ byteOf d := by
        rintro rfl
        rw [byteOf_toNat hd] at hLead
        omega
      have hChar : c ≠ d := by
        rintro rfl
        omega
      simp [hEncode, hByte, hChar]

/-- The induction is on the search by characters; a mark is the same character and byte. -/
theorem closeFrom_bytesOf {mark : Option Char} (hMark : ∀ q ∈ mark, q = '\'' ∨ q = '"')
    (index : Nat) (cs : List Char) :
    closeFrom (mark.map byteOf) index (bytesOf cs) = (findClose mark cs).toByteEnd index := by
  have hSmall (q : Char) (h : q = '\'' ∨ q = '"') : q.toNat < 128 := by
    rcases h with rfl | rfl <;> decide
  have hNone : ∀ q ∈ (none : Option Char), q = '\'' ∨ q = '"' := by simp
  fun_induction findClose mark cs generalizing index with
  | case1 mark => rfl
  | case2 q => rfl
  | case3 q d more ih =>
    rw [RegionEnd.toByteEnd_push, RegionEnd.toByteEnd_push, ← ih hMark]
    exact closeFrom_escaped_char (hSmall q (hMark q rfl))
  | case4 more q hNot ih =>
    have hQuote := hSmall q (hMark q rfl)
    rw [RegionEnd.toByteEnd_push, ← ih hNone, bytesOf_cons, utf8EncodeChar_of_small hQuote,
      utf8Size_of_small hQuote]
    exact closeFrom_closing (mt (byteOf_inj hQuote (by decide)).mp hNot)
  | case5 d more q hNot hOther ih =>
    rw [RegionEnd.toByteEnd_push, ← ih hMark]
    exact closeFrom_quoted_char (hSmall q (hMark q rfl)) hNot hOther
  | case6 d more hQuote ih =>
    rw [RegionEnd.toByteEnd_push, ← ih (by simpa using hQuote), bytesOf_cons,
      utf8EncodeChar_of_small (hSmall d hQuote), utf8Size_of_small (hSmall d hQuote)]
    exact closeFrom_opening (by rcases hQuote with rfl | rfl <;> decide)
  | case7 c rest hNot hLarge => exact closeFrom_large hLarge
  | case8 more =>
    rw [bytesOf_cons, bytesOf_cons, utf8EncodeChar_of_small (by decide)]
    exact closeFrom_outside.trans rfl
  | case9 c rest hOther hNot hLarge ih =>
    have hByte : c.toNat < 128 := by omega
    rw [RegionEnd.toByteEnd_push, ← ih hNone, bytesOf_cons, utf8EncodeChar_of_small hByte,
      utf8Size_of_small hByte, List.singleton_append]
    refine closeFrom_text ?_ ?_ ?_
    · rw [byteOf_inj hByte (by decide), byteOf_inj hByte (by decide)]
      exact hNot
    · exact isContinuation_eq_false (.inl (by rwa [byteOf_toNat hByte]))
    · rw [byteOf_inj hByte (by decide), head?_bytesOf_eq_iff (by decide)]
      rintro ⟨hFirst, hSecond⟩
      obtain ⟨more, hMore⟩ := List.head?_eq_some_iff.mp hSecond
      exact hOther more hFirst hMore

-- The quotation hides closing braces, and its backslash takes the first of two bytes.
example : closeFrom none 0 (bytesOf ['\'', '\\', 'é', '\x7d', '\x7d', '\'', '\x7d', '\x7d']) =
    .closed 7 := by
  decide +kernel

/-! ## The split -/

/-- A piece of a template in bytes. -/
inductive ByteSegment where
  | text (bytes : List UInt8)
  | region (body : List UInt8) (offset : Nat)
deriving DecidableEq, Repr

/-- The bytes of a piece. -/
def Segment.toBytes : Segment → ByteSegment
  | .text cs => .text (bytesOf cs)
  | .region body offset => .region (bytesOf body) offset

/-- Text in front of the pieces that follow, if there is any. -/
def withBytes (bytes : List UInt8) (pieces : List ByteSegment) : List ByteSegment :=
  if bytes.isEmpty then pieces else .text bytes :: pieces

/-- Whether a template can be sliced in front of these bytes. -/
def onBoundary (bytes : List UInt8) : Bool := bytes.head?.all fun b => !isContinuation b

/-- The pieces of a template from a byte position on. The template is sliced where the last region
ends, and behind opening braces. -/
def splitFrom (position : Nat) (bytes : List UInt8) : Except Fault (List ByteSegment) :=
  if !onBoundary bytes then .error .crash
  else
    match _h : cutAtPair (byteOf '\x7b') bytes with
    | none => .ok (withBytes bytes [])
    | some (before, after) =>
      if !onBoundary after then .error .crash
      else
        match closeFrom none 0 after with
        | .crash => .error .crash
        | .unclosed => .error (.error (.unclosedRegion (position + before.length)))
        | .closed close =>
          match splitFrom (position + before.length + 4 + close) (after.drop (close + 2)) with
          | .ok more =>
            .ok (withBytes before
              (.region (after.take close) (position + before.length + 2) :: more))
          | .error fault => .error fault
termination_by bytes.length
decreasing_by
  have := length_of_cutAtPair _h
  simp only [List.length_drop]
  omega

/-- The pieces of a template. -/
def splitBytes (template : ByteArray) : Except Fault (List ByteSegment) :=
  splitFrom 0 template.data.toList

section

variable {α : Type} [DecidableEq α] {x a : α} {pre rest : List α}

theorem cutAtPair_cons (h : ¬ (a = x ∧ rest.head? = some x)) :
    cutAtPair x (a :: rest) = (cutAtPair x rest).map fun cut => (a :: cut.1, cut.2) :=
  if_neg h

theorem cutAtPair_append (h : x ∉ pre) :
    cutAtPair x (pre ++ rest) = (cutAtPair x rest).map fun cut => (pre ++ cut.1, cut.2) := by
  induction pre with
  | nil => simp
  | cons a pre ih =>
    have hFirst : ¬ (a = x ∧ (pre ++ rest).head? = some x) := fun hPair =>
      h (hPair.1 ▸ List.mem_cons_self)
    rw [List.cons_append, cutAtPair_cons hFirst, ih fun hMem => h (List.mem_cons_of_mem _ hMem),
      Option.map_map]
    rfl

end

theorem cutAtPair_bytesOf {d : Char} (hd : d.toNat < 128) (cs : List Char) :
    cutAtPair (byteOf d) (bytesOf cs) =
      (cutAtPair d cs).map fun cut => (bytesOf cut.1, bytesOf cut.2) := by
  fun_induction cutAtPair d cs with
  | case1 => rfl
  | case2 c rest hPair =>
    obtain ⟨rfl, hSecond⟩ := hPair
    obtain ⟨more, rfl⟩ := List.head?_eq_some_iff.mp hSecond
    simp [utf8EncodeChar_of_small hd, cutAtPair]
  | case3 c rest hNot ih =>
    rcases Nat.lt_or_ge c.toNat 128 with hSmall | hLarge
    · rw [bytesOf_cons, utf8EncodeChar_of_small hSmall, List.singleton_append, cutAtPair_cons, ih,
        Option.map_map, Option.map_map]
      · simp [Function.comp_def, utf8EncodeChar_of_small hSmall]
      · rwa [byteOf_inj hSmall hd, head?_bytesOf_eq_iff hd]
    · have hNone : byteOf d ∉ String.utf8EncodeChar c := fun hMem => by
        have hByte := forall_mem_utf8EncodeChar hLarge _ hMem
        rw [byteOf_toNat hd] at hByte
        omega
      rw [bytesOf_cons, cutAtPair_append hNone, ih, Option.map_map, Option.map_map]
      simp [Function.comp_def]

theorem onBoundary_bytesOf (cs : List Char) : onBoundary (bytesOf cs) = true := by
  cases cs with
  | nil => rfl
  | cons c cs =>
    rcases utf8EncodeChar_cases c with
      ⟨hSmall, hEncode⟩ | ⟨-, lead, second, more, hEncode, hLead, -⟩
    · have hWhole : isContinuation (byteOf c) = false :=
        isContinuation_eq_false (.inl (by rwa [byteOf_toNat hSmall]))
      simp [onBoundary, hEncode, hWhole]
    · simp [onBoundary, hEncode, isContinuation_eq_false (.inr hLead)]

theorem bytesOf_isEmpty (cs : List Char) : (bytesOf cs).isEmpty = cs.isEmpty := by
  cases cs with
  | nil => rfl
  | cons c cs =>
    rcases utf8EncodeChar_cases c with ⟨-, hEncode⟩ | ⟨-, lead, second, more, hEncode, -⟩ <;>
      simp [hEncode]

theorem map_toBytes_withText (cs : List Char) (pieces : List Segment) :
    (withText (cs.reverse ++ []) pieces).map Segment.toBytes =
      withBytes (bytesOf cs) (pieces.map Segment.toBytes) := by
  rw [withText, withBytes, bytesOf_isEmpty]
  cases cs with
  | nil => rfl
  | cons c cs => simp [Segment.toBytes]

theorem take_bytesOf (body rest : List Char) :
    (bytesOf (body ++ rest)).take (byteLength body) = bytesOf body := by
  rw [bytesOf_append, ← length_bytesOf, List.take_left]

theorem drop_bytesOf (body rest : List Char) :
    (bytesOf (body ++ '\x7d' :: '\x7d' :: rest)).drop (byteLength body + 2) = bytesOf rest := by
  rw [bytesOf_append, ← length_bytesOf, ← List.drop_drop, List.drop_left]
  rfl

/-- The split is by bytes what it is by characters. -/
theorem splitFrom_bytesOf (position : Nat) (cs : List Char) :
    splitFrom position (bytesOf cs) =
      (segmentsFrom position [] cs).map (List.map Segment.toBytes) := by
  -- the induction is on the number of characters, for a region is passed as a whole
  induction hLength : cs.length using Nat.strongRecOn generalizing position cs with
  | _ n ih =>
  subst hLength
  have hCutBytes := cutAtPair_bytesOf (d := '\x7b') (by decide) cs
  rw [splitFrom, segmentsFrom_eq, onBoundary_bytesOf]
  simp only [Bool.not_true, Bool.false_eq_true, if_false]
  cases hCut : cutAtPair '\x7b' cs with
  | none =>
    rw [hCut] at hCutBytes
    split
    · simp only [Except.map, map_toBytes_withText, List.map_nil]
    · simp_all
  | some cut =>
    obtain ⟨before, after⟩ := cut
    rw [hCut] at hCutBytes
    split
    · simp_all
    rename_i before' after' hCut'
    obtain ⟨rfl, rfl⟩ : before' = bytesOf before ∧ after' = bytesOf after := by
      simpa [hCut'] using hCutBytes
    have hClose : closeFrom none 0 (bytesOf after) = (findClose none after).toByteEnd 0 :=
      @closeFrom_bytesOf none nofun 0 after
    simp only [regionFrom, hClose, onBoundary_bytesOf, Bool.not_true, Bool.false_eq_true, if_false,
      length_bytesOf]
    cases hFind : findClose none after with
    | crash => rfl
    | unclosed => rfl
    | closed body rest =>
      obtain ⟨⟨⟨rfl, -⟩, -⟩, -⟩ := findClose_eq_closed_iff.mp hFind
      have hShorter : rest.length < cs.length := by
        have hCs := length_of_cutAtPair hCut
        simp only [List.length_append, List.length_cons] at hCs
        omega
      simp only [RegionEnd.toByteEnd, Nat.zero_add, take_bytesOf, drop_bytesOf]
      rw [ih rest.length hShorter _ rest rfl]
      cases segmentsFrom (position + byteLength before + 4 + byteLength body) [] rest with
      | error fault => rfl
      | ok more => simp only [Except.map, map_toBytes_withText, List.map_cons, Segment.toBytes]

theorem splitBytes_eq (text : String) :
    splitBytes text.toUTF8 = (segments text.toList).map (List.map Segment.toBytes) := by
  rw [splitBytes, toUTF8_eq, splitFrom_bytesOf, segments]

/-! ## Crashes -/

/-- A result that is a crash in one case, and an answer or an error of evaluation in all others. -/
structure CrashesIff {α : Type} (result : Except Fault α) (crashes : Prop) : Prop where
  crash : result = .error .crash ↔ crashes
  answers : ¬ crashes → (∃ a, result = .ok a) ∨ ∃ e : EvaluationError, result = .error (.error e)

theorem CrashesIff.of_crash {α : Type} {result : Except Fault α} {crashes : Prop}
    (h : result = .error .crash ↔ crashes) : CrashesIff result crashes where
  crash := h
  answers hNot := by
    match result with
    | .ok a => exact .inl ⟨a, rfl⟩
    | .error (.error e) => exact .inr ⟨e, rfl⟩
    | .error .crash => exact absurd (h.mp rfl) hNot

/-- A template crashes whoever splits it if and only if one of its regions has a character in the
way. -/
structure CrashesExactly (text : String) : Prop where
  splitBytes : CrashesIff (splitBytes text.toUTF8) (HasObstruction text.toList)
  segments : CrashesIff (segments text.toList) (HasObstruction text.toList)
  evaluate (ctx : DataContext) : CrashesIff (evaluate ctx text) (HasObstruction text.toList)
  evaluateTemplate (ctx : DataContext) :
    CrashesIff (evaluateTemplate ctx text) (HasObstruction text.toList)
  checkTemplate : CrashesIff (checkTemplate text) (HasObstruction text.toList)

/-- The templates that crash are those that have a character in the way of the end of a region. -/
theorem crashesExactly (text : String) : CrashesExactly text := by
  have hSegments : segments text.toList = .error .crash ↔ HasObstruction text.toList :=
    segmentsFrom_eq_crash_iff 0 [] text.toList
  have hSplits : ¬ Splits text ↔ HasObstruction text.toList := by
    rw [Splits, Ne, Classical.not_not, hSegments]
  exact {
    splitBytes := .of_crash (by
      rw [splitBytes_eq, ← hSegments]
      cases segments text.toList <;> simp [Except.map])
    segments := .of_crash hSegments
    evaluate ctx := .of_crash ((evaluate_eq_crash_iff ctx text).trans hSplits)
    evaluateTemplate ctx := .of_crash ((evaluateTemplate_eq_crash_iff ctx text).trans hSplits)
    checkTemplate := .of_crash ((checkTemplate_eq_crash_iff text).trans hSplits) }

end Workflow.Expr

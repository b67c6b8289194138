/-
Workflow.Proofs.Time.Timestamp — instants read back from their timestamps.

Every number in a timestamp fills its width with zeros, so each of them is
read up to its last digit; a year outside four digits carries its sign. What
is read is the date and the time of day of the instant, and these determine
it. Seconds go beyond a thousand million nanoseconds only in a leap second,
which is written as second 60.

* `Instant.Sound` — an instant of the calendar.
* `digitsNumber_zeroPadded`, `readDigits?_zeroPadded` — one number.
* `readLoose?_writeUniversal` — a timestamp reads back.
-/
import Mathlib.Data.Nat.Digits.Defs
import Workflow.Proofs.Time.Calendar
import Workflow.Time.Timestamp

namespace Workflow

/-- An instant of the calendar: its second is in the calendar, and its nanoseconds are those of one
second, or of two within the last second of a minute. -/
structure Instant.Sound (i : Instant) : Prop where
  seconds : Instant.inCalendar i.seconds = true
  nanos : i.nanos < 2000000000
  leap : 1000000000 ≤ i.nanos → i.secondOfDay % 60 = 59

namespace Timestamp

/-! ## Numbers -/

theorem digitsNumber_append (cs : List Char) (c : Char) :
    digitsNumber (cs ++ [c]) = 10 * digitsNumber cs + (c.toNat - '0'.toNat) := by
  simp [digitsNumber]

/-- Leading zeros count nothing. -/
theorem digitsNumber_zeros (k : Nat) (cs : List Char) :
    digitsNumber (List.replicate k '0' ++ cs) = digitsNumber cs := by
  induction k with
  | zero => rfl
  | succ k ih =>
    rw [← ih, List.replicate_succ, List.cons_append]
    rfl

theorem digitsNumber_toDigits (n : Nat) : digitsNumber (Nat.toDigits 10 n) = n := by
  induction n using Nat.strongRecOn with
  | ind n ih =>
    by_cases hSmall : n < 10
    · have hValue : n.digitChar.toNat - '0'.toNat = n := Nat.toNat_digitChar_sub_48_of_lt_ten hSmall
      rw [Nat.toDigits_of_lt_base hSmall, ← List.nil_append [_], digitsNumber_append, hValue]
      exact Nat.zero_add n
    · have hLast : n % 10 < 10 := Nat.mod_lt _ (by decide)
      have hValue : (n % 10).digitChar.toNat - '0'.toNat = n % 10 :=
        Nat.toNat_digitChar_sub_48_of_lt_ten hLast
      rw [Nat.toDigits_of_base_le (by decide) (by omega), digitsNumber_append, hValue,
        ih (n / 10) (by omega)]
      omega

theorem digitsNumber_zeroPadded (width n : Nat) : digitsNumber (zeroPadded width n) = n := by
  rw [zeroPadded, digitsNumber_zeros, digitsNumber_toDigits]

theorem isDigit_of_mem_zeroPadded (width n : Nat) : ∀ c ∈ zeroPadded width n, c.isDigit = true := by
  intro c h
  rcases List.mem_append.mp h with h | h
  · rw [List.eq_of_mem_replicate h]
    rfl
  · exact Nat.isDigit_of_mem_toDigits (by decide) (by decide) h

theorem zeroPadded_ne_nil (width n : Nat) : zeroPadded width n ≠ [] := fun h =>
  Nat.toDigits_ne_nil (List.append_eq_nil_iff.mp h).2

/-- A number that fits fills its width. -/
theorem length_zeroPadded {width n : Nat} (hWidth : 0 < width) (h : n < 10 ^ width) :
    (zeroPadded width n).length = width := by
  have hLength := Nat.toDigits_length 10 n width hWidth h
  rw [zeroPadded, List.length_append, List.length_replicate]
  omega

/-! ## Digits and what follows them -/

/-- Whether a text goes on with something other than a digit. -/
def EndsNumber (rest : List Char) : Prop := ∀ c ∈ rest.head?, c.isDigit = false

/-- Digits are taken up to the end of the number, or up to as many as may be taken. -/
theorem takeWhile_digits {digits rest : List Char} {most : Nat}
    (hDigits : ∀ c ∈ digits, c.isDigit = true) (hMost : digits.length ≤ most)
    (hRest : digits.length = most ∨ EndsNumber rest) :
    ((digits ++ rest).take most).takeWhile Char.isDigit = digits := by
  rw [List.take_append, List.take_of_length_le hMost, List.takeWhile_append_of_pos hDigits]
  rcases hRest with hFull | hEnds
  · rw [hFull, Nat.sub_self, List.take_zero, List.takeWhile_nil, List.append_nil]
  · have hNone : (rest.take (most - digits.length)).takeWhile Char.isDigit = [] := by
      cases rest with
      | nil => rw [List.take_nil, List.takeWhile_nil]
      | cons c rest =>
        cases most - digits.length with
        | zero => rfl
        | succ k => rw [List.take_succ_cons, List.takeWhile_cons_of_neg (by simp [hEnds c rfl])]
    rw [hNone, List.append_nil]

theorem readDigits?_zeroPadded {least most width n : Nat} {rest : List Char}
    (hLeast : least ≤ (zeroPadded width n).length) (hMost : (zeroPadded width n).length ≤ most)
    (hRest : (zeroPadded width n).length = most ∨ EndsNumber rest) :
    readDigits? least most (zeroPadded width n ++ rest) = some (n, rest) := by
  have hDigits := takeWhile_digits (isDigit_of_mem_zeroPadded width n) hMost hRest
  rw [readDigits?]
  simp only [hDigits, if_neg (Nat.not_lt.mpr hLeast), digitsNumber_zeroPadded, List.drop_left]

/-- Two digits. -/
theorem readDigits?_two {n : Nat} {rest : List Char} (h : n < 100) :
    readDigits? 1 2 (zeroPadded 2 n ++ rest) = some (n, rest) := by
  have hLength := length_zeroPadded (by decide : 0 < 2) h
  exact readDigits?_zeroPadded (by omega) (by omega) (.inl hLength)

/-! ## White space -/

theorem not_isBlank_of_isDigit {c : Char} (h : c.isDigit = true) : Text.isBlank c = false := by
  have hCode : c.val.toNat = c.toNat := rfl
  simp only [Char.isDigit, ge_iff_le, Bool.and_eq_true, decide_eq_true_eq, UInt32.le_iff_toNat_le,
    hCode] at h
  obtain ⟨hLow, hHigh⟩ : 48 ≤ c.toNat ∧ c.toNat ≤ 57 := h
  simp only [Text.isBlank, Bool.or_eq_false_iff, Bool.and_eq_false_imp, decide_eq_true_eq,
    decide_eq_false_iff_not, beq_eq_false_iff_ne]
  omega

/-- A text that starts with something other than white space loses nothing. -/
theorem trimStart_cons {c : Char} {rest : List Char} (h : Text.isBlank c = false) :
    Text.trimStart (c :: rest) = c :: rest :=
  List.dropWhile_cons_of_neg (by simp [h])

theorem trimStart_zeroPadded (width n : Nat) (rest : List Char) :
    Text.trimStart (zeroPadded width n ++ rest) = zeroPadded width n ++ rest := by
  obtain ⟨c, cs, hText⟩ := List.exists_cons_of_ne_nil (zeroPadded_ne_nil width n)
  have hDigit := isDigit_of_mem_zeroPadded width n c (hText ▸ List.mem_cons_self ..)
  rw [hText, List.cons_append]
  exact trimStart_cons (not_isBlank_of_isDigit hDigit)

/-- A number of two digits up to a mark. -/
theorem readLoosePart?_zeroPadded {n : Nat} {c : Char} {rest : List Char} (h : n < 100)
    (hMark : Text.isBlank c = false) :
    readLoosePart? (zeroPadded 2 n ++ c :: rest) = some (n, c :: rest) := by
  rw [readLoosePart?, trimStart_zeroPadded, readDigits?_two h, Option.map_some]
  simp only [trimStart_cons hMark]

/-! ## Parts of a timestamp -/

/-- Years are read with their sign, up to the dash behind them. -/
theorem readYear?_yearText (year : Int) (rest : List Char) :
    readYear? (Text.trimStart (yearText year ++ '-' :: rest)) = some (year, '-' :: rest) := by
  have hEnds : EndsNumber ('-' :: rest) := fun c hc => Option.some.inj hc ▸ rfl
  rw [yearText]
  split
  · rename_i hFour
    have hLength := length_zeroPadded (by decide : 0 < 4)
      (show year.toNat < 10 ^ 4 by omega)
    have hDigits : readDigits? 1 4 (zeroPadded 4 year.toNat ++ '-' :: rest) =
        some (year.toNat, '-' :: rest) :=
      readDigits?_zeroPadded (by omega) (Nat.le_of_eq hLength) (.inr hEnds)
    obtain ⟨c, cs, hText⟩ := List.exists_cons_of_ne_nil (zeroPadded_ne_nil 4 year.toNat)
    have hDigit := isDigit_of_mem_zeroPadded 4 year.toNat c (hText ▸ List.mem_cons_self ..)
    have hSame : ((year.toNat : Nat) : Int) = year := Int.toNat_of_nonneg hFour.1
    rw [trimStart_zeroPadded]
    rw [hText, List.cons_append] at hDigits ⊢
    unfold readYear?
    split
    · exact absurd hDigit (by simp_all)
    · exact absurd hDigit (by simp_all)
    · rw [hDigits, Option.map_some]
      simp only [hSame]
  · have hRead : readDigits? 1 (zeroPadded 4 year.natAbs ++ '-' :: rest).length
        (zeroPadded 4 year.natAbs ++ '-' :: rest) = some (year.natAbs, '-' :: rest) := by
      refine readDigits?_zeroPadded ?_ ?_ (.inr hEnds)
      · exact List.length_pos_iff.mpr (zeroPadded_ne_nil _ _)
      · rw [List.length_append]
        exact Nat.le_add_right ..
    rw [signedPadded, List.cons_append]
    split
    · rename_i hNegative
      rw [trimStart_cons (by decide)]
      simp only [readYear?, hRead, Option.map_some]
      rw [show -(year.natAbs : Int) = year by omega]
    · rename_i hPositive
      rw [trimStart_cons (by decide)]
      simp only [readYear?, hRead, Option.map_some]
      rw [show (year.natAbs : Int) = year by omega]

theorem readFraction?_zeroPadded {width n : Nat} {rest : List Char} (hWidth : 0 < width)
    (hMost : width ≤ 9) (h : n < 10 ^ width) (hRest : EndsNumber rest) :
    readFraction? (zeroPadded width n ++ rest) = some (n * Nat.pow 10 (9 - width), rest) := by
  have hLength := length_zeroPadded hWidth h
  have hDigits := takeWhile_digits (isDigit_of_mem_zeroPadded width n) (hLength ▸ hMost)
    (.inr hRest)
  have hSome : (zeroPadded width n).isEmpty = false :=
    List.isEmpty_eq_false_iff.mpr (zeroPadded_ne_nil width n)
  have hDrop : rest.dropWhile Char.isDigit = rest := by
    cases rest with
    | nil => rfl
    | cons c rest => exact List.dropWhile_cons_of_neg (by simp [hRest c rfl])
  have hBehind : (zeroPadded width n ++ rest).drop width = rest := List.drop_left' hLength
  rw [readFraction?]
  simp only [hDigits, hSome, Bool.false_eq_true, if_false, digitsNumber_zeroPadded, hLength, hBehind,
    hDrop]

theorem readOptionalFraction?_point (cs : List Char) :
    readOptionalFraction? ('.' :: cs) = readFraction? cs := rfl

/-- A fraction is read in full, whether it has three, six or nine digits or none. -/
theorem readOptionalFraction?_fractionText {nanos : Nat} {c : Char} {rest : List Char}
    (h : nanos < 1000000000) (hPoint : c ≠ '.') (hDigit : c.isDigit = false) :
    readOptionalFraction? (fractionText nanos ++ c :: rest) = some (nanos, c :: rest) := by
  have hEnds : EndsNumber (c :: rest) := fun d hd => Option.some.inj hd ▸ hDigit
  rw [fractionText]
  split
  · rename_i hNone
    rw [hNone, List.nil_append]
    unfold readOptionalFraction?
    split
    · rename_i hSame
      exact absurd (List.cons.inj hSame).1 hPoint
    · rfl
  · split
    · rename_i hThree
      have hSame : nanos / 1000000 * Nat.pow 10 (9 - 3) = nanos :=
        Nat.div_mul_cancel (Nat.dvd_of_mod_eq_zero hThree)
      rw [List.cons_append, readOptionalFraction?_point,
        readFraction?_zeroPadded (by decide) (by decide) (by omega) hEnds, hSame]
    · split
      · rename_i hSix
        have hSame : nanos / 1000 * Nat.pow 10 (9 - 6) = nanos :=
          Nat.div_mul_cancel (Nat.dvd_of_mod_eq_zero hSix)
        rw [List.cons_append, readOptionalFraction?_point,
          readFraction?_zeroPadded (by decide) (by decide) (by omega) hEnds, hSame]
      · have hSame : nanos * Nat.pow 10 (9 - 9) = nanos := Nat.mul_one nanos
        rw [List.cons_append, readOptionalFraction?_point,
          readFraction?_zeroPadded (by decide) (by decide) h hEnds, hSame]

theorem readChar?_cons (c : Char) (rest : List Char) : readChar? c (c :: rest) = some rest :=
  if_pos rfl

/-- A mark is read as itself. -/
theorem readChar?_mark {c : Char} {rest : List Char} (h : Text.isBlank c = false) :
    readChar? c (Text.trimStart (c :: rest)) = some rest := by
  rw [trimStart_cons h, readChar?_cons]

/-! ## The time of day -/

theorem secondOfDay_lt (i : Instant) : i.secondOfDay < 86400 := by
  have hDay : Int.emod i.seconds Instant.daySeconds < 86400 :=
    Int.emod_lt_of_pos _ (by decide)
  rw [Instant.secondOfDay]
  omega

/-- Hour, minute and second of an instant give its second of the day, and a leap second its
nanoseconds beyond a second. -/
theorem timeOfDay?_clock {i : Instant} (h : i.Sound) :
    timeOfDay? (i.secondOfDay / 3600) (i.secondOfDay / 60 % 60)
      (i.secondOfDay % 60 + i.nanos / 1000000000) i.subsecond =
      some ((i.secondOfDay : Int), i.nanos) := by
  have hDay := secondOfDay_lt i
  have hNanos := h.nanos
  have hLeap := h.leap
  rw [timeOfDay?, Instant.subsecond, if_pos ⟨by omega, by omega, by omega⟩]
  split
  · rename_i hSixty
    rw [Option.some.injEq, Prod.mk.injEq]
    exact ⟨by omega, by omega⟩
  · rename_i hPlain
    have hSecond : i.nanos < 1000000000 := by
      by_contra hBeyond
      have hLast := hLeap (by omega)
      omega
    rw [Option.some.injEq, Prod.mk.injEq]
    exact ⟨by omega, by omega⟩

/-- Day and second of the day make up the instant. -/
theorem ofDate_date (i : Instant) :
    Instant.ofDate i.date ((i.secondOfDay : Int) - 0) i.nanos = i := by
  have hDays : Int.fdiv i.seconds Instant.daySeconds = i.seconds / 86400 :=
    Int.fdiv_eq_ediv_of_nonneg _ (by decide)
  have hRest : Int.emod i.seconds Instant.daySeconds = i.seconds % 86400 := rfl
  have hSeconds : i.seconds / 86400 * 86400 + ((i.seconds % 86400).toNat - 0) = i.seconds := by
    omega
  rw [Instant.ofDate, Instant.date, Date.dayNumber_ofDayNumber, Instant.secondOfDay, hDays, hRest]
  exact congrArg (Instant.mk · i.nanos) hSeconds

/-- The date of an instant of the calendar is found by its parts. -/
theorem ofParts?_date {i : Instant} (h : Instant.inCalendar i.seconds = true) :
    Date.ofParts? i.date.year i.date.month i.date.day = some i.date := by
  have hDays : Int.fdiv i.seconds Instant.daySeconds = i.seconds / 86400 :=
    Int.fdiv_eq_ediv_of_nonneg _ (by decide)
  have hSize : Instant.daySeconds = 86400 := rfl
  obtain ⟨hFirst, hLast⟩ := Bool.and_eq_true_iff.mp h
  have hFirst := of_decide_eq_true hFirst
  have hLast := of_decide_eq_true hLast
  rw [Instant.firstSecond, hSize] at hFirst
  rw [Instant.lastSecond, hSize] at hLast
  exact Date.ofParts?_ofDayNumber (by omega) (by omega)

/-! ## The text as a whole -/

/-- The characters of a timestamp. -/
theorem toList_writeUniversal (i : Instant) :
    (writeUniversal i).toList =
      yearText i.date.year ++ '-' :: (zeroPadded 2 i.date.month ++ '-' :: (zeroPadded 2 i.date.day ++
        'T' :: (zeroPadded 2 (i.secondOfDay / 3600) ++
        ':' :: (zeroPadded 2 (i.secondOfDay / 60 % 60) ++
        ':' :: (zeroPadded 2 (i.secondOfDay % 60 + i.nanos / 1000000000) ++
        (fractionText i.subsecond ++ ['Z'])))))) := by
  simp only [writeUniversal, String.toList_ofList, localText, dateText, clockText, Instant.clock,
    List.append_assoc, List.cons_append]

/-- An instant of the calendar reads back from its timestamp. -/
theorem readLoose?_writeUniversal {i : Instant} (h : i.Sound) :
    readLoose? (writeUniversal i) = some i := by
  have hDate := ofParts?_date h.seconds
  obtain ⟨-, -, -, hMonth, -, hDays⟩ : _ ∧ _ ∧ _ ∧ i.date.month ≤ 12 ∧ _ ∧
      i.date.day ≤ Date.monthDays i.date.year i.date.month := by
    by_contra hNone
    rw [Date.ofParts?, if_neg hNone] at hDate
    cases hDate
  have hDay : i.date.day < 100 := by
    refine Nat.lt_of_le_of_lt hDays ?_
    unfold Date.monthDays
    split
    · split <;> decide
    all_goals decide
  have hSecond := secondOfDay_lt i
  have hNanos := h.nanos
  have hSub : i.subsecond < 1000000000 := Nat.mod_lt _ (by decide)
  rw [readLoose?, toList_writeUniversal]
  refine Option.bind_eq_some_iff.mpr ⟨_, readYear?_yearText .., ?_⟩
  refine Option.bind_eq_some_iff.mpr ⟨_, readChar?_mark (by decide), ?_⟩
  refine Option.bind_eq_some_iff.mpr ⟨_, readLoosePart?_zeroPadded (by omega) (by decide), ?_⟩
  refine Option.bind_eq_some_iff.mpr ⟨_, readChar?_cons .., ?_⟩
  rw [trimStart_zeroPadded]
  refine Option.bind_eq_some_iff.mpr ⟨_, readDigits?_two hDay, ?_⟩
  refine (if_pos (.inl rfl)).trans ?_
  refine Option.bind_eq_some_iff.mpr ⟨_, rfl, ?_⟩
  refine Option.bind_eq_some_iff.mpr ⟨_, readLoosePart?_zeroPadded (by omega) (by decide), ?_⟩
  refine Option.bind_eq_some_iff.mpr ⟨_, readChar?_cons .., ?_⟩
  refine Option.bind_eq_some_iff.mpr ⟨_, readLoosePart?_zeroPadded (by omega) (by decide), ?_⟩
  refine Option.bind_eq_some_iff.mpr ⟨_, readChar?_cons .., ?_⟩
  rw [trimStart_zeroPadded]
  refine Option.bind_eq_some_iff.mpr ⟨_, readDigits?_two (by omega), ?_⟩
  refine Option.bind_eq_some_iff.mpr
    ⟨_, readOptionalFraction?_fractionText hSub (by decide) (by decide), ?_⟩
  refine Option.bind_eq_some_iff.mpr ⟨(0, []), rfl, ?_⟩
  refine Option.bind_eq_some_iff.mpr ⟨_, hDate, ?_⟩
  refine Option.bind_eq_some_iff.mpr ⟨_, timeOfDay?_clock h, ?_⟩
  exact (if_pos ⟨rfl, by decide, by decide⟩).trans (congrArg some (ofDate_date i))

end Timestamp

end Workflow

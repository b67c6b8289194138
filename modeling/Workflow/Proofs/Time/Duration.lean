/-
Workflow.Proofs.Time.Duration — durations read back from their text.

A written duration is a list of counts with units, the largest unit first.
The reader goes through such a text count by count: behind every count and
the blank after it, it holds the sum of the counts so far. The sum of all
counts is the duration that was written.

* `Duration.foldlM_toDigits` — the digits of a number, between amounts.
* `Duration.foldlM_part` — one count with its unit, and the blank behind it.
* `Duration.read?_write` — a duration below the limit reads back.
* `Duration.seconds_lt_of_read?` — what is read is below the limit.
-/
import Mathlib.Algebra.Order.Ring.Nat
import Mathlib.Tactic.SplitIfs
import Workflow.Time.Duration

namespace Workflow.Duration

/-- The nanoseconds of a unit. -/
def Unit.nanos (u : Unit) : Nat := if u.size.1 then u.size.2 * secondNanos else u.size.2

/-! ## Amounts -/

theorem bounded?_of_lt {n : Nat} (h : n < limit) : bounded? n = some n := if_pos h

theorem addAmount?_whole {d total : Duration} {n : Nat} {u : Unit} (hCount : n * u.size.2 < limit)
    (hSum : d.nanos + n * u.nanos ≤ total.nanos) (hTotal : total.seconds < limit) :
    d.addAmount? ⟨n, none⟩ u = some ⟨d.nanos + n * u.nanos⟩ := by
  have hNanos : (if u.size.1 then n * u.size.2 * secondNanos else n * u.size.2) = n * u.nanos := by
    rw [Unit.nanos]
    split
    · rw [Nat.mul_assoc]
    · rfl
  have hSeconds : (⟨d.nanos + n * u.nanos⟩ : Duration).seconds < limit :=
    Nat.lt_of_le_of_lt (Nat.div_le_div_right hSum) hTotal
  simp only [addAmount?, add?, bounded?_of_lt hCount, Option.bind_eq_bind, Option.bind_some, hNanos,
    bounded?_of_lt hSeconds]
  rfl

/-! ## Counts with units -/

/-- The digits of a number, read between amounts, are the whole part of a number. -/
theorem foldlM_toDigits {d : Duration} {n : Nat} (h : n < limit) :
    (Nat.toDigits 10 n).foldlM readStep (.between d) = some (.whole d n) := by
  induction n using Nat.strongRecOn with
  | ind n ih =>
    by_cases hSmall : n < 10
    · have hValue : digitValue n.digitChar = n := Nat.toNat_digitChar_sub_48_of_lt_ten hSmall
      rw [Nat.toDigits_of_lt_base hSmall]
      simp [readStep, Nat.isDigit_digitChar, hSmall, hValue]
    · have hLast : n % 10 < 10 := Nat.mod_lt _ (by decide)
      have hValue : digitValue (n % 10).digitChar = n % 10 :=
        Nat.toNat_digitChar_sub_48_of_lt_ten hLast
      have hSum : 10 * (n / 10) + n % 10 = n := Nat.div_add_mod n 10
      rw [Nat.toDigits_of_base_le (by decide) (by omega), List.foldlM_append,
        ih (n / 10) (by omega) (by omega)]
      simp [readStep, Nat.isDigit_digitChar, hLast, hValue, hSum, bounded?_of_lt h]

/-- A letter of a unit: neither a digit nor a blank. -/
def IsLetter (c : Char) : Prop := isUnitChar c = true ∧ c.isDigit = false ∧ Text.isBlank c = false

instance (c : Char) : Decidable (IsLetter c) := inferInstanceAs (Decidable (_ ∧ _ ∧ _))

/-- A word made of letters that names a unit. -/
def Unit.Spelled (u : Unit) (word : String) : Prop :=
  unit? word = some u ∧ word.toList ≠ [] ∧ ∀ c ∈ word.toList, IsLetter c

-- The letters are checked one by one; a search through all characters there are would not end.
instance (u : Unit) (word : String) : Decidable (u.Spelled word) :=
  decidable_of_iff
    (unit? word = some u ∧ word.toList ≠ [] ∧ word.toList.all (fun c => IsLetter c) = true)
    (by simp [Unit.Spelled])

/-- Letters, read within a unit, are added to it. -/
theorem foldlM_letters {d : Duration} {amount : Amount} {cs word : List Char}
    (h : ∀ c ∈ cs, IsLetter c) :
    cs.foldlM readStep (.unit d amount word) = some (.unit d amount (cs.reverse ++ word)) := by
  induction cs generalizing word with
  | nil => rfl
  | cons c rest ih =>
    obtain ⟨⟨hUnit, hDigit, hBlank⟩, hRest⟩ := List.forall_mem_cons.mp h
    rw [List.foldlM_cons, List.reverse_cons, List.append_assoc, List.singleton_append, ← ih hRest]
    simp [readStep, hUnit, hDigit, hBlank]

/-- A count with its unit, read between amounts, waits for the end of the unit. -/
theorem foldlM_count {d : Duration} {n : Nat} {word : List Char} (hNonempty : word ≠ [])
    (hLetters : ∀ c ∈ word, IsLetter c) (hNumber : n < limit) :
    (Nat.toDigits 10 n ++ word).foldlM readStep (.between d) =
      some (.unit d ⟨n, none⟩ word.reverse) := by
  obtain ⟨c, rest, rfl⟩ := List.exists_cons_of_ne_nil hNonempty
  obtain ⟨⟨hUnit, hDigit, hBlank⟩, hRest⟩ := List.forall_mem_cons.mp hLetters
  have hFirst : readStep (.whole d n) c = some (.unit d ⟨n, none⟩ [c]) := by
    simp [readStep, hUnit, hDigit, hBlank]
  rw [List.foldlM_append, foldlM_toDigits hNumber, Option.bind_eq_bind, Option.bind_some,
    List.foldlM_cons, hFirst, Option.bind_eq_bind, Option.bind_some, foldlM_letters hRest,
    List.reverse_cons]

/-- The parts of a written duration, each with a blank behind it. -/
def spaced (parts : List String) : List Char := parts.flatMap fun p => p.toList ++ [' ']

/-- One part of a written duration, read between amounts, is added; a part that is left out counts
nothing. -/
theorem foldlM_part {d total : Duration} {n : Nat} {isWord : Bool} {unit : String} {u : Unit}
    (hUnit : u.Spelled unit) (hPlural : isWord = true → u.Spelled (unit ++ "s"))
    (hNumber : n < limit) (hCount : n * u.size.2 < limit)
    (hSum : d.nanos + n * u.nanos ≤ total.nanos) (hTotal : total.seconds < limit) :
    (spaced (part isWord unit n)).foldlM readStep (.between d) =
      some (.between ⟨d.nanos + n * u.nanos⟩) := by
  unfold part
  split
  · rename_i hNone
    subst hNone
    simp [spaced]
  · have hWord : u.Spelled (unit ++ (if isWord ∧ n > 1 then "s" else "")) := by
      split
      · rename_i hMany
        exact hPlural hMany.1
      · rwa [String.append_empty]
    obtain ⟨hNamed, hNonempty, hLetters⟩ := hWord
    have hText : spaced [toString n ++ unit ++ (if isWord ∧ n > 1 then "s" else "")] =
        Nat.toDigits 10 n ++ (unit ++ (if isWord ∧ n > 1 then "s" else "")).toList ++ [' '] := by
      simp [spaced]
    have hBlank : Text.isBlank ' ' = true := by decide
    have hNoDigit : ' '.isDigit = false := by decide
    rw [hText, List.foldlM_append, foldlM_count hNonempty hLetters hNumber, Option.bind_eq_bind,
      Option.bind_some, List.foldlM_cons]
    simp [readStep, hBlank, hNoDigit, closeAmount?, hNamed, addAmount?_whole hCount hSum hTotal]

/-! ## Sums of counts -/

/-- A count as it stands in a written duration. -/
structure Count where
  n : Nat
  unit : Unit
  word : String
  isWord : Bool

/-- The nanoseconds of counts together. -/
def sumNanos (counts : List Count) : Nat := (counts.map fun c => c.n * c.unit.nanos).sum

theorem sumNanos_cons (c : Count) (rest : List Count) :
    sumNanos (c :: rest) = c.n * c.unit.nanos + sumNanos rest := List.sum_cons

/-- The text of each count. -/
def texts (counts : List Count) : List String := counts.flatMap fun c => part c.isWord c.word c.n

/-- A count that reads back: its word names its unit, and the count is below the limit. -/
structure Count.Sound (c : Count) : Prop where
  spelled : c.unit.Spelled c.word
  plural : c.isWord = true → c.unit.Spelled (c.word ++ "s")
  number : c.n < limit
  size : c.n * c.unit.size.2 < limit

/-- Sound counts, read between amounts, are added one after the other. -/
theorem foldlM_texts {d total : Duration} {counts : List Count} (h : ∀ c ∈ counts, c.Sound)
    (hSum : d.nanos + sumNanos counts ≤ total.nanos) (hTotal : total.seconds < limit) :
    (spaced (texts counts)).foldlM readStep (.between d) =
      some (.between ⟨d.nanos + sumNanos counts⟩) := by
  induction counts generalizing d with
  | nil => rfl
  | cons c rest ih =>
    obtain ⟨hFirst, hRest⟩ := List.forall_mem_cons.mp h
    have hSplit := sumNanos_cons c rest
    have hPart : (spaced (part c.isWord c.word c.n)).foldlM readStep (.between d) =
        some (.between ⟨d.nanos + c.n * c.unit.nanos⟩) :=
      foldlM_part hFirst.spelled hFirst.plural hFirst.number hFirst.size (by omega) hTotal
    have hMore := @ih ⟨d.nanos + c.n * c.unit.nanos⟩ hRest (by simp only; omega)
    have hTexts : spaced (texts (c :: rest)) =
        spaced (part c.isWord c.word c.n) ++ spaced (texts rest) := List.flatMap_append
    rw [hTexts, List.foldlM_append, hPart, Option.bind_eq_bind, Option.bind_some, hMore, hSplit,
      Nat.add_assoc]

/-- The counts of a written duration. -/
def written (d : Duration) : List Count :=
  [⟨d.seconds / 31557600, .year, "year", true⟩,
    ⟨d.seconds % 31557600 / 2630016, .month, "month", true⟩,
    ⟨d.seconds % 31557600 % 2630016 / 86400, .day, "day", true⟩,
    ⟨d.seconds % 31557600 % 2630016 % 86400 / 3600, .hour, "h", false⟩,
    ⟨d.seconds % 31557600 % 2630016 % 86400 % 3600 / 60, .minute, "m", false⟩,
    ⟨d.seconds % 31557600 % 2630016 % 86400 % 60, .second, "s", false⟩,
    ⟨d.subsecond / 1000000, .millisecond, "ms", false⟩,
    ⟨d.subsecond / 1000 % 1000, .microsecond, "us", false⟩,
    ⟨d.subsecond % 1000, .nanosecond, "ns", false⟩]

theorem write_eq (d : Duration) :
    d.write = if d.nanos = 0 then "0s" else String.intercalate " " (texts (written d)) := by
  have hTexts : texts (written d) =
      part true "year" (d.seconds / 31557600) ++
      (part true "month" (d.seconds % 31557600 / 2630016) ++
      (part true "day" (d.seconds % 31557600 % 2630016 / 86400) ++
      (part false "h" (d.seconds % 31557600 % 2630016 % 86400 / 3600) ++
      (part false "m" (d.seconds % 31557600 % 2630016 % 86400 % 3600 / 60) ++
      (part false "s" (d.seconds % 31557600 % 2630016 % 86400 % 60) ++
      (part false "ms" (d.subsecond / 1000000) ++
      (part false "us" (d.subsecond / 1000 % 1000) ++
      (part false "ns" (d.subsecond % 1000) ++ [])))))))) := rfl
  simp only [hTexts, write, List.append_nil, List.append_assoc]

theorem sumNanos_written (d : Duration) : sumNanos (written d) = d.nanos := by
  have hNil : sumNanos [] = 0 := rfl
  calc sumNanos (written d)
      = d.seconds * secondNanos + d.subsecond := by
        simp only [written, sumNanos_cons, hNil, Unit.nanos, Unit.size, secondNanos, if_true,
          Bool.false_eq_true, if_false]
        omega
    _ = d.nanos := Nat.div_add_mod' ..

theorem sound_written {d : Duration} (h : d.seconds < limit) : ∀ c ∈ written d, c.Sound := by
  have hNanos : d.subsecond < 1000000000 := Nat.mod_lt _ (by decide)
  have hLimit : limit = 18446744073709551616 := by decide
  rw [hLimit] at h
  simp only [written, List.forall_mem_cons]
  refine ⟨⟨?_, ?_, ?_, ?_⟩, ⟨?_, ?_, ?_, ?_⟩, ⟨?_, ?_, ?_, ?_⟩, ⟨?_, ?_, ?_, ?_⟩, ⟨?_, ?_, ?_, ?_⟩,
    ⟨?_, ?_, ?_, ?_⟩, ⟨?_, ?_, ?_, ?_⟩, ⟨?_, ?_, ?_, ?_⟩, ⟨?_, ?_, ?_, ?_⟩, nofun⟩
  all_goals dsimp only
  all_goals first | decide +kernel | (simp only [Unit.size, hLimit]; omega)

/-! ## The text as a whole -/

theorem intercalate_space {parts : List String} (h : parts ≠ []) :
    (String.intercalate " " parts).toList ++ [' '] = spaced parts := by
  induction parts with
  | nil => exact absurd rfl h
  | cons p rest ih =>
    cases rest with
    | nil => simp [spaced]
    | cons q rest =>
      have hMore := ih (List.cons_ne_nil q rest)
      rw [String.intercalate_cons_cons, String.toList_append, String.toList_append,
        List.append_assoc, hMore]
      simp [spaced]

/-- Without a digit nothing is added. -/
theorem foldlM_no_digit {cs : List Char} {d : Duration} {state : ReadState}
    (hDigits : cs.any Char.isDigit = false) (h : cs.foldlM readStep (.between d) = some state) :
    state = .between d := by
  induction cs with
  | nil => exact (Option.some.inj h).symm
  | cons c rest ih =>
    obtain ⟨hFirst, hRest⟩ := Bool.or_eq_false_iff.mp hDigits
    have hStep : readStep (.between d) c = if Text.isBlank c then some (.between d) else none := by
      simp [readStep, hFirst]
    rw [List.foldlM_cons, hStep] at h
    split at h
    · exact ih hRest h
    · cases h

/-- A text that, with a blank behind it, adds up to a duration other than nothing. -/
theorem read?_of_foldlM {text : String} {d : Duration} (hSome : d.nanos ≠ 0)
    (h : (text.toList ++ [' ']).foldlM readStep (.between ⟨0⟩) = some (.between d)) :
    read? text = some d := by
  have hBlank : Text.isBlank ' ' = true := by decide
  have hNoDigit : ' '.isDigit = false := by decide
  have hZero : (text == "0") = false := by
    rw [beq_eq_false_iff_ne]
    rintro rfl
    simp [readStep, hBlank, hNoDigit] at h
  rw [List.foldlM_append] at h
  obtain ⟨state, hState, hLast⟩ := Option.bind_eq_some_iff.mp h
  have hLast : readStep state ' ' = some (.between d) := by
    obtain ⟨next, hNext, hEnd⟩ := Option.bind_eq_some_iff.mp hLast
    rw [hNext, ← Option.some.inj hEnd]
  rw [read?, hZero, if_neg Bool.false_ne_true, hState]
  cases state with
  | between e =>
    simp only [readStep, hNoDigit, hBlank, Bool.false_eq_true, if_false, if_true,
      Option.some.injEq, ReadState.between.injEq] at hLast
    subst hLast
    have hDigit : text.toList.any Char.isDigit = true := by
      rw [← Bool.not_eq_false]
      intro hNone
      cases foldlM_no_digit hNone hState
      exact hSome rfl
    exact if_pos hDigit
  | unit e amount word =>
    simp only [readStep, hNoDigit, hBlank, Bool.false_eq_true, if_false, if_true] at hLast ⊢
    obtain ⟨total, hClose, hSame⟩ := Option.map_eq_some_iff.mp hLast
    cases hSame
    exact hClose
  | whole | fraction => simp [readStep, hNoDigit, hBlank] at hLast

/-- A written duration reads back. -/
theorem read?_write {d : Duration} (h : d.seconds < limit) : read? d.write = some d := by
  rw [write_eq]
  split
  · rename_i hNone
    have hZero : d = ⟨0⟩ := congrArg Duration.mk hNone
    rw [hZero]
    decide +kernel
  · rename_i hSome
    have hSum := sumNanos_written d
    have hRead := @foldlM_texts ⟨0⟩ d _ (sound_written h) (by simp [hSum]) h
    rw [hSum, Nat.zero_add] at hRead
    refine read?_of_foldlM hSome ?_
    rw [intercalate_space fun hNil => ?_, hRead]
    rw [hNil] at hRead
    have hZero : (⟨0⟩ : Duration) = d := ReadState.between.inj (Option.some.inj hRead)
    exact hSome (hZero ▸ rfl)

/-! ## What is read is below the limit -/

/-- The sum of the amounts read so far. -/
def ReadState.sum : ReadState → Duration
  | .between d | .whole d _ | .fraction d .. | .unit d .. => d

theorem lt_of_bounded? {n m : Nat} (h : bounded? n = some m) : n < limit := by
  unfold bounded? at h
  split at h
  · assumption
  · cases h

theorem seconds_lt_of_add? {d total : Duration} {inSeconds : Bool} {count : Nat}
    (h : d.add? inSeconds count = some total) : total.seconds < limit := by
  obtain ⟨n, -, h⟩ := Option.bind_eq_some_iff.mp h
  obtain ⟨seconds, hBound, hTotal⟩ := Option.bind_eq_some_iff.mp h
  exact Option.some.inj hTotal ▸ lt_of_bounded? hBound

theorem seconds_lt_of_closeAmount? {d total : Duration} {amount : Amount} {word : List Char}
    (h : closeAmount? d amount word = some total) : total.seconds < limit := by
  obtain ⟨unit, -, h⟩ := Option.bind_eq_some_iff.mp h
  unfold addAmount? at h
  obtain ⟨sum, hSum, h⟩ := Option.bind_eq_some_iff.mp h
  split at h
  · cases h
    exact seconds_lt_of_add? hSum
  · obtain ⟨size, -, h⟩ := Option.bind_eq_some_iff.mp h
    obtain ⟨scaled, -, h⟩ := Option.bind_eq_some_iff.mp h
    split at h
    · exact seconds_lt_of_add? h
    · cases h

/-- A character leaves the sum as it is, or an amount is closed with it. -/
theorem seconds_lt_of_readStep {state next : ReadState} {c : Char}
    (h : readStep state c = some next) (hState : state.sum.seconds < limit) :
    next.sum.seconds < limit := by
  cases state with
  | between d =>
    rw [readStep] at h
    split_ifs at h <;> exact Option.some.inj h ▸ hState
  | whole d n =>
    rw [readStep] at h
    split_ifs at h
    · obtain ⟨_, -, rfl⟩ := Option.map_eq_some_iff.mp h
      exact hState
    all_goals exact Option.some.inj h ▸ hState
  | fraction d n numerator denominator =>
    rw [readStep] at h
    split_ifs at h
    · obtain ⟨_, -, h⟩ := Option.bind_eq_some_iff.mp h
      obtain ⟨_, -, h⟩ := Option.bind_eq_some_iff.mp h
      exact Option.some.inj h ▸ hState
    all_goals exact Option.some.inj h ▸ hState
  | unit d amount word =>
    rw [readStep] at h
    split_ifs at h
    · obtain ⟨_, hClose, rfl⟩ := Option.map_eq_some_iff.mp h
      exact seconds_lt_of_closeAmount? hClose
    · obtain ⟨_, hClose, rfl⟩ := Option.map_eq_some_iff.mp h
      exact seconds_lt_of_closeAmount? hClose
    · exact Option.some.inj h ▸ hState

theorem seconds_lt_of_foldlM {cs : List Char} {state last : ReadState}
    (h : cs.foldlM readStep state = some last) (hState : state.sum.seconds < limit) :
    last.sum.seconds < limit := by
  induction cs generalizing state with
  | nil => exact Option.some.inj h ▸ hState
  | cons c rest ih =>
    rw [List.foldlM_cons] at h
    obtain ⟨next, hNext, hRest⟩ := Option.bind_eq_some_iff.mp h
    exact ih hRest (seconds_lt_of_readStep hNext hState)

/-- What is read is below the limit. -/
theorem seconds_lt_of_read? {text : String} {d : Duration} (h : read? text = some d) :
    d.seconds < limit := by
  have hZero : (⟨0⟩ : Duration).seconds < limit := by decide
  unfold read? at h
  split at h
  · exact Option.some.inj h ▸ hZero
  · split at h
    · rename_i e hLast
      split at h
      · exact Option.some.inj h ▸ seconds_lt_of_foldlM hLast hZero
      · cases h
    · exact seconds_lt_of_closeAmount? h
    · cases h

end Workflow.Duration

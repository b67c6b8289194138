/-
Workflow.Proofs.Time.Calendar — dates and day numbers.

A year runs from its first day to the first day of the next, and each month
of it from the days of the months before. So a day number lies in exactly one
year, and in that year in exactly one month: the date found for it has that
day number, and it is a date of the calendar.

* `Date.daysToYear_succ`, `Date.monthAt_spec` — one year, one month.
* `Date.dayNumber_ofDayNumber`, `Date.ofParts?_ofDayNumber` — the date of a
  day.
-/
import Mathlib.Order.Basic
import Workflow.Time.Calendar

namespace Workflow.Date

/-! ## Years -/

theorem isLeap_iff (year : Int) :
    isLeap year = true ↔ year % 4 = 0 ∧ (year % 100 ≠ 0 ∨ year % 400 = 0) := by
  have hRemainder : ∀ a b : Int, Int.emod a b = a % b := fun _ _ => rfl
  simp only [isLeap, hRemainder, Bool.and_eq_true, Bool.or_eq_true, beq_iff_eq, bne_iff_ne]

theorem daysToYear_eq (year : Int) :
    daysToYear year = 365 * (year - 1) + (year - 1) / 4 - (year - 1) / 100 + (year - 1) / 400 := by
  simp only [daysToYear, Int.fdiv_eq_ediv_of_nonneg _ (by decide : (0 : Int) ≤ 4),
    Int.fdiv_eq_ediv_of_nonneg _ (by decide : (0 : Int) ≤ 100),
    Int.fdiv_eq_ediv_of_nonneg _ (by decide : (0 : Int) ≤ 400)]

/-- The next year starts when the days of this year are over. -/
theorem daysToYear_succ (year : Int) :
    daysToYear (year + 1) = daysToYear year + (yearDays year : Int) := by
  rw [daysToYear_eq, daysToYear_eq, yearDays]
  split
  · rename_i hLeap
    have hParts := (isLeap_iff year).mp hLeap
    omega
  · rename_i hLeap
    have hParts := mt (isLeap_iff year).mpr hLeap
    omega

theorem daysToYear_mono {first last : Int} (h : first ≤ last) :
    daysToYear first ≤ daysToYear last := by
  rw [daysToYear_eq, daysToYear_eq]
  omega

/-! ## Months -/

/-- The months together make up the year. -/
theorem daysBefore_end (year : Int) : daysBefore year 13 = yearDays year := by
  simp only [daysBefore, monthDays, yearDays]
  split <;> rfl

/-- The month and the day that are found from a month on. -/
theorem monthAt_spec {year : Int} {fuel month rest : Nat} {found : Nat × Nat} (hMonth : 1 ≤ month)
    (h : daysBefore year month + rest < daysBefore year (month + fuel))
    (hFound : monthAt year fuel month rest = found) :
    month ≤ found.1 ∧ found.1 < month + fuel ∧ 1 ≤ found.2 ∧ found.2 ≤ monthDays year found.1 ∧
      daysBefore year found.1 + found.2 = daysBefore year month + rest + 1 := by
  induction fuel generalizing month rest with
  | zero =>
    rw [Nat.add_zero] at h
    omega
  | succ fuel ih =>
    have hNext : daysBefore year (month + 1) = daysBefore year month + monthDays year month := by
      cases month with
      | zero => cases hMonth
      | succ n => rfl
    rw [monthAt] at hFound
    split at hFound
    · cases hFound
      exact ⟨Nat.le_refl _, by simp only; omega, by simp only; omega, by simp only; omega,
        by simp only; omega⟩
    · have hRest : daysBefore year (month + 1) + (rest - monthDays year month) <
          daysBefore year (month + 1 + fuel) := by
        rw [Nat.add_right_comm month 1 fuel, Nat.add_assoc month fuel 1]
        omega
      obtain ⟨hLow, hHigh, hFirst, hLast, hDay⟩ := ih (by omega) hRest hFound
      exact ⟨by omega, by omega, hFirst, hLast, by omega⟩

/-! ## The date of a day -/

/-- The date of a day lies in the year that the day lies in. -/
theorem year_spec (n : Int) :
    daysToYear (ofDayNumber n).year ≤ n + epochDay ∧
      n + epochDay < daysToYear ((ofDayNumber n).year + 1) := by
  have hEstimate : Int.fdiv ((n + epochDay) * 400) 146097 = (n + epochDay) * 400 / 146097 :=
    Int.fdiv_eq_ediv_of_nonneg _ (by decide)
  simp only [ofDayNumber, hEstimate]
  generalize n + epochDay = days
  split
  · rename_i hBefore
    simp only [daysToYear_eq] at hBefore ⊢
    omega
  · split
    · rename_i hBehind
      simp only [daysToYear_eq] at hBehind ⊢
      omega
    · omega

theorem ofDayNumber_spec (n : Int) :
    1 ≤ (ofDayNumber n).month ∧ (ofDayNumber n).month ≤ 12 ∧ 1 ≤ (ofDayNumber n).day ∧
      (ofDayNumber n).day ≤ monthDays (ofDayNumber n).year (ofDayNumber n).month ∧
      daysToYear (ofDayNumber n).year + (ofDayNumber n).ordinal = n + epochDay + 1 := by
  obtain ⟨hFrom, hTo⟩ := year_spec n
  generalize hFound : monthAt (ofDayNumber n).year 12 1
    (n + epochDay - daysToYear (ofDayNumber n).year).toNat = found
  have hDate : ofDayNumber n = ⟨(ofDayNumber n).year, found.1, found.2⟩ := hFound ▸ rfl
  rw [daysToYear_succ] at hTo
  generalize (ofDayNumber n).year = year at hFrom hTo hDate hFound
  have hRest : daysBefore year 1 + (n + epochDay - daysToYear year).toNat <
      daysBefore year (1 + 12) := by
    rw [daysBefore_end]
    simp only [daysBefore]
    omega
  obtain ⟨hLow, hHigh, hFirst, hLast, hDay⟩ := monthAt_spec (Nat.le_refl 1) hRest hFound
  rw [hDate]
  refine ⟨hLow, Nat.le_of_lt_succ hHigh, hFirst, hLast, ?_⟩
  have hNone : daysBefore year 1 = 0 := rfl
  simp only [ordinal]
  omega

/-- The date of a day has the number of that day. -/
theorem dayNumber_ofDayNumber (n : Int) : (ofDayNumber n).dayNumber = n := by
  have hDay := (ofDayNumber_spec n).2.2.2.2
  simp only [dayNumber]
  omega

/-- The date of a day between the first and the last year is found by its parts. -/
theorem ofParts?_ofDayNumber {n : Int} (hFirst : dayNumber ⟨firstYear, 1, 1⟩ ≤ n)
    (hLast : n ≤ dayNumber ⟨lastYear, 12, 31⟩) :
    ofParts? (ofDayNumber n).year (ofDayNumber n).month (ofDayNumber n).day =
      some (ofDayNumber n) := by
  obtain ⟨hFrom, hTo⟩ := year_spec n
  obtain ⟨hLow, hHigh, hDay, hDays, -⟩ := ofDayNumber_spec n
  have hStart : daysToYear firstYear ≤ n + epochDay := by
    simp only [dayNumber, ordinal, daysBefore] at hFirst
    omega
  have hEnd : n + epochDay < daysToYear (lastYear + 1) := by
    have hOrdinal : ordinal ⟨lastYear, 12, 31⟩ = yearDays lastYear := by decide
    rw [daysToYear_succ, ← hOrdinal]
    simp only [dayNumber] at hLast
    omega
  have hNotBefore : firstYear ≤ (ofDayNumber n).year := by
    by_contra hBefore
    have hMono := daysToYear_mono (show (ofDayNumber n).year + 1 ≤ firstYear by omega)
    omega
  have hNotBehind : (ofDayNumber n).year ≤ lastYear := by
    by_contra hBehind
    have hMono := daysToYear_mono (show lastYear + 1 ≤ (ofDayNumber n).year by omega)
    omega
  exact if_pos ⟨hNotBefore, hNotBehind, hLow, hHigh, hDay, hDays⟩

end Workflow.Date

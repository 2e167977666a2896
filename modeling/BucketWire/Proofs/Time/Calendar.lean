import BucketWire.Time.Calendar

/-!
# Dates of instants

Every instant falls on a date and a time of day in UTC, from which the instant is found again. Years
are counted by cycles of 400 years, which all have the same number of days; within a cycle the last
century and the last year of a leap cycle may have a day more than the others.

## Main definitions

* `Date.yearOf` — the year of a day
* `Date.monthFrom` — the month of a day of a year
* `Date.ofDayNumber` — the date of a day
* `Instant.civil` — date and time of an instant in UTC

## Main results

* `Date.dayNumber_ofDayNumber` — the day of the date of a day
* `Instant.instant_civil` — the instant of the civil time of an instant
-/

namespace BucketWire

namespace Date

/-! ### Years -/

/-- The year of the day that is `days` days after the first of January of the year 1. -/
def yearOf (days : Int) : Int :=
  let century := min (days % 146097 / 36524) 3
  let inCentury := days % 146097 - 36524 * century
  let year := min (inCentury % 1461 / 365) 3
  400 * (days / 146097) + 100 * century + 4 * (inCentury / 1461) + year + 1

/-- The days before a year, by the cycle, the century, the leap cycle and the year in it. -/
theorem daysBeforeYear_of_parts {cycle century leapCycle year : Int} (hcentury : 0 ≤ century)
    (hcentury' : century ≤ 3) (hleap : 0 ≤ leapCycle) (hleap' : leapCycle ≤ 24) (hyear : 0 ≤ year)
    (hyear' : year ≤ 3) :
    daysBeforeYear (400 * cycle + 100 * century + 4 * leapCycle + year + 1) =
      146097 * cycle + 36524 * century + 1461 * leapCycle + 365 * year := by
  rw [daysBeforeYear, Int.add_sub_cancel]
  have h₄ : (400 * cycle + 100 * century + 4 * leapCycle + year) / 4 =
      100 * cycle + 25 * century + leapCycle := by omega
  have h₁₀₀ : (400 * cycle + 100 * century + 4 * leapCycle + year) / 100 =
      4 * cycle + century := by omega
  have h₄₀₀ : (400 * cycle + 100 * century + 4 * leapCycle + year) / 400 = cycle := by omega
  rw [h₄, h₁₀₀, h₄₀₀]
  omega

theorem isLeapYear_iff (year : Int) :
    isLeapYear year = true ↔ year % 4 = 0 ∧ (year % 100 ≠ 0 ∨ year % 400 = 0) := by
  simp [isLeapYear]

/-- A day lies in its year. -/
theorem yearOf_spec (days : Int) :
    daysBeforeYear (yearOf days) ≤ days ∧
      days < daysBeforeYear (yearOf days) + if isLeapYear (yearOf days) then 366 else 365 := by
  generalize hcycle : days / 146097 = cycle
  generalize hcentury : min (days % 146097 / 36524) 3 = century
  generalize hinCentury : days % 146097 - 36524 * century = inCentury
  generalize hleap : inCentury / 1461 = leapCycle
  generalize hyear : min (inCentury % 1461 / 365) 3 = year
  have hyearOf : yearOf days = 400 * cycle + 100 * century + 4 * leapCycle + year + 1 := by
    simp only [yearOf, hcentury, hinCentury, hcycle, hleap, hyear]
  have hcentury₀ : 0 ≤ century ∧ century ≤ 3 := by omega
  have hinCentury₀ : 0 ≤ inCentury ∧ inCentury ≤ 36524 ∧ (century ≤ 2 → inCentury < 36524) := by
    omega
  have hleap₀ : 0 ≤ leapCycle ∧ leapCycle ≤ 24 := by omega
  have hyear₀ : 0 ≤ year ∧ year ≤ 3 := by omega
  have hdays : days = 146097 * cycle + 36524 * century + inCentury := by omega
  have hrest : 0 ≤ inCentury - 1461 * leapCycle - 365 * year ∧
      inCentury - 1461 * leapCycle - 365 * year ≤ 365 ∧
      (year ≤ 2 → inCentury - 1461 * leapCycle - 365 * year < 365) := by omega
  rw [hyearOf, daysBeforeYear_of_parts hcentury₀.1 hcentury₀.2 hleap₀.1 hleap₀.2 hyear₀.1 hyear₀.2]
  refine ⟨by omega, ?_⟩
  split
  · omega
  · rename_i hnot
    rw [isLeapYear_iff] at hnot
    omega

/-! ### Months -/

theorem daysInMonth_le (year : Int) (month : Nat) : daysInMonth year month ≤ 31 := by
  rw [daysInMonth.eq_def]
  split
  · split <;> omega
  all_goals omega

theorem daysBeforeMonth_succ (year : Int) {month : Nat} (h : 1 ≤ month) :
    daysBeforeMonth year (month + 1) = daysBeforeMonth year month + daysInMonth year month := by
  obtain ⟨k, rfl⟩ : ∃ k, month = k + 1 := ⟨month - 1, by omega⟩
  rw [daysBeforeMonth, Nat.add_sub_cancel, List.range'_concat, List.foldl_append, Nat.one_mul,
    Nat.add_comm 1 k]
  rfl

/-- The days of a year, month by month. -/
theorem daysBeforeMonth_last (year : Int) :
    daysBeforeMonth year 13 = if isLeapYear year then 366 else 365 := by
  by_cases h : isLeapYear year <;> simp [daysBeforeMonth, List.range', daysInMonth, h]

/-- The month that holds the day `day` of the months from `month` on, and the day of this month;
there are `more` months after `month`. -/
def monthFrom (year : Int) (month day : Nat) : Nat → Nat × Nat
  | 0 => (month, day + 1)
  | more + 1 =>
    if day < daysInMonth year month then (month, day + 1)
    else monthFrom year (month + 1) (day - daysInMonth year month) more

/-- The day is found in its month. -/
theorem monthFrom_spec (year : Int) {more month day : Nat} (hmonth : 1 ≤ month)
    (hlast : month + more = 12)
    (hday : daysBeforeMonth year month + day < daysBeforeMonth year 13) :
    1 ≤ (monthFrom year month day more).1 ∧ (monthFrom year month day more).1 ≤ 12 ∧
      1 ≤ (monthFrom year month day more).2 ∧
      (monthFrom year month day more).2 ≤ daysInMonth year (monthFrom year month day more).1 ∧
      daysBeforeMonth year (monthFrom year month day more).1 +
        (monthFrom year month day more).2 = daysBeforeMonth year month + day + 1 := by
  induction more generalizing month day with
  | zero =>
    obtain rfl : month = 12 := by omega
    rw [daysBeforeMonth_succ year hmonth] at hday
    simp only [monthFrom]
    omega
  | succ more ih =>
    rw [monthFrom]
    split
    · simp only
      omega
    · have hsucc := daysBeforeMonth_succ year hmonth
      have hnext : daysBeforeMonth year (month + 1) + (day - daysInMonth year month) =
          daysBeforeMonth year month + day := by omega
      obtain ⟨h₁, h₂, h₃, h₄, h₅⟩ := ih (by omega) (by omega) (hnext ▸ hday)
      exact ⟨h₁, h₂, h₃, h₄, by rw [h₅, hnext]⟩

/-! ### Days -/

/-- The date that is `n` days after the first of January 1970. -/
def ofDayNumber (n : Int) : Date :=
  let days := n + daysBeforeYear 1970
  let year := yearOf days
  let monthAndDay := monthFrom year 1 (days - daysBeforeYear year).toNat 11
  ⟨year, monthAndDay.1, monthAndDay.2⟩

theorem ofDayNumber_spec (n : Int) :
    (ofDayNumber n).isValid = true ∧ (ofDayNumber n).dayNumber = n := by
  obtain ⟨hlow, hhigh⟩ := yearOf_spec (n + daysBeforeYear 1970)
  generalize hyear : yearOf (n + daysBeforeYear 1970) = year at hlow hhigh
  generalize hday : (n + daysBeforeYear 1970 - daysBeforeYear year).toNat = day
  have hfirst : daysBeforeMonth year 1 = 0 := rfl
  have hlt : daysBeforeMonth year 1 + day < daysBeforeMonth year 13 := by
    rw [hfirst, daysBeforeMonth_last]
    split at hhigh <;> simp_all <;> omega
  obtain ⟨h₁, h₂, h₃, h₄, h₅⟩ := monthFrom_spec year (Nat.le_refl 1) (rfl : 1 + 11 = 12) hlt
  have hdate : ofDayNumber n =
      ⟨year, (monthFrom year 1 day 11).1, (monthFrom year 1 day 11).2⟩ := by
    simp only [ofDayNumber, hyear, hday]
  rw [hdate]
  constructor
  · simp only [isValid, Bool.and_eq_true, decide_eq_true_eq]
    exact ⟨⟨⟨h₁, h₂⟩, h₃⟩, h₄⟩
  · simp only [dayNumber]
    omega

theorem isValid_ofDayNumber (n : Int) : (ofDayNumber n).isValid = true := (ofDayNumber_spec n).1

/-- The day of the date of a day. -/
theorem dayNumber_ofDayNumber (n : Int) : (ofDayNumber n).dayNumber = n := (ofDayNumber_spec n).2

end Date

/-! ### Instants -/

namespace Instant

/-- The date and the time of day of an instant in UTC. -/
def civil (i : Instant) : CivilTime where
  date := Date.ofDayNumber (i.seconds / 86400)
  hour := (i.seconds % 86400).toNat / 3600
  minute := (i.seconds % 86400).toNat / 60 % 60
  second := (i.seconds % 86400).toNat % 60
  nanos := i.nanos

theorem isValid_civil (i : Instant) : i.civil.isValid = true := by
  have hhour : (i.seconds % 86400).toNat / 3600 < 24 := by omega
  have hminute : (i.seconds % 86400).toNat / 60 % 60 < 60 := by omega
  have hsecond : (i.seconds % 86400).toNat % 60 ≤ 60 := by omega
  simp [CivilTime.isValid, civil, Date.isValid_ofDayNumber, hhour, hminute, hsecond]

/-- The instant of the civil time of an instant. -/
theorem instant_civil (i : Instant) : i.civil.instant 0 = i := by
  have hsecond : (i.seconds % 86400).toNat % 60 ≠ 60 := by omega
  obtain ⟨seconds, nanos⟩ := i
  simp only [CivilTime.instant, civil, Date.dayNumber_ofDayNumber, Instant.mk.injEq]
  refine ⟨?_, if_neg hsecond⟩
  have hmin : min ((seconds % 86400).toNat % 60) 59 = (seconds % 86400).toNat % 60 := by omega
  rw [hmin]
  omega

end Instant

end BucketWire

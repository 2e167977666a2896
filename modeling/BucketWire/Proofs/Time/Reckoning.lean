import BucketWire.Proofs.Time.Calendar
import Mathlib.Data.Int.Init
import Mathlib.Order.Monotone.Basic

/-!
# Counting days

The calendar goes from one date to the next: through the days of a month, the months of a year and
the years. Days are counted from the first of January 1970, forwards and backwards, one by one. The
number of a date, which is computed from its year, its month and its day, is what this count gives.

## Main definitions

* `Date.next` — the day after a date
* `Date.IsDay` — a date and its number, by counting

## Main results

* `Date.dayNumber_next` — the next day has the next number
* `Date.eq_of_dayNumber_eq` — no two dates have one number
* `Date.isDay_iff` — the number of a date is its count
-/

namespace BucketWire

namespace Date

variable {d d' : Date} {n : Int}

/-- The day after a date. -/
def next (d : Date) : Date :=
  if d.day < daysInMonth d.year d.month then ⟨d.year, d.month, d.day + 1⟩
  else if d.month < 12 then ⟨d.year, d.month + 1, 1⟩
  else ⟨d.year + 1, 1, 1⟩

/-- Counting from the first of January 1970, `d` is the day `n`. Days before it are counted
backwards. -/
inductive IsDay : Date → Int → Prop where
  | epoch : IsDay ⟨1970, 1, 1⟩ 0
  | next {d : Date} {n : Int} : IsDay d n → IsDay d.next (n + 1)
  | previous {d : Date} {n : Int} : d.isValid → IsDay d.next (n + 1) → IsDay d n

theorem isValid_iff : d.isValid ↔
    (1 ≤ d.month ∧ d.month ≤ 12) ∧ 1 ≤ d.day ∧ d.day ≤ daysInMonth d.year d.month := by
  simp only [isValid, Bool.and_eq_true, decide_eq_true_eq, and_assoc]

/-! ### The next day -/

theorem one_le_daysInMonth (year : Int) (month : Nat) : 1 ≤ daysInMonth year month := by
  rw [daysInMonth.eq_def]
  split
  · split <;> omega
  all_goals omega

theorem daysBeforeYear_succ (year : Int) :
    daysBeforeYear (year + 1) = daysBeforeYear year + daysBeforeMonth year 13 := by
  rw [daysBeforeMonth_last, daysBeforeYear, daysBeforeYear]
  split
  · rename_i hleap
    rw [isLeapYear_iff] at hleap
    omega
  · rename_i hleap
    rw [isLeapYear_iff] at hleap
    omega

/-- After a date comes a date. -/
theorem isValid_next (h : d.isValid) : d.next.isValid := by
  rw [isValid_iff] at h
  rw [next]
  split
  · rw [isValid_iff]
    simp only
    omega
  · split
    · have := one_le_daysInMonth d.year (d.month + 1)
      rw [isValid_iff]
      simp only
      omega
    · have := one_le_daysInMonth (d.year + 1) 1
      rw [isValid_iff]
      simp only
      omega

/-- The next day has the next number, also across the end of a month and of a year. -/
theorem dayNumber_next (h : d.isValid) : d.next.dayNumber = d.dayNumber + 1 := by
  rw [isValid_iff] at h
  rw [next]
  split
  · simp only [dayNumber]
    omega
  · have hmonth := daysBeforeMonth_succ d.year h.1.1
    split
    · simp only [dayNumber]
      omega
    · have hfirst : daysBeforeMonth (d.year + 1) 1 = 0 := rfl
      have hyear := daysBeforeYear_succ d.year
      have hlast : d.month + 1 = 13 := by omega
      rw [hlast] at hmonth
      simp only [dayNumber]
      omega

/-! ### Dates with one number -/

theorem daysBeforeMonth_mono (year : Int) {month month' : Nat} (hmonth : 1 ≤ month)
    (h : month ≤ month') : daysBeforeMonth year month ≤ daysBeforeMonth year month' := by
  induction month', h using Nat.le_induction with
  | base => exact Nat.le_refl _
  | succ month' hle ih =>
    rw [daysBeforeMonth_succ year (hmonth.trans hle)]
    omega

theorem daysBeforeYear_mono {year later : Int} (h : year ≤ later) :
    daysBeforeYear year ≤ daysBeforeYear later := by
  refine monotone_int_of_le_succ (fun year => ?_) h
  rw [daysBeforeYear_succ]
  omega

/-- A date in an earlier year has a smaller number. -/
theorem dayNumber_lt_of_year_lt (h : d.isValid) (h' : d'.isValid) (hyear : d.year < d'.year) :
    d.dayNumber < d'.dayNumber := by
  rw [isValid_iff] at h h'
  have hmonth := daysBeforeMonth_succ d.year h.1.1
  have hlast := daysBeforeMonth_mono d.year (Nat.le_add_left 1 d.month)
    (show d.month + 1 ≤ 13 by omega)
  have hnext := daysBeforeYear_succ d.year
  have hle := daysBeforeYear_mono (show d.year + 1 ≤ d'.year from hyear)
  simp only [dayNumber]
  omega

/-- A date in an earlier month of a year has a smaller number. -/
theorem dayNumber_lt_of_month_lt (h : d.isValid) (h' : d'.isValid) (hyear : d.year = d'.year)
    (hmonth : d.month < d'.month) : d.dayNumber < d'.dayNumber := by
  rw [isValid_iff] at h h'
  have hnext := daysBeforeMonth_succ d.year h.1.1
  have hle := daysBeforeMonth_mono d.year (Nat.le_add_left 1 d.month) hmonth
  simp only [dayNumber, ← hyear]
  omega

/-- No two dates have one number. -/
theorem eq_of_dayNumber_eq (h : d.isValid) (h' : d'.isValid) (heq : d.dayNumber = d'.dayNumber) :
    d = d' := by
  have hyear : d.year = d'.year := by
    rcases Int.lt_trichotomy d.year d'.year with hlt | heq | hlt
    · have := dayNumber_lt_of_year_lt h h' hlt
      omega
    · exact heq
    · have := dayNumber_lt_of_year_lt h' h hlt
      omega
  have hmonth : d.month = d'.month := by
    rcases Nat.lt_trichotomy d.month d'.month with hlt | heq | hlt
    · have := dayNumber_lt_of_month_lt h h' hyear hlt
      omega
    · exact heq
    · have := dayNumber_lt_of_month_lt h' h hyear.symm hlt
      omega
  have hday : d.day = d'.day := by
    simp only [dayNumber, hyear, hmonth] at heq
    omega
  cases d
  cases d'
  simp_all

/-! ### The count -/

theorem next_ofDayNumber (n : Int) : (ofDayNumber n).next = ofDayNumber (n + 1) := by
  have hvalid := isValid_ofDayNumber n
  refine eq_of_dayNumber_eq (isValid_next hvalid) (isValid_ofDayNumber _) ?_
  rw [dayNumber_next hvalid, dayNumber_ofDayNumber, dayNumber_ofDayNumber]

/-- Every day is reached by counting. -/
theorem isDay_ofDayNumber (n : Int) : (ofDayNumber n).IsDay n := by
  induction n using Int.induction_on with
  | zero => exact .epoch
  | succ n ih => exact next_ofDayNumber n ▸ .next ih
  | pred n ih =>
    refine .previous (isValid_ofDayNumber _) ?_
    rwa [next_ofDayNumber, Int.sub_add_cancel]

/-- What is counted is a date with its number. -/
theorem IsDay.isValid_and_dayNumber_eq (h : d.IsDay n) : d.isValid ∧ d.dayNumber = n := by
  induction h with
  | epoch => decide
  | next _ ih => exact ⟨isValid_next ih.1, by rw [dayNumber_next ih.1, ih.2]⟩
  | previous hvalid _ ih =>
    have hnext := dayNumber_next hvalid
    exact ⟨hvalid, by omega⟩

/-- The number of a date is its count. -/
theorem isDay_iff (h : d.isValid) : d.IsDay n ↔ n = d.dayNumber := by
  constructor
  · intro hd
    exact hd.isValid_and_dayNumber_eq.2.symm
  · rintro rfl
    have heq : d = ofDayNumber d.dayNumber :=
      eq_of_dayNumber_eq h (isValid_ofDayNumber _) (dayNumber_ofDayNumber _).symm
    have hcount := isDay_ofDayNumber d.dayNumber
    rwa [← heq] at hcount

end Date

end BucketWire

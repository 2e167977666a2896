import BucketWire.Proofs.Outcome
import BucketWire.Proofs.Text.Blank
import BucketWire.Proofs.Time.Calendar
import BucketWire.Proofs.Time.Stamp
import BucketWire.Time.Lenient

/-!
# Timestamps read leniently

The lenient reader takes fewer of the timestamps with fields of fixed width than the strict one, as
it knows one separator and one zone alone. Those that it takes it reads as the strict one does.

## Main results

* `LenientTime.read_chars` — a timestamp in UTC is read if its date and time exist
* `LenientTime.of_read_chars` — no other timestamp is read
-/

namespace BucketWire

open Digits (padded length_padded)
open Rfc3339 (Stamp pointed)

namespace LenientTime

open Outcome (exists_of_bind_eq_ok)

variable {n v : Nat} {rest : List Char}

/-! ### Fields -/

/-- A field of fixed width has no blanks in front. -/
theorem trimFront_padded (hn : 0 < n) (rest : List Char) :
    Text.trimFront (padded n v ++ rest) = padded n v ++ rest := by
  refine Text.trimFront_of_head? fun c hc => ?_
  rw [List.head?_append_of_ne_nil _ (Digits.padded_ne_nil hn v)] at hc
  exact Text.not_isBlank_of_isDigit (Digits.isDigit_of_mem_padded (List.mem_of_head? hc))

theorem digits_padded (hn : 0 < n) (hv : v < 10 ^ n) (rest : List Char) :
    digits (some n) (padded n v ++ rest) = .ok (v, rest) := by
  have hdigits : ∀ c ∈ padded n v, c.isDigit := fun c hc => Digits.isDigit_of_mem_padded hc
  have htake : ((padded n v ++ rest).takeWhile Char.isDigit).take n = padded n v := by
    rw [List.takeWhile_append_of_pos hdigits, List.take_left' (length_padded n v)]
  have hdrop : (padded n v ++ rest).drop (padded n v).length = rest := List.drop_left
  have hempty : ¬ (padded n v).isEmpty := by
    rw [List.isEmpty_iff_length_eq_zero, length_padded]
    omega
  simp only [digits, htake]
  rw [if_neg hempty, hdrop, Digits.value_padded hv]

theorem number_padded (hv : v < 10 ^ 2) (low high : Nat) (rest : List Char) :
    number low high (padded 2 v ++ rest) =
      if low ≤ v ∧ v ≤ high then .ok (v, rest) else .error .outOfRange := by
  rw [number, trimFront_padded (by omega), digits_padded (by omega) hv]
  rfl

/-- Digits are read as a year if it passes the check. The check is left open here, since the bounds
of a year are large and must not be computed with. -/
theorem year_of_digits {found : Except Fault (Nat × List Char)} (hfound : found = .ok (v, rest))
    (inRange : Int → Prop) [DecidablePred inRange] (hv : inRange v) :
    (do
      let (y, rest) ← found.map fun (found : Nat × List Char) => ((found.1 : Int), found.2)
      if inRange y then Except.ok (y, rest) else Except.error Fault.outOfRange) =
      .ok ((v : Int), rest) := by
  rw [hfound]
  exact if_pos hv

theorem year_padded (hv : v < 10 ^ 4) (rest : List Char) :
    year (padded 4 v ++ rest) = .ok ((v : Int), rest) := by
  have hread := digits_padded (by omega) hv rest
  have hyear : -0x80000000 ≤ (v : Int) ∧ (v : Int) < 0x80000000 := by omega
  rw [year, trimFront_padded (by omega)]
  obtain ⟨c, cs, hcs⟩ := List.exists_cons_of_ne_nil (Digits.padded_ne_nil (by omega : 0 < 4) v)
  have hc : c.isDigit := Digits.isDigit_of_mem_padded (hcs ▸ List.mem_cons_self)
  have hsign : c ≠ '-' ∧ c ≠ '+' := by
    constructor <;> (rintro rfl; exact absurd hc (by decide))
  rw [hcs, List.cons_append] at hread ⊢
  split
  · rename_i heq
    exact absurd (List.cons.inj heq).1 hsign.1
  · rename_i heq
    exact absurd (List.cons.inj heq).1 hsign.2
  · exact year_of_digits hread (fun y => -0x80000000 ≤ y ∧ y < 0x80000000) hyear

theorem fraction_pointed {ds : List Char} (hds : ∀ c ∈ ds, c.isDigit)
    (hrest : ∀ c ∈ rest.head?, ¬ c.isDigit ∧ c ≠ '.') :
    fraction (pointed ds ++ rest) = .ok (Digits.nanoseconds ds, rest) := by
  cases ds with
  | nil =>
    rw [pointed, List.nil_append]
    cases rest with
    | nil => rfl
    | cons c rest =>
      have hc : c ≠ '.' := (hrest c rfl).2
      simp [fraction, hc]
      rfl
  | cons d ds =>
    have hspan := Rfc3339.span_append hds fun c hc => (hrest c hc).1
    rw [pointed, List.cons_append, fraction, hspan]

/-! ### Timestamps -/

variable {s : Stamp} {i : Instant}

theorem literal_cons (c : Char) (rest : List Char) : literal c (c :: rest) = .ok rest := if_pos rfl

theorem of_literal_cons {c c' : Char} {cs : List Char} (h : literal c (c' :: rest) = .ok cs) :
    c' = c ∧ cs = rest := by
  rw [literal] at h
  split at h
  · rename_i hc
    exact ⟨hc, (Except.ok.inj h).symm⟩
  · cases h

theorem of_number_padded {low high m : Nat} {cs : List Char} (hv : v < 10 ^ 2)
    (h : number low high (padded 2 v ++ rest) = .ok (m, cs)) : m = v ∧ cs = rest := by
  rw [number_padded hv] at h
  split at h
  · cases h
    exact ⟨rfl, rfl⟩
  · cases h

/-- The ranges of numbers are those of the date and the clock. -/
theorem inRange_of_isValid (h : s.time.isValid) : (1 ≤ s.month ∧ s.month ≤ 12) ∧
    (1 ≤ s.day ∧ s.day ≤ 31) ∧ s.hour ≤ 23 ∧ s.minute ≤ 59 ∧ s.second ≤ 60 := by
  simp only [CivilTime.isValid, Date.isValid, Bool.and_eq_true, decide_eq_true_eq] at h
  have hdays := Date.daysInMonth_le s.year s.month
  simp only [Stamp.time] at h
  omega

/-- A timestamp in UTC is read if its date and its time exist. -/
theorem read_chars (hs : s.IsWritten) (hseparator : s.separator = 'T') (hzone : s.zone = .utc 'Z')
    (h : s.time.isValid) : read s.chars = .ok (s.time.instant 0) := by
  obtain ⟨hmonth, hday, hhour, hminute, hsecond⟩ := inRange_of_isValid h
  have hfraction := @fraction_pointed ['Z'] s.fraction hs.isDigit_of_mem (by
    rintro c ⟨⟩
    decide)
  have hyear : isYear s.year = true := by
    have hlt := hs.year_lt
    simp only [isYear, Bool.and_eq_true, decide_eq_true_eq]
    omega
  simp only [read, Stamp.chars, hseparator, hzone, Rfc3339.Zone.chars, bind, Except.bind,
    year_padded hs.year_lt, literal_cons, number_padded hs.month_lt, if_pos hmonth,
    number_padded hs.day_lt, if_pos hday, number_padded hs.hour_lt,
    if_pos (And.intro (Nat.zero_le _) hhour), number_padded hs.minute_lt,
    if_pos (And.intro (Nat.zero_le _) hminute), number_padded hs.second_lt,
    if_pos (And.intro (Nat.zero_le _) hsecond), hfraction]
  rw [if_neg (by decide)]
  exact if_pos ⟨hyear, h⟩

/-- A timestamp of another form is not read, nor one of a date or a time that does not exist. -/
theorem of_read_chars (hs : s.IsWritten) (h : read s.chars = .ok i) :
    s.separator = 'T' ∧ s.zone = .utc 'Z' ∧ s.time.isValid ∧ i = s.time.instant 0 := by
  obtain ⟨⟨year, cs₁⟩, hyear, h⟩ := exists_of_bind_eq_ok h
  obtain ⟨cs₂, hdash, h⟩ := exists_of_bind_eq_ok h
  obtain ⟨⟨month, cs₃⟩, hmonth, h⟩ := exists_of_bind_eq_ok h
  obtain ⟨cs₄, hdash', h⟩ := exists_of_bind_eq_ok h
  obtain ⟨⟨day, cs₅⟩, hday, h⟩ := exists_of_bind_eq_ok h
  obtain ⟨cs₆, hseparator, h⟩ := exists_of_bind_eq_ok h
  obtain ⟨⟨hour, cs₇⟩, hhour, h⟩ := exists_of_bind_eq_ok h
  obtain ⟨cs₈, hcolon, h⟩ := exists_of_bind_eq_ok h
  obtain ⟨⟨minute, cs₉⟩, hminute, h⟩ := exists_of_bind_eq_ok h
  obtain ⟨cs₁₀, hcolon', h⟩ := exists_of_bind_eq_ok h
  obtain ⟨⟨second, cs₁₁⟩, hsecond, h⟩ := exists_of_bind_eq_ok h
  obtain ⟨⟨nanos, cs₁₂⟩, hfraction, h⟩ := exists_of_bind_eq_ok h
  obtain ⟨cs₁₃, hzone, hend⟩ := exists_of_bind_eq_ok h
  rw [Stamp.chars, year_padded hs.year_lt] at hyear
  cases hyear
  obtain ⟨-, rfl⟩ := of_literal_cons hdash
  obtain ⟨rfl, rfl⟩ := of_number_padded hs.month_lt hmonth
  obtain ⟨-, rfl⟩ := of_literal_cons hdash'
  obtain ⟨rfl, rfl⟩ := of_number_padded hs.day_lt hday
  obtain ⟨hT, rfl⟩ := of_literal_cons hseparator
  obtain ⟨rfl, rfl⟩ := of_number_padded hs.hour_lt hhour
  obtain ⟨-, rfl⟩ := of_literal_cons hcolon
  obtain ⟨rfl, rfl⟩ := of_number_padded hs.minute_lt hminute
  obtain ⟨-, rfl⟩ := of_literal_cons hcolon'
  obtain ⟨rfl, rfl⟩ := of_number_padded hs.second_lt hsecond
  rw [fraction_pointed hs.isDigit_of_mem fun c hc =>
    ⟨(Rfc3339.Zone.head?_chars hs.zone c hc).1, (Rfc3339.Zone.head?_chars hs.zone c hc).2.1⟩]
    at hfraction
  cases hfraction
  have hZ : s.zone = .utc 'Z' := by
    cases hz : s.zone with
    | utc letter =>
      rw [hz] at hzone
      rw [(of_literal_cons hzone).1]
    | clock sign hours minutes =>
      have hsign := hs.zone
      rw [hz] at hsign hzone
      have hmem := hsign.1
      rw [(of_literal_cons hzone).1] at hmem
      exact absurd hmem (by decide)
  split at hend
  · cases hend
  · simp only at hend
    split at hend
    · rename_i hvalid
      exact ⟨hT, hZ, hvalid.2, (Except.ok.inj hend).symm⟩
    · cases hend

end LenientTime

end BucketWire

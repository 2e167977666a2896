import BucketWire.Proofs.Time.Agreement
import BucketWire.Proofs.Time.Reckoning
import Mathlib.Algebra.Order.Floor.Semifield
import Mathlib.Data.Rat.Floor
import Mathlib.Tactic.Linarith

/-!
# The instant of a timestamp

A timestamp denotes a moment: the days since the start of 1970, the time of day, less the offset of
its zone, and a fraction of a second of any length. What is read is this moment to the nanosecond,
so timestamps of one moment are read as one instant, in whatever zone they are written, and a later
moment as no earlier instant. A date or a time that does not exist is not taken for another one.

## Main definitions

* `Rfc3339.Stamp.IsIn` — a text is a timestamp between blanks
* `Rfc3339.Stamp.moment` — the moment that a timestamp denotes
* `Instant.ofMoment` — a moment to the nanosecond

## Main results

* `Rfc3339.Stamp.instant_time` — a timestamp is read as its moment
* `Timestamp.denotes_instant` — the value of a text that holds a timestamp
-/

namespace BucketWire

open Digits (padded length_padded)

/-! ### Timestamps between blanks -/

namespace Rfc3339

variable {zone : Zone} {s : Stamp} {text : String}

theorem Zone.not_isBlank_of_mem_chars {c : Char} (h : zone.IsWritten) (hc : c ∈ zone.chars) :
    ¬ Text.isBlank c := by
  have hpadded : ∀ n v, c ∈ padded n v → ¬ Text.isBlank c := fun n v hc =>
    Text.not_isBlank_of_isDigit (Digits.isDigit_of_mem_padded hc)
  cases zone with
  | utc letter =>
    obtain rfl : c = letter := List.mem_singleton.mp hc
    exact (Zone.head?_chars h c rfl).2.2
  | clock sign hours minutes =>
    simp only [chars, List.mem_cons, List.mem_append] at hc
    rcases hc with rfl | hc | rfl | hc
    · exact (Zone.head?_chars h c rfl).2.2
    · exact hpadded _ _ hc
    · decide
    · exact hpadded _ _ hc

theorem Zone.chars_ne_nil (zone : Zone) : zone.chars ≠ [] := by
  cases zone <;> simp [chars]

namespace Stamp

/-- The text is the timestamp, with any blanks around it. -/
structure IsIn (s : Stamp) (text : String) : Prop where
  isWritten : s.IsWritten
  exists_blanks : ∃ front back, (∀ c ∈ front, Text.isBlank c) ∧ (∀ c ∈ back, Text.isBlank c) ∧
    text.toList = front ++ (s.chars ++ back)

/-- The timestamp is what is left when the blanks are removed. Among its own characters may be a
blank, which separates the date from the time. -/
theorem IsIn.trim_eq (h : s.IsIn text) : Text.trim text = String.ofList s.chars := by
  obtain ⟨front, back, hfront, hback, htext⟩ := h.exists_blanks
  refine Text.trim_append htext hfront hback ?_ ?_
  · intro c hc
    rw [chars, List.head?_append_of_ne_nil _ (Digits.padded_ne_nil (by omega) _)] at hc
    exact Text.not_isBlank_of_isDigit (Digits.isDigit_of_mem_padded (List.mem_of_head? hc))
  · intro c hc
    have hend : s.chars.getLast? = s.zone.chars.getLast? := by
      simp only [chars, ← List.cons_append, ← List.append_assoc]
      exact List.getLast?_append_of_ne_nil _ (Zone.chars_ne_nil _)
    rw [hend] at hc
    exact Zone.not_isBlank_of_mem_chars h.isWritten.zone (List.mem_of_getLast? hc)

end Stamp

end Rfc3339

/-! ### Values -/

namespace Scalar

open Rfc3339 (Stamp)

variable {s : Stamp} {text : String}

/-- A timestamp of a date and a time that exist is their instant. -/
theorem timestamp_of_isIn (h : s.IsIn text) (hvalid : s.time.isValid) :
    timestamp text = .ok (some (s.time.instant s.zone.seconds)) := by
  rw [timestamp_eq_ok_iff, Timestamp.read_eq_some_iff, h.trim_eq, String.toList_ofList]
  exact .inl (by rw [Rfc3339.read?_chars h.isWritten, if_pos hvalid])

/-- A timestamp of a date or a time that does not exist is a fault, for the lenient reader too. -/
theorem timestamp_of_not_isValid (h : s.IsIn text) (hvalid : ¬ s.time.isValid) :
    ∃ fault, timestamp text = .error (.timestamp (String.ofList s.chars) fault) := by
  have hstrict : Rfc3339.read? s.chars = none := by
    rw [Rfc3339.read?_chars h.isWritten, if_neg hvalid]
  have hempty : ¬ (String.ofList s.chars).isEmpty := by
    rw [String.isEmpty_iff, ← String.toList_eq_nil_iff, String.toList_ofList, Stamp.chars]
    exact List.append_ne_nil_of_left_ne_nil (Digits.padded_ne_nil (by omega) _) _
  rw [timestamp, h.trim_eq, Timestamp.read, if_neg hempty, String.toList_ofList, hstrict]
  cases hlenient : LenientTime.read s.chars with
  | ok i => exact absurd (LenientTime.of_read_chars h.isWritten hlenient).2.2.1 hvalid
  | error fault => exact ⟨fault, rfl⟩

end Scalar

/-! ### Moments -/

/-- A moment, in seconds since the start of 1970, to the nanosecond. -/
def Instant.ofMoment (q : ℚ) : Instant where
  seconds := ⌊q⌋
  nanos := ⌊Int.fract q * 1000000000⌋₊

/-- A later moment is no earlier instant. -/
theorem Instant.ofMoment_mono {q q' : ℚ} (h : q ≤ q') :
    (ofMoment q).seconds < (ofMoment q').seconds ∨
      (ofMoment q).seconds = (ofMoment q').seconds ∧ (ofMoment q).nanos ≤ (ofMoment q').nanos := by
  rcases lt_or_eq_of_le (Int.floor_mono h) with hlt | heq
  · exact .inl hlt
  · refine .inr ⟨heq, Nat.floor_mono ?_⟩
    have hfract : Int.fract q ≤ Int.fract q' := by
      rw [Int.fract, Int.fract, heq]
      exact sub_le_sub_right h _
    exact mul_le_mul_of_nonneg_right hfract (by norm_num)

namespace Rfc3339.Stamp

variable {s : Stamp}

/-- The moment that a timestamp denotes, in seconds since the start of 1970 in UTC. -/
def moment (s : Stamp) : ℚ :=
  86400 * s.time.date.dayNumber + (3600 * s.hour + 60 * s.minute + s.second : Nat) -
    s.zone.seconds + Digits.value s.fraction / 10 ^ s.fraction.length

/-- Outside leap seconds a timestamp is read as its moment. -/
theorem instant_time (hdigits : ∀ c ∈ s.fraction, c.isDigit) (hsecond : s.second < 60) :
    s.time.instant s.zone.seconds = Instant.ofMoment s.moment := by
  generalize hbase : 86400 * s.time.date.dayNumber +
    (3600 * s.hour + 60 * s.minute + s.second : Nat) - s.zone.seconds = base
  generalize hpart : (Digits.value s.fraction / 10 ^ s.fraction.length : ℚ) = part
  have hmoment : s.moment = base + part := by
    rw [moment, hpart, ← hbase]
    push_cast
    ring
  have hpart₀ : 0 ≤ part := by
    rw [← hpart]
    positivity
  have hpart₁ : part < 1 := by
    rw [← hpart, div_lt_one (by positivity)]
    exact_mod_cast Digits.value_lt hdigits
  have hnanos : ⌊part * 1000000000⌋₊ = Digits.nanoseconds s.fraction := by
    have hdiv : part * 1000000000 =
        ((Digits.value s.fraction * 10 ^ 9 : Nat) : ℚ) / ((10 ^ s.fraction.length : Nat) : ℚ) := by
      rw [← hpart]
      push_cast
      ring
    rw [hdiv, Nat.floor_div_eq_div, Digits.nanoseconds_eq_div hdigits]
  rw [Instant.ofMoment, hmoment, Int.floor_intCast_add, Int.floor_eq_zero_iff.mpr ⟨hpart₀, hpart₁⟩,
    Int.fract_intCast_add, Int.fract_eq_self.mpr ⟨hpart₀, hpart₁⟩, hnanos, CivilTime.instant]
  have hmin : min s.time.second 59 = s.second := Nat.min_eq_left (Nat.le_of_lt_succ hsecond)
  have hleap : s.time.second ≠ 60 := Nat.ne_of_lt hsecond
  rw [hmin, if_neg hleap, Int.add_zero, ← hbase]
  rfl

/-- The instant of a timestamp by its parts, in leap seconds too. -/
theorem instant_time_eq (s : Stamp) : s.time.instant s.zone.seconds =
    { seconds := 86400 * s.time.date.dayNumber +
        (3600 * s.hour + 60 * s.minute + min s.second 59 : Nat) - s.zone.seconds
      nanos := Digits.value ((s.fraction ++ List.replicate 9 '0').take 9) +
        if s.second = 60 then 1000000000 else 0 } := by
  have hnanos : (if s.time.second = 60 then 1000000000 + s.time.nanos else s.time.nanos) =
      Digits.value ((s.fraction ++ List.replicate 9 '0').take 9) +
        if s.second = 60 then 1000000000 else 0 := by
    rw [← Digits.nanoseconds_eq_value]
    show (if s.second = 60 then 1000000000 + Digits.nanoseconds s.fraction
      else Digits.nanoseconds s.fraction) = _
    by_cases hleap : s.second = 60
    · rw [if_pos hleap, if_pos hleap, Nat.add_comm]
    · rw [if_neg hleap, if_neg hleap, Nat.add_zero]
  rw [CivilTime.instant, hnanos]
  rfl

end Rfc3339.Stamp

namespace Timestamp

open Rfc3339 (Stamp)

/-- A text that holds a timestamp has the instant of the timestamp as its value: the days of its
date, counted from the first of January 1970, its time of day, in which second 60 counts as second
59, the offset of its zone, and nine digits of its fraction, with a billion nanoseconds more in a
leap second. So outside leap seconds timestamps of one moment have one value, and a later moment has
no earlier value. A timestamp of a date or a time that does not exist has no value. -/
theorem denotes_instant :
    (∀ (s : Stamp) (text : String), s.IsIn text → s.time.isValid →
      (∀ n, s.time.date.IsDay n ↔ n = s.time.date.dayNumber) ∧
      Scalar.timestamp text = .ok (some
        { seconds := 86400 * s.time.date.dayNumber +
            (3600 * s.hour + 60 * s.minute + min s.second 59 : Nat) - s.zone.seconds
          nanos := Digits.value ((s.fraction ++ List.replicate 9 '0').take 9) +
            if s.second = 60 then 1000000000 else 0 })) ∧
    (∀ (s s' : Stamp) (text text' : String), s.IsIn text → s'.IsIn text' → s.time.isValid →
      s'.time.isValid → s.second < 60 → s'.second < 60 → s.moment ≤ s'.moment →
        ∃ i i', Scalar.timestamp text = .ok (some i) ∧ Scalar.timestamp text' = .ok (some i') ∧
          (i.seconds < i'.seconds ∨ i.seconds = i'.seconds ∧ i.nanos ≤ i'.nanos) ∧
          (s.moment = s'.moment → i = i')) ∧
    ∀ (s : Stamp) (text : String), s.IsIn text → ¬ s.time.isValid →
      ∃ fault, Scalar.timestamp text = .error (.timestamp (String.ofList s.chars) fault) := by
  refine ⟨?_, ?_, fun s text => Scalar.timestamp_of_not_isValid⟩
  · intro s text h hvalid
    have hdate : s.time.date.isValid := by
      simp only [CivilTime.isValid, Bool.and_eq_true] at hvalid
      exact hvalid.1.1.1
    refine ⟨fun n => Date.isDay_iff hdate, ?_⟩
    rw [Scalar.timestamp_of_isIn h hvalid, Stamp.instant_time_eq]
  · intro s s' text text' h h' hvalid hvalid' hsecond hsecond' hle
    have hs := Stamp.instant_time h.isWritten.isDigit_of_mem hsecond
    have hs' := Stamp.instant_time h'.isWritten.isDigit_of_mem hsecond'
    refine ⟨_, _, Scalar.timestamp_of_isIn h hvalid, Scalar.timestamp_of_isIn h' hvalid', ?_, ?_⟩
    · rw [hs, hs']
      exact Instant.ofMoment_mono hle
    · intro heq
      rw [hs, hs', heq]

theorem denotes_instant_on_leap_day :
    Scalar.timestamp "2016-12-31T23:59:60.25Z" = .ok (some ⟨1483228799, 1250000000⟩) ∧
    (∃ i, Scalar.timestamp " 2024-02-29T23:30:00.5-01:00\n" = .ok (some i) ∧
      Scalar.timestamp "2024-03-01T00:30:00.50Z" = .ok (some i)) ∧
    ∃ fault, Scalar.timestamp "2023-02-29T00:00:00Z" =
      .error (.timestamp "2023-02-29T00:00:00Z" fault) := by
  obtain ⟨hvalue, hmoments, hfault⟩ := denotes_instant
  let leap : Stamp := ⟨2016, 12, 31, 'T', 23, 59, 60, ['2', '5'], .utc 'Z'⟩
  let west : Stamp := ⟨2024, 2, 29, 'T', 23, 30, 0, ['5'], .clock '-' 1 0⟩
  let utc : Stamp := ⟨2024, 3, 1, 'T', 0, 30, 0, ['5', '0'], .utc 'Z'⟩
  let missing : Stamp := ⟨2023, 2, 29, 'T', 0, 0, 0, [], .utc 'Z'⟩
  have hleap : leap.IsIn "2016-12-31T23:59:60.25Z" :=
    ⟨by decide +kernel, [], [], by simp, by simp, by decide +kernel⟩
  have hwest : west.IsIn " 2024-02-29T23:30:00.5-01:00\n" :=
    ⟨by decide +kernel, [' '], ['\n'], List.all_eq_true.mp rfl, List.all_eq_true.mp rfl,
      by decide +kernel⟩
  have hutc : utc.IsIn "2024-03-01T00:30:00.50Z" :=
    ⟨by decide +kernel, [], [], by simp, by simp, by decide +kernel⟩
  have hmissing : missing.IsIn "2023-02-29T00:00:00Z" :=
    ⟨by decide +kernel, [], [], by simp, by simp, by decide +kernel⟩
  refine ⟨?_, ?_, ?_⟩
  · refine (hvalue leap _ hleap (by decide +kernel)).2.trans
      (congrArg (fun i => Except.ok (some i)) ?_)
    decide +kernel
  · have hday : west.time.date.dayNumber = 19782 := by decide +kernel
    have hday' : utc.time.date.dayNumber = 19783 := by decide +kernel
    have hbehind : west.zone.seconds = -3600 := by decide +kernel
    have hutc₀ : utc.zone.seconds = 0 := rfl
    have hfive : Digits.value west.fraction = 5 := by decide +kernel
    have hfifty : Digits.value utc.fraction = 50 := by decide +kernel
    have hmoment : west.moment = utc.moment := by
      rw [Stamp.moment, Stamp.moment, hday, hday', hfive, hfifty, hbehind, hutc₀]
      norm_num [west, utc]
    obtain ⟨i, i', hi, hi', -, heq⟩ := hmoments west utc _ _ hwest hutc (by decide +kernel)
      (by decide +kernel) (by decide) (by decide) hmoment.le
    exact ⟨i, hi, (heq hmoment) ▸ hi'⟩
  · have hchars : String.ofList missing.chars = "2023-02-29T00:00:00Z" := by decide +kernel
    obtain ⟨fault, hread⟩ := hfault missing _ hmissing (by decide +kernel)
    rw [hchars] at hread
    exact ⟨fault, hread⟩

end Timestamp

end BucketWire

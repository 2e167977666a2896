import BucketWire.Decode.Scalar
import BucketWire.Proofs.Time.Calendar
import BucketWire.Proofs.Time.Stamp

/-!
# Timestamps of instants

An instant is written as an RFC 3339 timestamp in UTC with nine digits of a fraction, and read back
from it.

## Main definitions

* `Rfc3339.format` — the timestamp of a civil time
* `Instant.IsWritable`, `Instant.timestamp` — instants that have a timestamp

## Main results

* `Rfc3339.read?_format` — a civil time is read back
* `Instant.read_timestamp` — an instant is read back
-/

namespace BucketWire

open Digits (padded)

namespace Rfc3339

/-- The characters of the timestamp of a civil time in UTC. -/
def format (t : CivilTime) : List Char :=
  padded 4 t.date.year.toNat ++ '-' :: (padded 2 t.date.month ++ '-' :: (padded 2 t.date.day ++
    'T' :: (padded 2 t.hour ++ ':' :: (padded 2 t.minute ++ ':' :: (padded 2 t.second ++
      '.' :: (padded 9 t.nanos ++ ['Z']))))))

/-- The parts of the timestamp of a civil time in UTC. -/
def stampOf (t : CivilTime) : Stamp where
  year := t.date.year.toNat
  month := t.date.month
  day := t.date.day
  separator := 'T'
  hour := t.hour
  minute := t.minute
  second := t.second
  fraction := padded 9 t.nanos
  zone := .utc 'Z'

theorem chars_stampOf (t : CivilTime) : (stampOf t).chars = format t := rfl

theorem isWritten_stampOf {t : CivilTime} (hvalid : t.isValid = true)
    (hyear : t.date.year ≤ 9999) : (stampOf t).IsWritten := by
  simp only [CivilTime.isValid, Date.isValid, Bool.and_eq_true, decide_eq_true_eq] at hvalid
  obtain ⟨⟨⟨⟨⟨⟨_, hmonth⟩, _⟩, hday⟩, hhour⟩, hminute⟩, hsecond⟩ := hvalid
  have hdays := Date.daysInMonth_le t.date.year t.date.month
  constructor <;> simp only [stampOf]
  case isDigit_of_mem => exact fun c hc => Digits.isDigit_of_mem_padded hc
  case separator_mem => decide
  case zone => decide
  all_goals omega

/-- A civil time is read back from its timestamp. -/
theorem read?_format {t : CivilTime} (hvalid : t.isValid = true) (hyear : 0 ≤ t.date.year)
    (hyear' : t.date.year ≤ 9999) (hnanos : t.nanos < 10 ^ 9) :
    read? (format t) = some (t.instant 0) := by
  have htime : (stampOf t).time = t := by
    rw [Stamp.time]
    simp only [stampOf, Digits.nanoseconds_padded hnanos, Int.toNat_of_nonneg hyear]
  rw [← chars_stampOf, read?_chars (isWritten_stampOf hvalid hyear'), htime, if_pos hvalid]
  rfl

theorem not_isBlank_of_mem_format {t : CivilTime} {c : Char} (hc : c ∈ format t) :
    ¬ Text.isBlank c := by
  have hpadded : ∀ n v, c ∈ padded n v → ¬ Text.isBlank c := fun n v hc =>
    Text.not_isBlank_of_isDigit (Digits.isDigit_of_mem_padded hc)
  simp only [format, List.mem_append, List.mem_cons, List.not_mem_nil, or_false] at hc
  rcases hc with hc | rfl | hc | rfl | hc | rfl | hc | rfl | hc | rfl | hc | rfl | hc | rfl
  all_goals first | exact hpadded _ _ hc | decide

end Rfc3339

namespace Instant

/-- The instant has a year of four digits and is in no leap second. -/
def IsWritable (i : Instant) : Prop :=
  (0 ≤ i.civil.date.year ∧ i.civil.date.year ≤ 9999) ∧ i.nanos < 10 ^ 9

instance (i : Instant) : Decidable i.IsWritable := inferInstanceAs (Decidable (_ ∧ _))

/-- The timestamp of an instant. -/
def timestamp (i : Instant) : String := String.ofList (Rfc3339.format i.civil)

/-- An instant is read back from its timestamp. -/
theorem read_timestamp {i : Instant} (h : i.IsWritable) :
    Timestamp.read i.timestamp = .ok (some i) := by
  obtain ⟨⟨hyear, hyear'⟩, hnanos⟩ := h
  have hread : Rfc3339.read? (Rfc3339.format i.civil) = some i := by
    rw [Rfc3339.read?_format (isValid_civil i) hyear hyear' hnanos, instant_civil]
  have hempty : ¬ i.timestamp.isEmpty := by
    intro hempty
    have hnil : Rfc3339.format i.civil = [] := by
      simpa [timestamp, String.isEmpty_iff] using hempty
    simp [Rfc3339.format] at hnil
  rw [Timestamp.read, if_neg hempty, timestamp, String.toList_ofList, hread]

end Instant

/-- An instant is the value of its timestamp. -/
theorem Scalar.timestamp_timestamp {i : Instant} (h : i.IsWritable) :
    Scalar.timestamp i.timestamp = .ok (some i) := by
  have htrim : Text.trim i.timestamp = i.timestamp := Text.trim_eq_self fun c hc =>
    Rfc3339.not_isBlank_of_mem_format (by rwa [Instant.timestamp, String.toList_ofList] at hc)
  rw [Scalar.timestamp, htrim, Instant.read_timestamp h]
  rfl

end BucketWire

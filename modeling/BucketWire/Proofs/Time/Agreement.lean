import BucketWire.Decode.Scalar
import BucketWire.Proofs.Time.Lenient

/-!
# Two forms of one timestamp

A text that both readers of timestamps take is a timestamp in UTC with fields of fixed width, and
both make the same instant of it. So it does not matter which of them is tried first.

## Main definitions

* `Timestamp.readLenientFirst` — reading with the two forms in the other order

## Main results

* `Timestamp.eq_of_read` — both readers make the same instant of a text
* `Timestamp.forms_agree` — what is read by either form
-/

namespace BucketWire

open Rfc3339 (Stamp)

namespace Timestamp

variable {cs : List Char} {i j : Instant} {s : Stamp}

/-- The instant that `text` denotes, with the lenient form tried before the strict one. -/
def readLenientFirst (text : String) : Except LenientTime.Fault (Option Instant) :=
  if text.isEmpty then .ok none
  else
    match LenientTime.read text.toList with
    | .ok instant => .ok (some instant)
    | .error fault =>
      match Rfc3339.read? text.toList with
      | some instant => .ok (some instant)
      | none => .error fault

/-- What the two readers make of a text is the same. -/
theorem eq_of_read (hstrict : Rfc3339.read? cs = some i) (hlenient : LenientTime.read cs = .ok j) :
    i = j := by
  obtain ⟨s, hs, -, rfl, rfl⟩ := Rfc3339.read?_eq_some_iff.mp hstrict
  obtain ⟨-, hzone, -, rfl⟩ := LenientTime.of_read_chars hs hlenient
  rw [hzone]
  rfl

/-- Of timestamps in UTC the two readers take the same. -/
theorem exists_read_iff (hs : s.IsWritten) (hseparator : s.separator = 'T')
    (hzone : s.zone = .utc 'Z') :
    (∃ i, Rfc3339.read? s.chars = some i) ↔ ∃ i, LenientTime.read s.chars = .ok i := by
  rw [Rfc3339.read?_chars hs]
  constructor
  · rintro ⟨i, hi⟩
    split at hi
    · rename_i hvalid
      exact ⟨_, LenientTime.read_chars hs hseparator hzone hvalid⟩
    · cases hi
  · rintro ⟨i, hi⟩
    obtain ⟨-, -, hvalid, -⟩ := LenientTime.of_read_chars hs hi
    exact ⟨_, if_pos hvalid⟩

/-- The order of the two forms makes no difference, not even for a text that neither takes. -/
theorem read_eq_readLenientFirst (text : String) : read text = readLenientFirst text := by
  rw [read, readLenientFirst]
  split
  · rfl
  · cases hstrict : Rfc3339.read? text.toList with
    | none => cases LenientTime.read text.toList <;> rfl
    | some i =>
      cases hlenient : LenientTime.read text.toList with
      | error fault => rfl
      | ok j => rw [eq_of_read hstrict hlenient]

/-- Nothing is read from an empty text, and from any other what either form makes of it. -/
theorem read_eq_some_iff {text : String} : read text = .ok (some i) ↔
    Rfc3339.read? text.toList = some i ∨ LenientTime.read text.toList = .ok i := by
  rw [read]
  split
  · rename_i hempty
    obtain rfl : text = "" := String.isEmpty_iff.mp hempty
    have hstrict : Rfc3339.read? [] = none := rfl
    have hlenient : LenientTime.read [] = .error .premature := rfl
    simp [hstrict, hlenient]
  · cases hstrict : Rfc3339.read? text.toList with
    | none => cases LenientTime.read text.toList <;> simp [Except.map]
    | some j =>
      simp only [Except.ok.injEq, Option.some.injEq]
      constructor
      · exact .inl
      · rintro (h | h)
        · exact h
        · exact eq_of_read hstrict h

theorem read_eq_none_iff {text : String} : read text = .ok none ↔ text.toList = [] := by
  rw [read, String.toList_eq_nil_iff]
  split
  · rename_i hempty
    simp [String.isEmpty_iff.mp hempty]
  · rename_i hempty
    rw [String.isEmpty_iff] at hempty
    cases Rfc3339.read? text.toList with
    | some i => simp [hempty]
    | none => cases LenientTime.read text.toList <;> simp [hempty, Except.map]

end Timestamp

theorem Scalar.timestamp_eq_ok_iff {text : String} {value : Option Instant} :
    Scalar.timestamp text = .ok value ↔ Timestamp.read (Text.trim text) = .ok value := by
  rw [Scalar.timestamp]
  cases Timestamp.read (Text.trim text) <;> simp [Except.mapError]

namespace Timestamp

/-- The two forms of a timestamp agree. A text that both readers take is the same instant for both;
a text has a value if it is blank or either reader takes it, in whichever order they are tried; and
of the timestamps in UTC with fields of fixed width both take the same. -/
theorem forms_agree :
    (∀ cs i j, Rfc3339.read? cs = some i → LenientTime.read cs = .ok j → i = j) ∧
    (∀ text,
      Scalar.timestamp text =
        (readLenientFirst (Text.trim text)).mapError (.timestamp (Text.trim text)) ∧
      (Scalar.timestamp text = .ok none ↔ ∀ c ∈ text.toList, Text.isBlank c) ∧
      ∀ i, Scalar.timestamp text = .ok (some i) ↔
        Rfc3339.read? (Text.trim text).toList = some i ∨
          LenientTime.read (Text.trim text).toList = .ok i) ∧
    ∀ s : Stamp, s.IsWritten → s.separator = 'T' → s.zone = .utc 'Z' →
      ((∃ i, Rfc3339.read? s.chars = some i) ↔ ∃ i, LenientTime.read s.chars = .ok i) := by
  refine ⟨fun cs i j => eq_of_read, fun text => ⟨?_, ?_, fun i => ?_⟩, fun s => exists_read_iff⟩
  · rw [Scalar.timestamp, read_eq_readLenientFirst]
  · rw [Scalar.timestamp_eq_ok_iff, read_eq_none_iff, Text.toList_trim_eq_nil_iff]
  · rw [Scalar.timestamp_eq_ok_iff, read_eq_some_iff]

theorem forms_agree_in_leap_second :
    (∃ i j, Rfc3339.read? "2016-12-31T23:59:60.25Z".toList = some i ∧
      LenientTime.read "2016-12-31T23:59:60.25Z".toList = .ok j ∧ i = j ∧ i.nanos = 1250000000) ∧
    ∃ i, Scalar.timestamp "\n2016-12-31T23:59:60.25Z " = .ok (some i) := by
  have hstrict : Rfc3339.read? "2016-12-31T23:59:60.25Z".toList =
      some ⟨1483228799, 1250000000⟩ := by decide +kernel
  have hlenient : LenientTime.read "2016-12-31T23:59:60.25Z".toList =
      .ok ⟨1483228799, 1250000000⟩ := by decide +kernel
  have htrim : Text.trim "\n2016-12-31T23:59:60.25Z " = "2016-12-31T23:59:60.25Z" := by
    decide +kernel
  obtain ⟨hsame, hunion, -⟩ := forms_agree
  refine ⟨⟨_, _, hstrict, hlenient, hsame _ _ _ hstrict hlenient, rfl⟩,
    ⟨1483228799, 1250000000⟩, ?_⟩
  rw [(hunion _).2.2, htrim]
  exact .inl hstrict

end Timestamp

end BucketWire

import BucketWire.Proofs.Time.Digits
import BucketWire.Time.Rfc3339

/-!
# How timestamps are written

An RFC 3339 timestamp is made up of numbers in fields of fixed width, a separator, the digits of a
fraction and a zone. The strict reader takes exactly what is written so, whatever the numbers are,
and asks the calendar and the clock afterwards.

## Main definitions

* `Rfc3339.Zone` — an offset from UTC as it is written
* `Rfc3339.Stamp` — a timestamp by its parts
* `Rfc3339.Stamp.chars` — a timestamp as it is written
* `Rfc3339.Stamp.time` — the civil time that a timestamp shows

## Main results

* `Rfc3339.read?_chars` — a timestamp is read if its date and time exist
* `Rfc3339.read?_eq_some_iff` — nothing else is read
-/

namespace BucketWire

open Digits (padded length_padded)

namespace Rfc3339

/-- An offset from UTC as it is written: a letter for none, or a sign with hours and minutes. -/
inductive Zone where
  | utc (letter : Char)
  | clock (sign : Char) (hours minutes : Nat)
  deriving DecidableEq, Repr

namespace Zone

/-- The letter is that of UTC, or the offset is less than a day; the minus sign may be the
typographic one. -/
def IsWritten : Zone → Prop
  | utc letter => letter ∈ ['Z', 'z']
  | clock sign hours minutes => sign ∈ ['+', '-', '\u2212'] ∧ hours < 24 ∧ minutes < 60

instance : (zone : Zone) → Decidable zone.IsWritten
  | utc letter => inferInstanceAs (Decidable (letter ∈ ['Z', 'z']))
  | clock sign hours minutes =>
    inferInstanceAs (Decidable (sign ∈ ['+', '-', '\u2212'] ∧ hours < 24 ∧ minutes < 60))

/-- The characters of an offset. -/
def chars : Zone → List Char
  | utc letter => [letter]
  | clock sign hours minutes => sign :: (padded 2 hours ++ ':' :: padded 2 minutes)

/-- The seconds by which the clock is ahead of UTC. -/
def seconds : Zone → Int
  | utc _ => 0
  | clock sign hours minutes =>
    if sign = '+' then (3600 * hours + 60 * minutes : Nat) else -(3600 * hours + 60 * minutes : Nat)

end Zone

/-- The point and the digits of a fraction, if there are digits. -/
def pointed : List Char → List Char
  | [] => []
  | c :: cs => '.' :: c :: cs

/-- A timestamp by its parts. Its date and its time need not exist. -/
structure Stamp where
  year : Nat
  month : Nat
  day : Nat
  /-- What stands between the date and the time. -/
  separator : Char
  hour : Nat
  minute : Nat
  second : Nat
  /-- The digits after the decimal point; without any there is no point. -/
  fraction : List Char
  zone : Zone
  deriving DecidableEq, Repr

namespace Stamp

/-- Every number fits its field, and the other parts are what may stand there. -/
structure IsWritten (s : Stamp) : Prop where
  year_lt : s.year < 10 ^ 4
  month_lt : s.month < 10 ^ 2
  day_lt : s.day < 10 ^ 2
  separator_mem : s.separator ∈ ['T', 't', ' ']
  hour_lt : s.hour < 10 ^ 2
  minute_lt : s.minute < 10 ^ 2
  second_lt : s.second < 10 ^ 2
  isDigit_of_mem : ∀ c ∈ s.fraction, c.isDigit
  zone : s.zone.IsWritten

-- The fraction is decided by going through its own characters and not through all there are.
instance (s : Stamp) : Decidable s.IsWritten :=
  decidable_of_iff
    (s.year < 10 ^ 4 ∧ s.month < 10 ^ 2 ∧ s.day < 10 ^ 2 ∧ s.separator ∈ ['T', 't', ' '] ∧
      s.hour < 10 ^ 2 ∧ s.minute < 10 ^ 2 ∧ s.second < 10 ^ 2 ∧ s.fraction.all Char.isDigit ∧
      s.zone.IsWritten)
    ⟨fun ⟨hyear, hmonth, hday, hseparator, hhour, hminute, hsecond, hfraction, hzone⟩ =>
        ⟨hyear, hmonth, hday, hseparator, hhour, hminute, hsecond, List.all_eq_true.mp hfraction,
          hzone⟩,
      fun ⟨hyear, hmonth, hday, hseparator, hhour, hminute, hsecond, hfraction, hzone⟩ =>
        ⟨hyear, hmonth, hday, hseparator, hhour, hminute, hsecond, List.all_eq_true.mpr hfraction,
          hzone⟩⟩

/-- The characters of a timestamp. -/
def chars (s : Stamp) : List Char :=
  padded 4 s.year ++ '-' :: (padded 2 s.month ++ '-' :: (padded 2 s.day ++
    s.separator :: (padded 2 s.hour ++ ':' :: (padded 2 s.minute ++ ':' :: (padded 2 s.second ++
      (pointed s.fraction ++ s.zone.chars))))))

/-- The civil time that a timestamp shows. -/
def time (s : Stamp) : CivilTime where
  date := ⟨s.year, s.month, s.day⟩
  hour := s.hour
  minute := s.minute
  second := s.second
  nanos := Digits.nanoseconds s.fraction

end Stamp

/-! ### Fields -/

section Fields

variable {n v : Nat} {cs rest : List Char}

theorem field?_padded (h : v < 10 ^ n) (rest : List Char) :
    field? n (padded n v ++ rest) = some (v, rest) := by
  have htake : (padded n v ++ rest).take n = padded n v :=
    List.take_left' (length_padded n v)
  have hdrop : (padded n v ++ rest).drop n = rest := List.drop_left' (length_padded n v)
  have hdigits : (padded n v).all Char.isDigit = true :=
    List.all_eq_true.mpr fun c hc => Digits.isDigit_of_mem_padded hc
  rw [field?, htake, hdrop, if_pos ⟨length_padded n v, hdigits⟩, Digits.value_padded h]

/-- What is read as a field is a number of its width. -/
theorem eq_padded_of_field? (h : field? n cs = some (v, rest)) :
    v < 10 ^ n ∧ cs = padded n v ++ rest := by
  rw [field?] at h
  split at h
  · rename_i hfield
    simp only [Option.some.injEq, Prod.mk.injEq] at h
    obtain ⟨rfl, rfl⟩ := h
    have hdigits : ∀ c ∈ cs.take n, c.isDigit := List.all_eq_true.mp hfield.2
    have hlt := Digits.value_lt hdigits
    have hpadded := Digits.padded_value hdigits
    rw [hfield.1] at hlt hpadded
    exact ⟨hlt, by rw [hpadded, List.take_append_drop]⟩
  · cases h

theorem literal?_cons {allowed : List Char} {c : Char} (h : c ∈ allowed) (rest : List Char) :
    literal? allowed (c :: rest) = some rest := if_pos h

theorem exists_of_literal? {allowed : List Char} (h : literal? allowed cs = some rest) :
    ∃ c ∈ allowed, cs = c :: rest := by
  cases cs with
  | nil => cases h
  | cons c cs =>
    rw [literal?] at h
    split at h
    · rename_i hc
      exact ⟨c, hc, by rw [Option.some.inj h]⟩
    · cases h

theorem eq_cons_of_literal? {c : Char} (h : literal? [c] cs = some rest) : cs = c :: rest := by
  obtain ⟨c', hc, rfl⟩ := exists_of_literal? h
  rw [List.mem_singleton.mp hc]

/-- The digits of a fraction go up to the first other character. -/
theorem span_append {ds : List Char} (hds : ∀ c ∈ ds, c.isDigit)
    (hrest : ∀ c ∈ rest.head?, ¬ c.isDigit) : Digits.span (ds ++ rest) = (ds, rest) := by
  rw [Digits.span, List.takeWhile_append_of_pos hds, List.dropWhile_append_of_pos hds]
  cases rest with
  | nil => simp
  | cons c rest =>
    have hc : ¬ c.isDigit := hrest c rfl
    rw [List.takeWhile_cons_of_neg hc, List.dropWhile_cons_of_neg hc, List.append_nil]

theorem fraction?_pointed {ds : List Char} (hds : ∀ c ∈ ds, c.isDigit)
    (hrest : ∀ c ∈ rest.head?, ¬ c.isDigit ∧ c ≠ '.') :
    fraction? (pointed ds ++ rest) = some (Digits.nanoseconds ds, rest) := by
  cases ds with
  | nil =>
    rw [pointed, List.nil_append]
    cases rest with
    | nil => rfl
    | cons c rest =>
      have hc : c ≠ '.' := (hrest c rfl).2
      simp [fraction?, hc]
      rfl
  | cons d ds =>
    have hspan := span_append hds fun c hc => (hrest c hc).1
    rw [pointed, List.cons_append, fraction?, hspan]

theorem exists_of_fraction? {nanos : Nat} (h : fraction? cs = some (nanos, rest)) :
    ∃ ds, (∀ c ∈ ds, c.isDigit) ∧ cs = pointed ds ++ rest ∧ nanos = Digits.nanoseconds ds := by
  unfold fraction? at h
  split at h
  · rename_i cs
    cases htake : cs.takeWhile Char.isDigit with
    | nil => simp [Digits.span, htake] at h
    | cons d ds =>
      simp only [Digits.span, htake, Option.some.injEq, Prod.mk.injEq] at h
      obtain ⟨rfl, rfl⟩ := h
      have hdigits : ∀ c ∈ cs.takeWhile Char.isDigit, c.isDigit := fun c hc =>
        List.mem_takeWhile_imp hc
      rw [htake] at hdigits
      refine ⟨d :: ds, hdigits, ?_, rfl⟩
      rw [pointed, List.cons_append, ← htake, List.takeWhile_append_dropWhile]
  · simp only [Option.some.injEq, Prod.mk.injEq] at h
    obtain ⟨rfl, rfl⟩ := h
    exact ⟨[], by simp, rfl, rfl⟩

end Fields

/-! ### Zones -/

section Zones

variable {cs : List Char} {seconds : Nat} {offset : Int} {zone : Zone}

theorem clockOffset?_padded {hours minutes : Nat} (hhours : hours < 24) (hminutes : minutes < 60) :
    clockOffset? (padded 2 hours ++ ':' :: padded 2 minutes) =
      some (3600 * hours + 60 * minutes) := by
  have hminutes' := @field?_padded 2 minutes (by omega) []
  rw [List.append_nil] at hminutes'
  refine Option.bind_eq_some_iff.mpr ⟨_, field?_padded (by omega) _, ?_⟩
  refine Option.bind_eq_some_iff.mpr ⟨_, literal?_cons (by simp) _, ?_⟩
  refine Option.bind_eq_some_iff.mpr ⟨_, hminutes', ?_⟩
  exact if_pos ⟨rfl, hhours, hminutes⟩

theorem exists_of_clockOffset? (h : clockOffset? cs = some seconds) :
    ∃ hours minutes, hours < 24 ∧ minutes < 60 ∧
      cs = padded 2 hours ++ ':' :: padded 2 minutes ∧ seconds = 3600 * hours + 60 * minutes := by
  obtain ⟨⟨hours, cs₁⟩, hhours, h⟩ := Option.bind_eq_some_iff.mp h
  obtain ⟨cs₂, hcolon, h⟩ := Option.bind_eq_some_iff.mp h
  obtain ⟨⟨minutes, cs₃⟩, hminutes, hend⟩ := Option.bind_eq_some_iff.mp h
  obtain ⟨-, rfl⟩ := eq_padded_of_field? hhours
  obtain rfl := eq_cons_of_literal? hcolon
  obtain ⟨-, rfl⟩ := eq_padded_of_field? hminutes
  simp only at hend
  split at hend
  · rename_i hclock
    obtain rfl : cs₃ = [] := by simpa using hclock.1
    refine ⟨hours, minutes, hclock.2.1, hclock.2.2, by rw [List.append_nil], ?_⟩
    exact (Option.some.inj hend).symm
  · cases hend

theorem offset?_chars (h : zone.IsWritten) : offset? zone.chars = some zone.seconds := by
  cases zone with
  | utc letter =>
    have hletter : letter = 'Z' ∨ letter = 'z' := by simpa [Zone.IsWritten] using h
    rcases hletter with rfl | rfl <;> rfl
  | clock sign hours minutes =>
    obtain ⟨hsign, hhours, hminutes⟩ := h
    have hclock := clockOffset?_padded hhours hminutes
    have hcases : sign = '+' ∨ sign = '-' ∨ sign = '\u2212' := by simpa using hsign
    rcases hcases with rfl | rfl | rfl
    all_goals
      rw [Zone.chars, offset?, hclock]
      rfl

theorem exists_of_offset? (h : offset? cs = some offset) :
    ∃ zone : Zone, zone.IsWritten ∧ cs = zone.chars ∧ offset = zone.seconds := by
  have hclock : ∀ {sign : Char} {cs : List Char} {f : Int → Int}, sign ∈ ['+', '-', '\u2212'] →
      (∀ n : Nat, f n = if sign = '+' then (n : Int) else -(n : Int)) →
      ((clockOffset? cs).bind fun n => some (n : Int)).map f = some offset →
        ∃ zone : Zone, zone.IsWritten ∧ sign :: cs = zone.chars ∧ offset = zone.seconds := by
    intro sign cs f hsign hf hmap
    obtain ⟨n, hn, rfl⟩ := Option.map_eq_some_iff.mp hmap
    obtain ⟨seconds, hseconds, hn⟩ := Option.bind_eq_some_iff.mp hn
    obtain rfl := Option.some.inj hn
    obtain ⟨hours, minutes, hhours, hminutes, rfl, rfl⟩ := exists_of_clockOffset? hseconds
    exact ⟨.clock sign hours minutes, ⟨hsign, hhours, hminutes⟩, rfl, hf _⟩
  unfold offset? at h
  split at h
  · exact ⟨.utc 'Z', by decide, rfl, (Option.some.inj h).symm⟩
  · exact ⟨.utc 'z', by decide, rfl, (Option.some.inj h).symm⟩
  · exact hclock (by decide) (fun n => rfl) h
  · exact hclock (by decide) (fun n => rfl) h
  · exact hclock (by decide) (fun n => rfl) h
  · cases h

/-- An offset starts with a letter or a sign. -/
theorem Zone.head?_chars (h : zone.IsWritten) :
    ∀ c ∈ zone.chars.head?, ¬ c.isDigit ∧ c ≠ '.' ∧ ¬ Text.isBlank c := by
  intro c hc
  have hmem : c ∈ ['Z', 'z', '+', '-', '\u2212'] := by
    cases zone with
    | utc letter =>
      obtain rfl : letter = c := Option.some.inj hc
      exact List.mem_append_left _ h
    | clock sign hours minutes =>
      obtain rfl : sign = c := Option.some.inj hc
      exact List.mem_append_right ['Z', 'z'] h.1
  simp only [List.mem_cons, List.not_mem_nil, or_false] at hmem
  rcases hmem with rfl | rfl | rfl | rfl | rfl <;> decide

end Zones

/-! ### Timestamps -/

variable {cs : List Char} {i : Instant} {s : Stamp}

/-- A timestamp denotes the instant at which a clock in its zone shows its time, if this date and
this time exist. -/
theorem read?_chars (h : s.IsWritten) :
    read? s.chars = if s.time.isValid then some (s.time.instant s.zone.seconds) else none := by
  have hdash (rest : List Char) : literal? ['-'] ('-' :: rest) = some rest :=
    literal?_cons (by simp) rest
  have hcolon (rest : List Char) : literal? [':'] (':' :: rest) = some rest :=
    literal?_cons (by simp) rest
  have hfraction := fraction?_pointed h.isDigit_of_mem fun c hc =>
    ⟨(Zone.head?_chars h.zone c hc).1, (Zone.head?_chars h.zone c hc).2.1⟩
  simp only [read?, Stamp.chars, bind, Option.bind, field?_padded h.year_lt, hdash,
    field?_padded h.month_lt, field?_padded h.day_lt, literal?_cons h.separator_mem,
    field?_padded h.hour_lt, hcolon, field?_padded h.minute_lt, field?_padded h.second_lt,
    hfraction, offset?_chars h.zone]
  rfl

/-- Nothing else is read: every part is found in the characters. -/
theorem read?_eq_some_iff : read? cs = some i ↔
    ∃ s : Stamp, s.IsWritten ∧ s.time.isValid ∧ cs = s.chars ∧
      i = s.time.instant s.zone.seconds := by
  constructor
  · intro h
    obtain ⟨⟨year, cs₁⟩, hyear, h⟩ := Option.bind_eq_some_iff.mp h
    obtain ⟨cs₂, hdash, h⟩ := Option.bind_eq_some_iff.mp h
    obtain ⟨⟨month, cs₃⟩, hmonth, h⟩ := Option.bind_eq_some_iff.mp h
    obtain ⟨cs₄, hdash', h⟩ := Option.bind_eq_some_iff.mp h
    obtain ⟨⟨day, cs₅⟩, hday, h⟩ := Option.bind_eq_some_iff.mp h
    obtain ⟨cs₆, hseparator, h⟩ := Option.bind_eq_some_iff.mp h
    obtain ⟨⟨hour, cs₇⟩, hhour, h⟩ := Option.bind_eq_some_iff.mp h
    obtain ⟨cs₈, hcolon, h⟩ := Option.bind_eq_some_iff.mp h
    obtain ⟨⟨minute, cs₉⟩, hminute, h⟩ := Option.bind_eq_some_iff.mp h
    obtain ⟨cs₁₀, hcolon', h⟩ := Option.bind_eq_some_iff.mp h
    obtain ⟨⟨second, cs₁₁⟩, hsecond, h⟩ := Option.bind_eq_some_iff.mp h
    obtain ⟨⟨nanos, cs₁₂⟩, hfraction, h⟩ := Option.bind_eq_some_iff.mp h
    obtain ⟨offset, hoffset, hend⟩ := Option.bind_eq_some_iff.mp h
    obtain ⟨hyear_lt, rfl⟩ := eq_padded_of_field? hyear
    obtain rfl := eq_cons_of_literal? hdash
    obtain ⟨hmonth_lt, rfl⟩ := eq_padded_of_field? hmonth
    obtain rfl := eq_cons_of_literal? hdash'
    obtain ⟨hday_lt, rfl⟩ := eq_padded_of_field? hday
    obtain ⟨separator, hseparator_mem, rfl⟩ := exists_of_literal? hseparator
    obtain ⟨hhour_lt, rfl⟩ := eq_padded_of_field? hhour
    obtain rfl := eq_cons_of_literal? hcolon
    obtain ⟨hminute_lt, rfl⟩ := eq_padded_of_field? hminute
    obtain rfl := eq_cons_of_literal? hcolon'
    obtain ⟨hsecond_lt, rfl⟩ := eq_padded_of_field? hsecond
    obtain ⟨fraction, hdigits, rfl, rfl⟩ := exists_of_fraction? hfraction
    obtain ⟨zone, hzone, rfl, rfl⟩ := exists_of_offset? hoffset
    let s : Stamp :=
      { year, month, day, separator, hour, minute, second, fraction, zone }
    have hread : (if s.time.isValid then some (s.time.instant zone.seconds) else none) = some i :=
      hend
    split at hread
    · rename_i hvalid
      have hwritten : s.IsWritten :=
        ⟨hyear_lt, hmonth_lt, hday_lt, hseparator_mem, hhour_lt, hminute_lt, hsecond_lt, hdigits,
          hzone⟩
      exact ⟨s, hwritten, hvalid, rfl, (Option.some.inj hread).symm⟩
    · cases hread
  · rintro ⟨s, hs, hvalid, rfl, rfl⟩
    rw [read?_chars hs, if_pos hvalid]

end Rfc3339

end BucketWire

import BucketWire.Time.Calendar
import BucketWire.Time.Digits

/-!
# RFC 3339 timestamps

`2006-02-03T16:45:09.5+01:00`: fields of fixed width, a `T` or a space between date and time, an
optional fraction, and `Z` or an offset from UTC.

## Main definitions

* `Rfc3339.offset?` — the offset at the end of a timestamp
* `Rfc3339.read?` — the instant that a timestamp denotes
-/

namespace BucketWire

namespace Rfc3339

/-- The value of the first `n` characters, which are digits, and the rest. -/
def field? (n : Nat) (cs : List Char) : Option (Nat × List Char) :=
  if (cs.take n).length = n ∧ (cs.take n).all Char.isDigit then
    some (Digits.value (cs.take n), cs.drop n)
  else none

/-- What follows a character that is one of `allowed`. -/
def literal? (allowed : List Char) : List Char → Option (List Char)
  | [] => none
  | c :: cs => if c ∈ allowed then some cs else none

/-- The nanoseconds of an optional fraction, and the rest. -/
def fraction? : List Char → Option (Nat × List Char)
  | '.' :: cs =>
    match Digits.span cs with
    | ([], _) => none
    | (digits, rest) => some (Digits.nanoseconds digits, rest)
  | cs => some (0, cs)

/-- The seconds of an offset `hh:mm`, less than a day, at the very end. -/
def clockOffset? (cs : List Char) : Option Nat := do
  let (hours, cs) ← field? 2 cs
  let cs ← literal? [':'] cs
  let (minutes, cs) ← field? 2 cs
  if cs.isEmpty ∧ hours < 24 ∧ minutes < 60 then some (3600 * hours + 60 * minutes) else none

/-- The seconds by which the clock is ahead of UTC. The minus sign may be the typographic one. -/
def offset? : List Char → Option Int
  | ['Z'] => some 0
  | ['z'] => some 0
  | '+' :: cs => (clockOffset? cs).map fun seconds => (seconds : Int)
  | '-' :: cs => (clockOffset? cs).map fun seconds => -(seconds : Int)
  | '\u2212' :: cs => (clockOffset? cs).map fun seconds => -(seconds : Int)
  | _ => none

/-- The instant that `cs` denotes, if it is an RFC 3339 timestamp. -/
def read? (cs : List Char) : Option Instant := do
  let (year, cs) ← field? 4 cs
  let cs ← literal? ['-'] cs
  let (month, cs) ← field? 2 cs
  let cs ← literal? ['-'] cs
  let (day, cs) ← field? 2 cs
  let cs ← literal? ['T', 't', ' '] cs
  let (hour, cs) ← field? 2 cs
  let cs ← literal? [':'] cs
  let (minute, cs) ← field? 2 cs
  let cs ← literal? [':'] cs
  let (second, cs) ← field? 2 cs
  let (nanos, cs) ← fraction? cs
  let offset ← offset? cs
  let time : CivilTime := { date := ⟨year, month, day⟩, hour, minute, second, nanos }
  if time.isValid then some (time.instant offset) else none

end Rfc3339

end BucketWire

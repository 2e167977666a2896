import BucketWire.Text.Blank
import BucketWire.Time.Calendar
import BucketWire.Time.Digits

/-!
# Lenient UTC timestamps

The second form of a timestamp, always in UTC: `2006-2-3T16:45:9.5Z`. Its fields may be short, may
have blanks in front, and the year may have a sign and then any number of digits. The reader works
from left to right and says what is wrong at the first place that is.

## Main definitions

* `LenientTime.Fault` — why a text is no such timestamp
* `LenientTime.number`, `LenientTime.year`, `LenientTime.literal`, `LenientTime.fraction` — the
  items
* `LenientTime.read` — the instant that a timestamp denotes
-/

namespace BucketWire

namespace LenientTime

/-- Why a text is no lenient timestamp. -/
inductive Fault where
  /-- A character cannot stand where it does. -/
  | invalid
  /-- A number is outside its range, or there is no such date. -/
  | outOfRange
  /-- The text ends where an item must start. -/
  | premature
  /-- The text goes on after the end of the timestamp. -/
  | trailing
  deriving DecidableEq, Repr

/-- The wording of a fault. -/
def Fault.message : Fault → String
  | .invalid => "input contains invalid characters"
  | .outOfRange => "input is out of range"
  | .premature => "premature end of input"
  | .trailing => "trailing input"

/-- The fault of missing an item at the front of `cs`. -/
def missing : List Char → Fault
  | [] => .premature
  | _ :: _ => .invalid

/-- One or more digits and the rest; no more than `width` digits are taken if it is given. -/
def digits (width : Option Nat) (cs : List Char) : Except Fault (Nat × List Char) :=
  let run := cs.takeWhile Char.isDigit
  let taken := match width with
    | none => run
    | some n => run.take n
  if taken.isEmpty then .error (missing cs)
  else .ok (Digits.value taken, cs.drop taken.length)

/-- A number of one or two digits from `low` to `high`, with blanks allowed in front. -/
def number (low high : Nat) (cs : List Char) : Except Fault (Nat × List Char) := do
  let (n, rest) ← digits (some 2) (Text.trimFront cs)
  if low ≤ n ∧ n ≤ high then .ok (n, rest) else .error .outOfRange

/-- A year: up to four digits, or a sign and any number of digits of a value of 32 bits, with
blanks allowed in front. -/
def year (cs : List Char) : Except Fault (Int × List Char) := do
  let (y, rest) ← match Text.trimFront cs with
    | '-' :: cs => (digits none cs).map fun (n, rest) => (-(n : Int), rest)
    | '+' :: cs => (digits none cs).map fun (n, rest) => ((n : Int), rest)
    | cs => (digits (some 4) cs).map fun (n, rest) => ((n : Int), rest)
  if -0x80000000 ≤ y ∧ y < 0x80000000 then .ok (y, rest) else .error .outOfRange

/-- What follows the character `c`. -/
def literal (c : Char) : List Char → Except Fault (List Char)
  | [] => .error .premature
  | c' :: rest => if c' = c then .ok rest else .error .invalid

/-- The nanoseconds of an optional fraction, and the rest. -/
def fraction : List Char → Except Fault (Nat × List Char)
  | '.' :: cs =>
    match Digits.span cs with
    | ([], _) => .error (missing cs)
    | (digits, rest) => .ok (Digits.nanoseconds digits, rest)
  | cs => .ok (0, cs)

/-- The years that a date can have. -/
def isYear (year : Int) : Bool := -262143 ≤ year && year ≤ 262142

/-- The instant that `cs` denotes. Ranges are checked as numbers are read, the date at the end. -/
def read (cs : List Char) : Except Fault Instant := do
  let (year, cs) ← year cs
  let cs ← literal '-' cs
  let (month, cs) ← number 1 12 cs
  let cs ← literal '-' cs
  let (day, cs) ← number 1 31 cs
  let cs ← literal 'T' cs
  let (hour, cs) ← number 0 23 cs
  let cs ← literal ':' cs
  let (minute, cs) ← number 0 59 cs
  let cs ← literal ':' cs
  let (second, cs) ← number 0 60 cs
  let (nanos, cs) ← fraction cs
  let cs ← literal 'Z' cs
  if !cs.isEmpty then .error .trailing
  else
    let time : CivilTime := { date := ⟨year, month, day⟩, hour, minute, second, nanos }
    if isYear year ∧ time.isValid then .ok (time.instant 0) else .error .outOfRange

end LenientTime

end BucketWire

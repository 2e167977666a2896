/-!
# Numerals

Reading and writing whole numbers of a limited width. A numeral is read from left to right and the
first fault counts; at one character a wrong digit is noticed before an overflow. There is no bound
on the number of digits, only on the value.

## Main definitions

* `Numeral.digit?` — the value of a digit
* `Numeral.magnitude` — the value of a run of digits, up to a limit
* `Numeral.readSigned` — an optional sign, then decimal digits, within a signed width
* `Numeral.readUnsigned` — an optional plus sign, then digits of any base, within an unsigned width
* `Numeral.decimal` — the shortest decimal numeral of an integer
-/

namespace BucketWire

namespace Numeral

/-- Why a text is no numeral of the wanted width. -/
inductive Fault where
  /-- There is no character at all. -/
  | empty
  /-- A character is no digit of the base, or a sign stands alone. -/
  | invalidDigit
  /-- The value lies above the width. -/
  | tooLarge
  /-- The value lies below the width. -/
  | tooSmall
  deriving DecidableEq, Repr

/-- The wording of a fault. -/
def Fault.message : Fault → String
  | .empty => "cannot parse integer from empty string"
  | .invalidDigit => "invalid digit found in string"
  | .tooLarge => "number too large to fit in target type"
  | .tooSmall => "number too small to fit in target type"

/-- The value of `c` as a digit of `base`, which is at most 36; letters of either case follow the
decimal digits. -/
def digit? (base : Nat) (c : Char) : Option Nat :=
  let n := c.toNat
  let value :=
    if 0x30 ≤ n && n ≤ 0x39 then n - 0x30
    else if 0x61 ≤ n && n ≤ 0x7A then n - 0x61 + 10
    else if 0x41 ≤ n && n ≤ 0x5A then n - 0x41 + 10
    else base
  if value < base then some value else none

/-- The value of the digits `cs` after digits of value `value`, as long as it stays within
`limit`; `overflow` is the fault of going past it. -/
def magnitude (base limit : Nat) (overflow : Fault) (value : Nat) : List Char → Except Fault Nat
  | [] => .ok value
  | c :: cs =>
    match digit? base c with
    | none => .error .invalidDigit
    | some d =>
      if value * base + d ≤ limit then magnitude base limit overflow (value * base + d) cs
      else .error overflow

/-- The value of one or more digits after a sign. -/
def digits (base limit : Nat) (overflow : Fault) : List Char → Except Fault Nat
  | [] => .error .invalidDigit
  | c :: cs => magnitude base limit overflow 0 (c :: cs)

/-- A decimal numeral with an optional sign, of a signed width of `bits` bits. -/
def readSigned (bits : Nat) : List Char → Except Fault Int
  | [] => .error .empty
  | '-' :: cs => (digits 10 (Nat.pow 2 (bits - 1)) .tooSmall cs).map fun n => -(n : Int)
  | '+' :: cs => (digits 10 (Nat.pow 2 (bits - 1) - 1) .tooLarge cs).map fun n => (n : Int)
  | c :: cs => (digits 10 (Nat.pow 2 (bits - 1) - 1) .tooLarge (c :: cs)).map fun n => (n : Int)

/-- A numeral of `base` with an optional plus sign, of an unsigned width of `bits` bits. -/
def readUnsigned (base bits : Nat) : List Char → Except Fault Nat
  | [] => .error .empty
  | '+' :: cs => digits base (Nat.pow 2 bits - 1) .tooLarge cs
  | c :: cs => digits base (Nat.pow 2 bits - 1) .tooLarge (c :: cs)

/-- The decimal numeral of `n`: no leading zeros, and a minus sign if negative. -/
def decimal (n : Int) : String :=
  match n with
  | .ofNat m => String.ofList (Nat.toDigits 10 m)
  | .negSucc m => String.ofList ('-' :: Nat.toDigits 10 (m + 1))

end Numeral

end BucketWire

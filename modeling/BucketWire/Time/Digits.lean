/-!
# Digits of timestamps

The pieces that both timestamp forms are made of: fields of decimal digits and fractions of a
second.

## Main definitions

* `Digits.value` — the value of decimal digits
* `Digits.nanoseconds` — the nanoseconds that the digits after a decimal point stand for
* `Digits.span` — the digits in front and what follows
-/

namespace BucketWire

namespace Digits

/-- The value of decimal digits. -/
def value (digits : List Char) : Nat := Nat.ofDigitChars 10 digits 0

/-- Nanoseconds of a decimal fraction with these digits; those after the ninth are dropped. -/
def nanoseconds (digits : List Char) : Nat :=
  value (digits.take 9) * Nat.pow 10 (9 - digits.length)

/-- The digits in front of `cs`, and the rest. -/
def span (cs : List Char) : List Char × List Char :=
  (cs.takeWhile Char.isDigit, cs.dropWhile Char.isDigit)

end Digits

end BucketWire

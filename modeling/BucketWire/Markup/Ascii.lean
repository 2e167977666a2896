import BucketWire.Text.Utf8

/-!
# Bytes with a meaning in markup

Markup is recognised on bytes. All of its signs are ASCII, so no byte of a longer UTF-8 character
is mistaken for one.

## Main definitions

* `Ascii.lessThan`, `Ascii.ampersand`, … — the signs
* `Ascii.isBlank` — the four blanks of markup
* `Ascii.eqIgnoringCase` — equality of words up to the case of letters
-/

namespace BucketWire

namespace Ascii

/-- The sign `<`. -/
abbrev lessThan : UInt8 := 0x3C

/-- The sign `>`. -/
abbrev greaterThan : UInt8 := 0x3E

/-- The sign `&`. -/
abbrev ampersand : UInt8 := 0x26

/-- The sign `;`. -/
abbrev semicolon : UInt8 := 0x3B

/-- The sign `:`. -/
abbrev colon : UInt8 := 0x3A

/-- The sign `/`. -/
abbrev slash : UInt8 := 0x2F

/-- The sign `!`. -/
abbrev bang : UInt8 := 0x21

/-- The sign `?`. -/
abbrev question : UInt8 := 0x3F

/-- The sign `-`. -/
abbrev hyphen : UInt8 := 0x2D

/-- The sign `[`. -/
abbrev openBracket : UInt8 := 0x5B

/-- The sign `]`. -/
abbrev closeBracket : UInt8 := 0x5D

/-- The sign `'`. -/
abbrev apostrophe : UInt8 := 0x27

/-- The sign `"`. -/
abbrev quotation : UInt8 := 0x22

/-- A blank of markup: space, tab, line feed or carriage return. -/
def isBlank (b : UInt8) : Bool := b = 0x20 || b = 0x09 || b = 0x0A || b = 0x0D

/-- A quotation mark of either kind. -/
def isQuote (b : UInt8) : Bool := b = apostrophe || b = quotation

/-- `b` as a capital, if it is a small letter. -/
def toUpper (b : UInt8) : UInt8 := if 0x61 ≤ b ∧ b ≤ 0x7A then b - 0x20 else b

/-- Whether two words are equal up to the case of ASCII letters. -/
def eqIgnoringCase (word word' : Bytes) : Bool := word.map toUpper = word'.map toUpper

end Ascii

end BucketWire

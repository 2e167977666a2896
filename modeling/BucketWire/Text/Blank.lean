/-!
# White space

The characters with the Unicode property `White_Space`, and removing them from the ends of a text.
Values are trimmed by this rule; markup has a smaller set of its own.

## Main definitions

* `Text.isBlank` — the property `White_Space`
* `Text.trim` — a text without the blanks at its ends
-/

namespace BucketWire

namespace Text

/-- The Unicode property `White_Space`. -/
def isBlank (c : Char) : Bool :=
  let n := c.toNat
  (0x9 ≤ n && n ≤ 0xD) || n == 0x20 || n == 0x85 || n == 0xA0 || n == 0x1680 ||
    (0x2000 ≤ n && n ≤ 0x200A) || n == 0x2028 || n == 0x2029 || n == 0x202F || n == 0x205F ||
    n == 0x3000

/-- `cs` without the blanks in front. -/
def trimFront (cs : List Char) : List Char := cs.dropWhile isBlank

/-- `cs` without the blanks at its ends. -/
def trimChars (cs : List Char) : List Char := (trimFront (trimFront cs).reverse).reverse

/-- `text` without the blanks at its ends. -/
def trim (text : String) : String := String.ofList (trimChars text.toList)

end Text

end BucketWire

/-!
# Escaping text

Text is written with references in place of the five signs that could be read as markup. Everything
else, white space and control characters included, is written as it is.

## Main definitions

* `Escape.char` — what is written for a character
* `Escape.text` — what is written for a text
-/

namespace BucketWire

namespace Escape

/-- What is written for `c`. -/
def char (c : Char) : List Char :=
  if c = '&' then "&amp;".toList
  else if c = '<' then "&lt;".toList
  else if c = '>' then "&gt;".toList
  else if c = '\'' then "&apos;".toList
  else if c = '"' then "&quot;".toList
  else [c]

/-- What is written for `s`. -/
def text (s : String) : String := String.ofList (s.toList.flatMap char)

end Escape

end BucketWire

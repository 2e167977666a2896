/-!
# Settings

How documents are read and written. The defaults suit ordinary traffic.

## Main definitions

* `Settings` — the four settings
-/

namespace BucketWire

/-- How documents are read and written. -/
structure Settings where
  /-- Trim every decoded text. Off by default: a key may start or end with blanks. -/
  trimText : Bool := false
  /-- Refuse a document whose end tags, up to that of the root element, do not name the elements they
  end. -/
  checkEndNames : Bool := true
  /-- Write the XML declaration in front of a request. -/
  writeDeclaration : Bool := true
  /-- Blanks by which a request is indented per level; none writes it on one line. -/
  indent : UInt64 := 0
  deriving DecidableEq, Repr, Inhabited

end BucketWire

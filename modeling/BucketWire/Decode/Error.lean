import BucketWire.Markup.Fault
import BucketWire.Markup.Reference
import BucketWire.Time.Lenient

/-!
# Errors of decoding

Why a document does not decode. A document is read from front to back, and the first thing that is
wrong is the error.

## Main definitions

* `ValueFault` — why a name or a value cannot be read
* `DecodeError` — why a document does not decode
* `DecodeError.message` — its wording
-/

namespace BucketWire

/-- Why the name or the value of an element cannot be read. -/
inductive ValueFault where
  /-- The local name of an element is not UTF-8. -/
  | name (fault : Utf8.Fault)
  /-- A piece of text is not UTF-8. -/
  | encoding (fault : Utf8.Fault)
  /-- A reference names no character. -/
  | reference (fault : Reference.Fault)
  /-- `text` is neither true nor false. -/
  | boolean (text : String)
  /-- `text` is no integer of this many bits. -/
  | integer (bits : Nat) (text : String) (fault : Numeral.Fault)
  /-- `text` is no timestamp. -/
  | timestamp (text : String) (fault : LenientTime.Fault)
  deriving DecidableEq, Repr

/-- The wording of a fault. -/
def ValueFault.message : ValueFault → String
  | .name fault => fault.message
  | .encoding fault => "cannot decode input using UTF-8: " ++ fault.message
  | .reference fault => fault.message
  | .boolean text => "invalid boolean: " ++ text
  | .integer bits text fault =>
    "invalid i" ++ Numeral.decimal bits ++ " '" ++ text ++ "': " ++ fault.message
  | .timestamp text fault => "invalid timestamp '" ++ text ++ "': " ++ fault.message

/-- Why a document does not decode. -/
inductive DecodeError where
  /-- The markup cannot be read. -/
  | malformed (fault : Markup.Fault)
  /-- The document ends inside an element; `context` says of what kind. -/
  | unexpectedEnd (context : String)
  /-- The document has no element at all. -/
  | noRoot
  /-- An element has a child that it cannot have. -/
  | unrecognized (name : String)
  /-- A name or a value cannot be read. -/
  | invalidValue (fault : ValueFault)
  deriving DecidableEq, Repr

/-- The wording of an error. -/
def DecodeError.message : DecodeError → String
  | .malformed fault => "XML processing error: " ++ fault.message
  | .unexpectedEnd context => "unexpected EOF in " ++ context
  | .noRoot => "missing required XML element: root element"
  | .unrecognized name => "unrecognized element: " ++ name
  | .invalidValue fault => "failed to parse value: " ++ fault.message

end BucketWire

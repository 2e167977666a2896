import BucketWire.Time.Lenient
import BucketWire.Time.Rfc3339

/-!
# Timestamps

A timestamp in a document is blank, for none, or an RFC 3339 timestamp, or a lenient one. The
strict form is tried first; what is wrong with a text is said by the lenient form.

## Main definitions

* `Timestamp.read` — the instant of a text without blanks at its ends
-/

namespace BucketWire

namespace Timestamp

/-- The instant that `text` denotes, none if it is empty. -/
def read (text : String) : Except LenientTime.Fault (Option Instant) :=
  if text.isEmpty then .ok none
  else
    match Rfc3339.read? text.toList with
    | some instant => .ok (some instant)
    | none => (LenientTime.read text.toList).map some

end Timestamp

end BucketWire

import BucketWire.Decode.Decoder
import BucketWire.Dictionary
import BucketWire.Text.Query
import BucketWire.Time.Timestamp

/-!
# Simple values

Reading texts as booleans, integers, timestamps and maps. Blanks at the ends of such a text never
count, and an empty text is the zero value.

## Main definitions

* `Scalar.boolean`, `Scalar.int64`, `Scalar.int32`, `Scalar.timestamp`, `Scalar.tags` — the value
  of a text
* `Decoder.boolean`, `Decoder.int64`, `Decoder.int32`, `Decoder.timestamp`, `Decoder.tags`,
  `Decoder.metadata` — the value of an element
-/

namespace BucketWire

namespace Scalar

/-- The ways to write true. -/
def trueWords : List String := ["1", "t", "T", "true", "TRUE", "True"]

/-- The ways to write false. -/
def falseWords : List String := ["", "0", "f", "F", "false", "FALSE", "False"]

/-- The truth value of a text. -/
def boolean (text : String) : Except ValueFault Bool :=
  let word := Text.trim text
  if word ∈ trueWords then .ok true
  else if word ∈ falseWords then .ok false
  else .error (.boolean word)

/-- The integer of `bits` bits that a text stands for. -/
def integer (bits : Nat) (text : String) : Except ValueFault Int :=
  let numeral := Text.trim text
  if numeral.isEmpty then .ok 0
  else (Numeral.readSigned bits numeral.toList).mapError (.integer bits numeral)

/-- The integer of 64 bits that a text stands for. -/
def int64 (text : String) : Except ValueFault Int64 := (integer 64 text).map Int64.ofInt

/-- The integer of 32 bits that a text stands for. -/
def int32 (text : String) : Except ValueFault Int32 := (integer 32 text).map Int32.ofInt

/-- The instant that a text stands for, if it is not blank. -/
def timestamp (text : String) : Except ValueFault (Option Instant) :=
  let trimmed := Text.trim text
  (Timestamp.read trimmed).mapError (.timestamp trimmed)

/-- The tags of a query; the first value of a key counts. -/
def tags (text : String) : Dictionary :=
  (Query.parse (Text.trim text)).foldl (fun d (key, value) => d.insertIfNew key value) .empty

end Scalar

namespace Decoder

/-- An element that holds a truth value. -/
def boolean : Decoder Bool := text.refine Scalar.boolean

/-- An element that holds an integer of 64 bits. -/
def int64 : Decoder Int64 := text.refine Scalar.int64

/-- An element that holds an integer of 32 bits. -/
def int32 : Decoder Int32 := text.refine Scalar.int32

/-- An element that holds a timestamp or nothing. -/
def timestamp : Decoder (Option Instant) := text.refine Scalar.timestamp

/-- An element that holds tags as a query. -/
def tags : Decoder Dictionary := text.map Scalar.tags

/-- An element whose children are named for the keys and hold the values of a map; the last value
of a key counts. -/
def metadata : Decoder Dictionary :=
  children "UserMetadata" (fun name => text.map fun value d => d.insert name value) .empty

end Decoder

end BucketWire

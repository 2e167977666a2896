import BucketWire.Dictionary
import BucketWire.Time.Calendar

/-!
# Records shared by several documents

Every field that a document does not give has the zero value of its type: an empty text, zero,
false, no instant, no entries.

## Main definitions

* `Principal` — who owns an object or started an upload
* `CommonPrefix` — keys that a listing rolls up
* `ErasureShape` — how an object is cut into blocks
* `ErrorReport` — why a request failed
-/

namespace BucketWire

/-- Who owns something or started an upload. -/
structure Principal where
  id : String := ""
  displayName : String := ""
  deriving DecidableEq, Repr

/-- The keys with a common beginning that a listing with a delimiter shows as one. -/
structure CommonPrefix where
  keyPrefix : String := ""
  deriving DecidableEq, Repr

/-- How an object is cut into blocks to survive the loss of some. -/
structure ErasureShape where
  dataBlocks : Int64 := 0
  parityBlocks : Int64 := 0
  deriving DecidableEq

/-- Why a request failed, as the server reports it. -/
structure ErrorReport where
  code : String := ""
  message : String := ""
  bucketName : String := ""
  key : String := ""
  resource : String := ""
  requestId : String := ""
  hostId : String := ""
  region : String := ""
  deriving DecidableEq, Repr

end BucketWire

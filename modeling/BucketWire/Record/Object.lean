import BucketWire.Checksum.Access
import BucketWire.Record.Shared

/-!
# Objects and their listings

The two listings of the objects of a bucket differ in how the next page is asked for: after a key,
or by a token that the server gave.

## Main definitions

* `ObjectEntry` — what listings say of an object or of one of its versions
* `ListedObject` — an object in a listing
* `ObjectPage` — what both listings have
* `MarkerListing`, `TokenListing` — the two listings
-/

namespace BucketWire

/-- What listings say of an object or of one of its versions. -/
structure ObjectEntry where
  eTag : String := ""
  key : String := ""
  lastModified : Option Instant := none
  size : Int64 := 0
  owner : Principal := {}
  storageClass : String := ""
  versionId : String := ""
  isLatest : Bool := false
  userMetadata : Dictionary := .empty
  userTags : Dictionary := .empty
  erasure : Option ErasureShape := none
  checksums : Checksums := {}
  /-- The name of a `Mode`, or empty. -/
  checksumType : String := ""
  deriving DecidableEq

/-- The mode of an entry's checksums. -/
def ObjectEntry.checksumMode (entry : ObjectEntry) : Mode := Mode.ofName entry.checksumType

/-- An object in a listing. -/
structure ListedObject extends ObjectEntry where
  userTagCount : Int64 := 0
  deriving DecidableEq

/-- A page of a listing of objects. -/
structure ObjectPage where
  commonPrefixes : List CommonPrefix := []
  contents : List ListedObject := []
  delimiter : String := ""
  encodingType : String := ""
  isTruncated : Bool := false
  maxKeys : Int64 := 0
  name : String := ""
  keyPrefix : String := ""
  deriving DecidableEq

/-- A listing of objects that goes on after a key. -/
structure MarkerListing extends ObjectPage where
  marker : String := ""
  /-- Given only for a listing with a delimiter; otherwise the last key serves. -/
  nextMarker : String := ""
  deriving DecidableEq

/-- A listing of objects that goes on with a token. -/
structure TokenListing extends ObjectPage where
  keyCount : Int64 := 0
  nextContinuationToken : String := ""
  continuationToken : String := ""
  fetchOwner : String := ""
  startAfter : String := ""
  deriving DecidableEq

end BucketWire

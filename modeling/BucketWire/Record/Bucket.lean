import BucketWire.Record.Shared

/-!
# Buckets and their listings

## Main definitions

* `Bucket` — a bucket in a listing
* `BucketListing`, `DirectoryBucketListing` — the buckets of an owner
-/

namespace BucketWire

/-- A bucket in a listing. -/
structure Bucket where
  name : String := ""
  creationDate : Option Instant := none
  region : String := ""
  deriving DecidableEq, Repr

/-- The buckets of an owner. -/
structure BucketListing where
  buckets : List Bucket := []
  owner : Principal := {}
  deriving DecidableEq, Repr

/-- The directory buckets of an owner, page by page. -/
structure DirectoryBucketListing where
  buckets : List Bucket := []
  continuationToken : String := ""
  deriving DecidableEq, Repr

end BucketWire

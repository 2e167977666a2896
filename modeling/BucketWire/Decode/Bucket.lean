import BucketWire.Decode.Shared
import BucketWire.Record.Bucket

/-!
# Decoding buckets and their listings

The buckets of a listing stand in an element of their own. If there are several such elements, the
last one counts.

## Main definitions

* `Decoder.bucket`, `Decoder.bucketListing`, `Decoder.directoryBucketListing` — decoders of these
  records
-/

namespace BucketWire

open Decoder (text)

/-- The fields of a bucket. -/
def Bucket.fields : List (Field Bucket) :=
  [.store "Name" text fun name bucket => { bucket with name },
    .store "CreationDate" Decoder.timestamp fun creationDate bucket =>
      { bucket with creationDate },
    .store "BucketRegion" text fun region bucket => { bucket with region }]

namespace Decoder

/-- A bucket in a listing. -/
def bucket : Decoder Bucket := record "Bucket" Bucket.fields {}

/-- The buckets of a listing. -/
def buckets : Decoder (List Bucket) := items "Bucket" bucket

end Decoder

/-- The fields of a listing of buckets. -/
def BucketListing.fields : List (Field BucketListing) :=
  [.store "Buckets" Decoder.buckets fun buckets listing => { listing with buckets },
    .store "Owner" Decoder.owner fun owner listing => { listing with owner }]

/-- The fields of a listing of directory buckets. -/
def DirectoryBucketListing.fields : List (Field DirectoryBucketListing) :=
  [.store "Buckets" Decoder.buckets fun buckets listing => { listing with buckets },
    .store "ContinuationToken" text fun continuationToken listing =>
      { listing with continuationToken }]

namespace Decoder

/-- The buckets of an owner. -/
def bucketListing : Decoder BucketListing :=
  record "ListAllMyBucketsResult" BucketListing.fields {}

/-- The directory buckets of an owner. -/
def directoryBucketListing : Decoder DirectoryBucketListing :=
  record "ListAllMyDirectoryBucketsResult" DirectoryBucketListing.fields {}

end Decoder

end BucketWire

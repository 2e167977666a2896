import BucketWire.Checksum.Access
import BucketWire.Record.Shared

/-!
# Uploads in parts

What the server says of uploads in parts, from their start to their end, and of copies.

## Main definitions

* `PendingUpload`, `UploadListing` — uploads that are under way
* `UploadedPart`, `PartListing` — the parts of one upload
* `StartedUpload`, `CompletedUpload` — the answers to starting and completing an upload
* `CopyReport` — the answer to copying
-/

namespace BucketWire

/-- An upload that is under way. -/
structure PendingUpload where
  initiated : Option Instant := none
  initiator : Principal := {}
  owner : Principal := {}
  storageClass : String := ""
  key : String := ""
  size : Int64 := 0
  uploadId : String := ""
  deriving DecidableEq

/-- The uploads that are under way in a bucket. -/
structure UploadListing where
  bucket : String := ""
  keyMarker : String := ""
  uploadIdMarker : String := ""
  nextKeyMarker : String := ""
  nextUploadIdMarker : String := ""
  encodingType : String := ""
  maxUploads : Int64 := 0
  isTruncated : Bool := false
  uploads : List PendingUpload := []
  keyPrefix : String := ""
  delimiter : String := ""
  commonPrefixes : List CommonPrefix := []
  deriving DecidableEq

/-- A part that has been uploaded. -/
structure UploadedPart where
  partNumber : Int32 := 0
  lastModified : Option Instant := none
  eTag : String := ""
  size : Int64 := 0
  checksums : Checksums := {}
  deriving DecidableEq

/-- The parts of an upload. -/
structure PartListing where
  bucket : String := ""
  key : String := ""
  uploadId : String := ""
  initiator : Principal := {}
  owner : Principal := {}
  storageClass : String := ""
  partNumberMarker : Int32 := 0
  nextPartNumberMarker : Int32 := 0
  maxParts : Int32 := 0
  /-- The name of an `Algorithm`, or empty. -/
  checksumAlgorithm : String := ""
  /-- The name of a `Mode`, or empty. -/
  checksumType : String := ""
  isTruncated : Bool := false
  parts : List UploadedPart := []
  encodingType : String := ""
  deriving DecidableEq

namespace PartListing

/-- The family that the listing declares, if it is one. -/
def algorithm (listing : PartListing) : Option Algorithm :=
  Algorithm.ofName? listing.checksumAlgorithm

/-- The mode that the listing declares. -/
def checksumMode (listing : PartListing) : Mode := Mode.ofName listing.checksumType

end PartListing

/-- The answer to starting an upload. -/
structure StartedUpload where
  bucket : String := ""
  key : String := ""
  uploadId : String := ""
  deriving DecidableEq, Repr

/-- The answer to completing an upload. Its checksums are composite unless the type says that they
are of the whole object. -/
structure CompletedUpload where
  location : String := ""
  bucket : String := ""
  key : String := ""
  eTag : String := ""
  checksums : Checksums := {}
  /-- The name of a `Mode`, or empty. -/
  checksumType : String := ""
  deriving DecidableEq, Repr

/-- The answer to copying an object or a part. -/
structure CopyReport where
  eTag : String := ""
  lastModified : Option Instant := none
  deriving DecidableEq, Repr

end BucketWire

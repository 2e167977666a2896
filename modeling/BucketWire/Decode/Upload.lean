import BucketWire.Decode.Shared
import BucketWire.Record.Upload

/-!
# Decoding uploads in parts

## Main definitions

* `Decoder.pendingUpload`, `Decoder.uploadListing`, `Decoder.uploadedPart`, `Decoder.partListing`,
  `Decoder.startedUpload`, `Decoder.completedUpload`, `Decoder.copyReport` — decoders of these
  records
-/

namespace BucketWire

open Decoder (text)

/-- The fields of an upload that is under way. -/
def PendingUpload.fields : List (Field PendingUpload) :=
  [.store "Initiated" Decoder.timestamp fun initiated upload => { upload with initiated },
    .store "Initiator" Decoder.initiator fun initiator upload => { upload with initiator },
    .store "Owner" Decoder.owner fun owner upload => { upload with owner },
    .store "StorageClass" text fun storageClass upload => { upload with storageClass },
    .store "Key" text fun key upload => { upload with key },
    .store "Size" Decoder.int64 fun size upload => { upload with size },
    .store "UploadId" text fun uploadId upload => { upload with uploadId }]

/-- The fields of an uploaded part. -/
def UploadedPart.fields : List (Field UploadedPart) :=
  [.store "PartNumber" Decoder.int32 fun partNumber part => { part with partNumber },
    .store "LastModified" Decoder.timestamp fun lastModified part => { part with lastModified },
    .store "ETag" text fun eTag part => { part with eTag },
    .store "Size" Decoder.int64 fun size part => { part with size }] ++
  Checksums.fields.map
    (Field.lift fun change part => { part with checksums := change part.checksums })

namespace Decoder

/-- An upload that is under way. -/
def pendingUpload : Decoder PendingUpload := record "Upload" PendingUpload.fields {}

/-- An uploaded part. -/
def uploadedPart : Decoder UploadedPart := record "Part" UploadedPart.fields {}

end Decoder

/-- The fields of a listing of uploads. -/
def UploadListing.fields : List (Field UploadListing) :=
  [.store "Bucket" text fun bucket listing => { listing with bucket },
    .store "KeyMarker" text fun keyMarker listing => { listing with keyMarker },
    .store "UploadIdMarker" text fun uploadIdMarker listing => { listing with uploadIdMarker },
    .store "NextKeyMarker" text fun nextKeyMarker listing => { listing with nextKeyMarker },
    .store "NextUploadIdMarker" text fun nextUploadIdMarker listing =>
      { listing with nextUploadIdMarker },
    .store "EncodingType" text fun encodingType listing => { listing with encodingType },
    .store "MaxUploads" Decoder.int64 fun maxUploads listing => { listing with maxUploads },
    .store "IsTruncated" Decoder.boolean fun isTruncated listing => { listing with isTruncated },
    .store "Upload" Decoder.pendingUpload fun upload listing =>
      { listing with uploads := listing.uploads ++ [upload] },
    .store "Prefix" text fun keyPrefix listing => { listing with keyPrefix },
    .store "Delimiter" text fun delimiter listing => { listing with delimiter },
    .store "CommonPrefixes" Decoder.commonPrefix fun commonPrefix listing =>
      { listing with commonPrefixes := listing.commonPrefixes ++ [commonPrefix] }]

/-- The fields of a listing of parts. -/
def PartListing.fields : List (Field PartListing) :=
  [.store "Bucket" text fun bucket listing => { listing with bucket },
    .store "Key" text fun key listing => { listing with key },
    .store "UploadId" text fun uploadId listing => { listing with uploadId },
    .store "Initiator" Decoder.initiator fun initiator listing => { listing with initiator },
    .store "Owner" Decoder.owner fun owner listing => { listing with owner },
    .store "StorageClass" text fun storageClass listing => { listing with storageClass },
    .store "PartNumberMarker" Decoder.int32 fun partNumberMarker listing =>
      { listing with partNumberMarker },
    .store "NextPartNumberMarker" Decoder.int32 fun nextPartNumberMarker listing =>
      { listing with nextPartNumberMarker },
    .store "MaxParts" Decoder.int32 fun maxParts listing => { listing with maxParts },
    .store "ChecksumAlgorithm" text fun checksumAlgorithm listing =>
      { listing with checksumAlgorithm },
    .store "ChecksumType" text fun checksumType listing => { listing with checksumType },
    .store "IsTruncated" Decoder.boolean fun isTruncated listing => { listing with isTruncated },
    .store "Part" Decoder.uploadedPart fun part listing =>
      { listing with parts := listing.parts ++ [part] },
    .store "EncodingType" text fun encodingType listing => { listing with encodingType }]

/-- The fields of the answer to starting an upload. -/
def StartedUpload.fields : List (Field StartedUpload) :=
  [.store "Bucket" text fun bucket upload => { upload with bucket },
    .store "Key" text fun key upload => { upload with key },
    .store "UploadId" text fun uploadId upload => { upload with uploadId }]

/-- The fields of the answer to completing an upload. -/
def CompletedUpload.fields : List (Field CompletedUpload) :=
  [.store "Location" text fun location upload => { upload with location },
    .store "Bucket" text fun bucket upload => { upload with bucket },
    .store "Key" text fun key upload => { upload with key },
    .store "ETag" text fun eTag upload => { upload with eTag },
    .store "ChecksumType" text fun checksumType upload => { upload with checksumType }] ++
  Checksums.fields.map
    (Field.lift fun change upload => { upload with checksums := change upload.checksums })

/-- The fields of the answer to copying. -/
def CopyReport.fields : List (Field CopyReport) :=
  [.store "ETag" text fun eTag report => { report with eTag },
    .store "LastModified" Decoder.timestamp fun lastModified report =>
      { report with lastModified }]

namespace Decoder

/-- The uploads that are under way in a bucket. -/
def uploadListing : Decoder UploadListing :=
  record "ListMultipartUploadsResult" UploadListing.fields {}

/-- The parts of an upload. -/
def partListing : Decoder PartListing := record "ListPartsResult" PartListing.fields {}

/-- The answer to starting an upload. -/
def startedUpload : Decoder StartedUpload :=
  record "InitiateMultipartUploadResult" StartedUpload.fields {}

/-- The answer to completing an upload. -/
def completedUpload : Decoder CompletedUpload :=
  record "CompleteMultipartUploadResult" CompletedUpload.fields {}

/-- The answer to copying. -/
def copyReport : Decoder CopyReport := record "CopyObjectResult" CopyReport.fields {}

end Decoder

end BucketWire

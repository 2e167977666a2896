import BucketWire.Decode.Shared
import BucketWire.Record.Object

/-!
# Decoding objects and their listings

## Main definitions

* `Decoder.listedObject`, `Decoder.markerListing`, `Decoder.tokenListing` — decoders of these
  records
* `ObjectEntry.fields`, `ObjectPage.fields` — the fields that several records share
-/

namespace BucketWire

open Decoder (text)

/-- The fields of an entry. -/
def ObjectEntry.fields : List (Field ObjectEntry) :=
  [.store "ETag" text fun eTag entry => { entry with eTag },
    .store "Key" text fun key entry => { entry with key },
    .store "LastModified" Decoder.timestamp fun lastModified entry =>
      { entry with lastModified },
    .store "Size" Decoder.int64 fun size entry => { entry with size },
    .store "Owner" Decoder.owner fun owner entry => { entry with owner },
    .store "StorageClass" text fun storageClass entry => { entry with storageClass },
    .store "VersionId" text fun versionId entry => { entry with versionId },
    .store "IsLatest" Decoder.boolean fun isLatest entry => { entry with isLatest },
    .store "UserMetadata" Decoder.metadata fun userMetadata entry => { entry with userMetadata },
    .store "UserTags" Decoder.tags fun userTags entry => { entry with userTags },
    .store "Internal" Decoder.erasureShape fun shape entry => { entry with erasure := some shape },
    .store "ChecksumType" text fun checksumType entry => { entry with checksumType }] ++
  Checksums.fields.map
    (Field.lift fun change entry => { entry with checksums := change entry.checksums })

/-- The fields of a listed object. -/
def ListedObject.fields : List (Field ListedObject) :=
  .store "UserTagCount" Decoder.int64
      (fun userTagCount object => { object with userTagCount }) ::
    ObjectEntry.fields.map
      (Field.lift fun change object => { object with toObjectEntry := change object.toObjectEntry })

namespace Decoder

/-- An object in a listing. -/
def listedObject : Decoder ListedObject := record "Contents" ListedObject.fields {}

end Decoder

/-- The fields of a page of objects. -/
def ObjectPage.fields : List (Field ObjectPage) :=
  [.store "CommonPrefixes" Decoder.commonPrefix fun commonPrefix page =>
      { page with commonPrefixes := page.commonPrefixes ++ [commonPrefix] },
    .store "Contents" Decoder.listedObject fun object page =>
      { page with contents := page.contents ++ [object] },
    .store "Delimiter" text fun delimiter page => { page with delimiter },
    .store "EncodingType" text fun encodingType page => { page with encodingType },
    .store "IsTruncated" Decoder.boolean fun isTruncated page => { page with isTruncated },
    .store "MaxKeys" Decoder.int64 fun maxKeys page => { page with maxKeys },
    .store "Name" text fun name page => { page with name },
    .store "Prefix" text fun keyPrefix page => { page with keyPrefix }]

/-- The fields of a listing that goes on after a key. -/
def MarkerListing.fields : List (Field MarkerListing) :=
  [.store "Marker" text fun marker listing => { listing with marker },
    .store "NextMarker" text fun nextMarker listing => { listing with nextMarker }] ++
  ObjectPage.fields.map
    (Field.lift fun change listing => { listing with toObjectPage := change listing.toObjectPage })

/-- The fields of a listing that goes on with a token. -/
def TokenListing.fields : List (Field TokenListing) :=
  [.store "KeyCount" Decoder.int64 fun keyCount listing => { listing with keyCount },
    .store "NextContinuationToken" text fun nextContinuationToken listing =>
      { listing with nextContinuationToken },
    .store "ContinuationToken" text fun continuationToken listing =>
      { listing with continuationToken },
    .store "FetchOwner" text fun fetchOwner listing => { listing with fetchOwner },
    .store "StartAfter" text fun startAfter listing => { listing with startAfter }] ++
  ObjectPage.fields.map
    (Field.lift fun change listing => { listing with toObjectPage := change listing.toObjectPage })

namespace Decoder

/-- A listing of objects that goes on after a key. -/
def markerListing : Decoder MarkerListing := record "ListBucketResult" MarkerListing.fields {}

/-- A listing of objects that goes on with a token. -/
def tokenListing : Decoder TokenListing := record "ListBucketResult" TokenListing.fields {}

end Decoder

end BucketWire

import BucketWire.Decode.Object
import BucketWire.Record.Version

/-!
# Decoding versions and their listing

An entry of a history is a delete marker because of the name of its element, whatever it holds. In
a history no other elements may stand than those that belong there; within an entry they may.

## Main definitions

* `Decoder.objectVersion` — an entry, decoded as a live version
* `Decoder.versionListing` — a history
-/

namespace BucketWire

open Decoder (text)

/-- The fields of an entry of a history. -/
def ObjectVersion.fields : List (Field ObjectVersion) :=
  ObjectEntry.fields.map
    (Field.lift fun change version =>
      { version with toObjectEntry := change version.toObjectEntry })

namespace Decoder

/-- An entry of a history, decoded as a live version. -/
def objectVersion : Decoder ObjectVersion := record "Version" ObjectVersion.fields {}

end Decoder

/-- The fields of a history. -/
def VersionListing.fields : List (Field VersionListing) :=
  [.store "Version" Decoder.objectVersion fun version listing => listing.pushVersion version,
    .store "DeleteMarker" Decoder.objectVersion fun marker listing =>
      listing.pushDeleteMarker marker,
    .store "CommonPrefixes" Decoder.commonPrefix fun commonPrefix listing =>
      { listing with commonPrefixes := listing.commonPrefixes ++ [commonPrefix] },
    .store "Name" text fun name listing => { listing with name },
    .store "Prefix" text fun keyPrefix listing => { listing with keyPrefix },
    .store "Delimiter" text fun delimiter listing => { listing with delimiter },
    .store "MaxKeys" Decoder.int64 fun maxKeys listing => { listing with maxKeys },
    .store "EncodingType" text fun encodingType listing => { listing with encodingType },
    .store "IsTruncated" Decoder.boolean fun isTruncated listing => { listing with isTruncated },
    .store "KeyMarker" text fun keyMarker listing => { listing with keyMarker },
    .store "VersionIdMarker" text fun versionIdMarker listing => { listing with versionIdMarker },
    .store "NextKeyMarker" text fun nextKeyMarker listing => { listing with nextKeyMarker },
    .store "NextVersionIdMarker" text fun nextVersionIdMarker listing =>
      { listing with nextVersionIdMarker }]

namespace Decoder

/-- A history. -/
def versionListing : Decoder VersionListing :=
  strictRecord "ListVersionsResult" VersionListing.fields {}

end Decoder

end BucketWire

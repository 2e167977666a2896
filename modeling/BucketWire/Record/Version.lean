import BucketWire.Record.Object

/-!
# Versions and their listing

The history of the objects of a bucket, newest first. Live versions and delete markers are entries
of one list, in the order in which the server gives them; a flag that only appending to a listing
sets tells them apart.

## Main definitions

* `ObjectVersion` — an entry of a history
* `VersionListing` — a history
* `VersionListing.pushVersion`, `VersionListing.pushDeleteMarker` — append an entry of either kind
* `VersionListing.append` — append the entries of another listing, each by its kind
* `VersionListing.deleteMarkers`, `VersionListing.liveVersions` — the entries of either kind
-/

namespace BucketWire

/-- A version of an object, or the marker of its deletion. -/
structure ObjectVersion extends ObjectEntry where
  isDeleteMarker : Bool := false
  deriving DecidableEq

/-- The history of the objects of a bucket. -/
structure VersionListing where
  /-- Versions and delete markers in the order of the document. -/
  versions : List ObjectVersion := []
  commonPrefixes : List CommonPrefix := []
  name : String := ""
  keyPrefix : String := ""
  delimiter : String := ""
  maxKeys : Int64 := 0
  encodingType : String := ""
  isTruncated : Bool := false
  keyMarker : String := ""
  versionIdMarker : String := ""
  nextKeyMarker : String := ""
  nextVersionIdMarker : String := ""
  deriving DecidableEq

namespace VersionListing

/-- Append `version` as a live version, whatever it was before. -/
def pushVersion (listing : VersionListing) (version : ObjectVersion) : VersionListing :=
  { listing with versions := listing.versions ++ [{ version with isDeleteMarker := false }] }

/-- Append `marker` as a delete marker, whatever it was before. -/
def pushDeleteMarker (listing : VersionListing) (marker : ObjectVersion) : VersionListing :=
  { listing with versions := listing.versions ++ [{ marker with isDeleteMarker := true }] }

/-- Append `entry` as what it is. -/
def push (listing : VersionListing) (entry : ObjectVersion) : VersionListing :=
  if entry.isDeleteMarker then listing.pushDeleteMarker entry else listing.pushVersion entry

/-- Append the entries of `other`, each as what it is. -/
def append (listing other : VersionListing) : VersionListing := other.versions.foldl push listing

/-- The delete markers, in order. -/
def deleteMarkers (listing : VersionListing) : List ObjectVersion :=
  listing.versions.filter fun entry => entry.isDeleteMarker

/-- The live versions, in order. -/
def liveVersions (listing : VersionListing) : List ObjectVersion :=
  listing.versions.filter fun entry => !entry.isDeleteMarker

end VersionListing

end BucketWire

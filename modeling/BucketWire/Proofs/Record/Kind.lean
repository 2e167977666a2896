import BucketWire.Proofs.Record.Bucket
import BucketWire.Proofs.Record.Upload
import BucketWire.Proofs.Record.Version

/-!
# Documents of records

Every record has a document from which it is read back. So no two elements of a document are read
into one field, and there is no field that no element is read into.

## Main definitions

* `Kind` — what a document can be decoded as
* `Kind.Record`, `Kind.decoder`, `Kind.elements` — the records of a kind, their decoder and their
  elements
* `Kind.IsWritable` — records that have a document

## Main results

* `Kind.ofElement_elements` — a record is what its decoder makes of its elements
* `Kind.decode_document` — a record is read back from its document
-/

namespace BucketWire

open Element (AllNamed)
open Markup (IsName isName_ofList)

/-- What a document can be decoded as. -/
inductive Kind where
  | owner
  | initiator
  | commonPrefix
  | erasureShape
  | errorReport
  | bucket
  | bucketListing
  | directoryBucketListing
  | listedObject
  | markerListing
  | tokenListing
  | objectVersion
  | versionListing
  | pendingUpload
  | uploadListing
  | uploadedPart
  | partListing
  | startedUpload
  | completedUpload
  | copyReport
  | deletion
  | failedDeletion
  | deletionReport
  deriving DecidableEq, Repr

namespace Kind

/-- The records of a kind. -/
def Record : Kind → Type
  | owner => Principal
  | initiator => Principal
  | commonPrefix => CommonPrefix
  | erasureShape => ErasureShape
  | errorReport => ErrorReport
  | bucket => Bucket
  | bucketListing => BucketListing
  | directoryBucketListing => DirectoryBucketListing
  | listedObject => ListedObject
  | markerListing => MarkerListing
  | tokenListing => TokenListing
  | objectVersion => ObjectVersion
  | versionListing => VersionListing
  | pendingUpload => PendingUpload
  | uploadListing => UploadListing
  | uploadedPart => UploadedPart
  | partListing => PartListing
  | startedUpload => StartedUpload
  | completedUpload => CompletedUpload
  | copyReport => CopyReport
  | deletion => Deletion
  | failedDeletion => FailedDeletion
  | deletionReport => DeletionReport

/-- The decoder of a kind. -/
def decoder : (kind : Kind) → Decoder kind.Record
  | owner => Decoder.owner
  | initiator => Decoder.initiator
  | commonPrefix => Decoder.commonPrefix
  | erasureShape => Decoder.erasureShape
  | errorReport => Decoder.errorReport
  | bucket => Decoder.bucket
  | bucketListing => Decoder.bucketListing
  | directoryBucketListing => Decoder.directoryBucketListing
  | listedObject => Decoder.listedObject
  | markerListing => Decoder.markerListing
  | tokenListing => Decoder.tokenListing
  | objectVersion => Decoder.objectVersion
  | versionListing => Decoder.versionListing
  | pendingUpload => Decoder.pendingUpload
  | uploadListing => Decoder.uploadListing
  | uploadedPart => Decoder.uploadedPart
  | partListing => Decoder.partListing
  | startedUpload => Decoder.startedUpload
  | completedUpload => Decoder.completedUpload
  | copyReport => Decoder.copyReport
  | deletion => Decoder.deletion
  | failedDeletion => Decoder.failedDeletion
  | deletionReport => Decoder.deletionReport

/-- The elements of a record of a kind. -/
def elements : (kind : Kind) → kind.Record → List Element
  | owner => Principal.elements
  | initiator => Principal.elements
  | commonPrefix => CommonPrefix.elements
  | erasureShape => ErasureShape.elements
  | errorReport => ErrorReport.elements
  | bucket => Bucket.elements
  | bucketListing => BucketListing.elements
  | directoryBucketListing => DirectoryBucketListing.elements
  | listedObject => ListedObject.elements
  | markerListing => MarkerListing.elements
  | tokenListing => TokenListing.elements
  | objectVersion => ObjectVersion.elements
  | versionListing => VersionListing.elements
  | pendingUpload => PendingUpload.elements
  | uploadListing => UploadListing.elements
  | uploadedPart => UploadedPart.elements
  | partListing => PartListing.elements
  | startedUpload => StartedUpload.elements
  | completedUpload => CompletedUpload.elements
  | copyReport => CopyReport.elements
  | deletion => Deletion.elements
  | failedDeletion => FailedDeletion.elements
  | deletionReport => DeletionReport.elements

instance (kind : Kind) : Body kind.Record := ⟨kind.elements⟩

/-- All instants in a record have timestamps and all metadata has names as keys. An entry of a
history that stands by itself is a live version. -/
def IsWritable : (kind : Kind) → kind.Record → Prop
  | bucket => Bucket.IsWritable
  | bucketListing => BucketListing.IsWritable
  | directoryBucketListing => DirectoryBucketListing.IsWritable
  | listedObject => fun object => object.toObjectEntry.IsWritable
  | markerListing => fun listing => listing.toObjectPage.IsWritable
  | tokenListing => fun listing => listing.toObjectPage.IsWritable
  | objectVersion => fun version =>
    version.toObjectEntry.IsWritable ∧ version.isDeleteMarker = false
  | versionListing => VersionListing.IsWritable
  | pendingUpload => PendingUpload.IsWritable
  | uploadListing => UploadListing.IsWritable
  | uploadedPart => UploadedPart.IsWritable
  | partListing => PartListing.IsWritable
  | copyReport => CopyReport.IsWritable
  | _ => fun _ => True

theorem allNamed_elements (kind : Kind) {r : kind.Record} (h : kind.IsWritable r) :
    AllNamed (kind.elements r) := by
  cases kind with
  | owner => exact Principal.allNamed r
  | initiator => exact Principal.allNamed r
  | commonPrefix => exact CommonPrefix.allNamed r
  | erasureShape => exact ErasureShape.allNamed r
  | errorReport => exact ErrorReport.allNamed r
  | bucket => exact Bucket.allNamed r
  | bucketListing => exact BucketListing.allNamed r
  | directoryBucketListing => exact DirectoryBucketListing.allNamed r
  | listedObject => exact ListedObject.allNamed h
  | markerListing => exact MarkerListing.allNamed h
  | tokenListing => exact TokenListing.allNamed h
  | objectVersion => exact ObjectEntry.allNamed h.1
  | versionListing => exact VersionListing.allNamed h
  | pendingUpload => exact PendingUpload.allNamed r
  | uploadListing => exact UploadListing.allNamed r
  | uploadedPart => exact UploadedPart.allNamed r
  | partListing => exact PartListing.allNamed r
  | startedUpload => exact StartedUpload.allNamed r
  | completedUpload => exact CompletedUpload.allNamed r
  | copyReport => exact CopyReport.allNamed r
  | deletion => exact Deletion.allNamed r
  | failedDeletion => exact FailedDeletion.allNamed r
  | deletionReport => exact DeletionReport.allNamed r

/-- A record is what its decoder makes of its elements. -/
theorem ofElement_elements (kind : Kind) {r : kind.Record} (h : kind.IsWritable r) (root : String) :
    kind.decoder.ofElement (.node root (kind.elements r)) = some r := by
  cases kind with
  | owner => exact Principal.foldlM_elements r
  | initiator => exact Principal.foldlM_elements r
  | commonPrefix => exact CommonPrefix.foldlM_elements r
  | erasureShape => exact ErasureShape.foldlM_elements r
  | errorReport => exact ErrorReport.foldlM_elements r
  | bucket => exact Bucket.foldlM_elements h
  | bucketListing => exact BucketListing.foldlM_elements h
  | directoryBucketListing => exact DirectoryBucketListing.foldlM_elements h
  | listedObject => exact ListedObject.foldlM_elements h
  | markerListing => exact MarkerListing.foldlM_elements h
  | tokenListing => exact TokenListing.foldlM_elements h
  | objectVersion =>
    obtain ⟨hentry, hlive⟩ := h
    refine (ObjectVersion.foldlM_elements hentry).trans ?_
    rw [← hlive]
    rfl
  | versionListing => exact VersionListing.foldlM_elements h
  | pendingUpload => exact PendingUpload.foldlM_elements h
  | uploadListing => exact UploadListing.foldlM_elements h
  | uploadedPart => exact UploadedPart.foldlM_elements h
  | partListing => exact PartListing.foldlM_elements h
  | startedUpload => exact StartedUpload.foldlM_elements r
  | completedUpload => exact CompletedUpload.foldlM_elements r
  | copyReport => exact CopyReport.foldlM_elements h
  | deletion => exact Deletion.foldlM_elements r
  | failedDeletion => exact FailedDeletion.foldlM_elements r
  | deletionReport => exact DeletionReport.foldlM_elements r

/-- A record of any kind is read back from its document, whatever the root is called and however the
document is laid out. -/
theorem decode_document (kind : Kind) {r : kind.Record} (h : kind.IsWritable r) {root : String}
    (hroot : IsName root) (encoding : Settings) {decoding : Settings}
    (htrim : decoding.trimText = false) :
    kind.decoder.decode decoding (Utf8.encode (encodeAs encoding root r)) = .ok r :=
  kind.decoder.decode_encodeAs htrim encoding ⟨hroot, kind.allNamed_elements h⟩
    (kind.ofElement_elements h root)

/-- A history of one delete marker, made before 1970, with all that an entry may have. -/
def markerHistory : versionListing.Record :=
  ({ versions := [{
      key := " <a>&"
      lastModified := some ⟨-1, 5⟩
      userMetadata := { entries := [("k", "v")] }
      userTags := { entries := [("%", "x=y+z")] }
      erasure := some { dataBlocks := -2 }
      isDeleteMarker := true }] } : VersionListing)

/-- The delete marker is read back, white space and all. -/
theorem decode_document_markerHistory :
    versionListing.decoder.decode {}
      (Utf8.encode (encodeAs { indent := 2 } "History" markerHistory)) = .ok markerHistory := by
  refine decode_document versionListing ?_ (isName_ofList (by decide)) { indent := 2 } rfl
  intro version hversion
  rw [List.mem_singleton.mp hversion]
  constructor
  · intro i hi
    cases hi
    decide
  · intro e he
    rw [List.mem_singleton.mp he]
    exact isName_ofList (by decide)

end Kind

end BucketWire

import BucketWire.Proofs.Decode.Trim
import BucketWire.Proofs.Record.Kind

/-!
# Trimmed records

A trimmed record has the same numbers, truth values, instants, tags and keys as the record, and as
many items in the same order. Its texts are trimmed, at every level, and so are the values of its
metadata. A document that is decoded with trimming gives the trimmed record of what it gives without
trimming, or the same error.

## Main definitions

* `Principal.trimmed`, `ObjectEntry.trimmed`, … — the trimmed record
* `Kind.trimmed` — the trimmed record of a kind

## Main results

* `Kind.decode_trimmed` — decoding with trimming gives the trimmed record
-/

namespace BucketWire

open Decoder (trimsTo_text trimsTo_boolean trimsTo_int64 trimsTo_int32 trimsTo_timestamp
  trimsTo_tags trimsTo_metadata trimsTo_record trimsTo_strictRecord trimsTo_items)
open Text (trim)

/-- A line of a table that holds a text is trimmed with the record. -/
theorem Field.Trims.text {ρ : Type} {trimmed : ρ → ρ} {name : String} {set : String → ρ → ρ}
    (h : ∀ s r, set (trim s) (trimmed r) = trimmed (set s r)) :
    (Field.store name Decoder.text set).Trims trimmed := .store trimsTo_text h

/-! ### Shared records -/

/-- An owner or an initiator with trimmed texts. -/
def Principal.trimmed (principal : Principal) : Principal where
  id := trim principal.id
  displayName := trim principal.displayName

theorem Principal.trims_fields : ∀ field ∈ fields, field.Trims trimmed := by
  simp only [fields, List.forall_mem_cons]
  exact ⟨.text fun _ _ => rfl, .text fun _ _ => rfl, by simp⟩

theorem Principal.trimsTo_owner : Decoder.owner.TrimsTo trimmed :=
  trimsTo_record trims_fields rfl "Owner"

theorem Principal.trimsTo_initiator : Decoder.initiator.TrimsTo trimmed :=
  trimsTo_record trims_fields rfl "Initiator"

/-- A common prefix with a trimmed text. -/
def CommonPrefix.trimmed (record : CommonPrefix) : CommonPrefix where
  keyPrefix := trim record.keyPrefix

theorem CommonPrefix.trims_fields : ∀ field ∈ fields, field.Trims trimmed := by
  simp only [fields, List.forall_mem_cons]
  exact ⟨.text fun _ _ => rfl, by simp⟩

theorem CommonPrefix.trimsTo : Decoder.commonPrefix.TrimsTo trimmed :=
  trimsTo_record trims_fields rfl "CommonPrefixes"

theorem ErasureShape.trims_fields : ∀ field ∈ fields, field.Trims (id : ErasureShape → _) := by
  simp only [fields, List.forall_mem_cons]
  exact ⟨.store trimsTo_int64 fun _ _ => rfl, .store trimsTo_int64 fun _ _ => rfl, by simp⟩

theorem ErasureShape.trimsTo : Decoder.erasureShape.TrimsTo id :=
  trimsTo_record trims_fields rfl "Internal"

/-- A report of an error with trimmed texts. -/
def ErrorReport.trimmed (report : ErrorReport) : ErrorReport where
  code := trim report.code
  message := trim report.message
  bucketName := trim report.bucketName
  key := trim report.key
  resource := trim report.resource
  requestId := trim report.requestId
  hostId := trim report.hostId
  region := trim report.region

theorem ErrorReport.trims_fields : ∀ field ∈ fields, field.Trims trimmed := by
  simp only [fields, List.forall_mem_cons]
  exact ⟨.text fun _ _ => rfl, .text fun _ _ => rfl, .text fun _ _ => rfl, .text fun _ _ => rfl,
    .text fun _ _ => rfl, .text fun _ _ => rfl, .text fun _ _ => rfl, .text fun _ _ => rfl,
    by simp⟩

theorem ErrorReport.trimsTo : Decoder.errorReport.TrimsTo trimmed :=
  trimsTo_record trims_fields rfl "Error"

/-- Checksums with trimmed texts. -/
def Checksums.trimmed (c : Checksums) : Checksums where
  crc32 := trim c.crc32
  crc32c := trim c.crc32c
  sha1 := trim c.sha1
  sha256 := trim c.sha256
  crc64nvme := trim c.crc64nvme

theorem Checksums.trims_fields : ∀ field ∈ fields, field.Trims trimmed := by
  intro field hfield
  obtain ⟨algorithm, -, rfl⟩ := List.mem_map.mp hfield
  refine .text fun s c => ?_
  cases algorithm <;> rfl

/-! ### Buckets -/

/-- A bucket with trimmed texts. -/
def Bucket.trimmed (bucket : Bucket) : Bucket where
  name := trim bucket.name
  creationDate := bucket.creationDate
  region := trim bucket.region

theorem Bucket.trims_fields : ∀ field ∈ fields, field.Trims trimmed := by
  simp only [fields, List.forall_mem_cons]
  exact ⟨.text fun _ _ => rfl, .store trimsTo_timestamp fun _ _ => rfl, .text fun _ _ => rfl,
    by simp⟩

theorem Bucket.trimsTo : Decoder.bucket.TrimsTo trimmed :=
  trimsTo_record trims_fields rfl "Bucket"

/-- The buckets of an owner, all with trimmed texts. -/
def BucketListing.trimmed (listing : BucketListing) : BucketListing where
  buckets := listing.buckets.map Bucket.trimmed
  owner := listing.owner.trimmed

theorem BucketListing.trims_fields : ∀ field ∈ fields, field.Trims trimmed := by
  simp only [fields, List.forall_mem_cons]
  exact ⟨.store (trimsTo_items Bucket.trimsTo "Bucket") fun _ _ => rfl,
    .store Principal.trimsTo_owner fun _ _ => rfl, by simp⟩

theorem BucketListing.trimsTo : Decoder.bucketListing.TrimsTo trimmed :=
  trimsTo_record trims_fields rfl "ListAllMyBucketsResult"

/-- Directory buckets with trimmed texts. -/
def DirectoryBucketListing.trimmed (listing : DirectoryBucketListing) :
    DirectoryBucketListing where
  buckets := listing.buckets.map Bucket.trimmed
  continuationToken := trim listing.continuationToken

theorem DirectoryBucketListing.trims_fields : ∀ field ∈ fields, field.Trims trimmed := by
  simp only [fields, List.forall_mem_cons]
  exact ⟨.store (trimsTo_items Bucket.trimsTo "Bucket") fun _ _ => rfl, .text fun _ _ => rfl,
    by simp⟩

theorem DirectoryBucketListing.trimsTo : Decoder.directoryBucketListing.TrimsTo trimmed :=
  trimsTo_record trims_fields rfl "ListAllMyDirectoryBucketsResult"

/-! ### Objects -/

/-- What listings say of an object, with trimmed texts and trimmed metadata. -/
def ObjectEntry.trimmed (entry : ObjectEntry) : ObjectEntry where
  eTag := trim entry.eTag
  key := trim entry.key
  lastModified := entry.lastModified
  size := entry.size
  owner := entry.owner.trimmed
  storageClass := trim entry.storageClass
  versionId := trim entry.versionId
  isLatest := entry.isLatest
  userMetadata := entry.userMetadata.trimmed
  userTags := entry.userTags
  erasure := entry.erasure
  checksums := entry.checksums.trimmed
  checksumType := trim entry.checksumType

theorem ObjectEntry.trims_fields : ∀ field ∈ fields, field.Trims trimmed := by
  simp only [fields, List.forall_mem_append, List.forall_mem_cons, List.forall_mem_map]
  refine ⟨⟨.text fun _ _ => rfl, .text fun _ _ => rfl, .store trimsTo_timestamp fun _ _ => rfl,
    .store trimsTo_int64 fun _ _ => rfl, .store Principal.trimsTo_owner fun _ _ => rfl,
    .text fun _ _ => rfl, .text fun _ _ => rfl, .store trimsTo_boolean fun _ _ => rfl,
    .store trimsTo_metadata fun _ _ => rfl, .store trimsTo_tags fun _ _ => rfl,
    .store ErasureShape.trimsTo fun _ _ => rfl, .text fun _ _ => rfl, by simp⟩, ?_⟩
  intro field hfield
  refine (Checksums.trims_fields field hfield).lift fun c c' h entry => ?_
  simp only [trimmed, h]

/-- An object in a listing with trimmed texts. -/
def ListedObject.trimmed (object : ListedObject) : ListedObject where
  toObjectEntry := object.toObjectEntry.trimmed
  userTagCount := object.userTagCount

theorem ListedObject.trims_fields : ∀ field ∈ fields, field.Trims trimmed := by
  simp only [fields, List.forall_mem_cons, List.forall_mem_map]
  refine ⟨.store trimsTo_int64 fun _ _ => rfl, fun field hfield => ?_⟩
  refine (ObjectEntry.trims_fields field hfield).lift fun c c' h object => ?_
  simp only [trimmed, h]

theorem ListedObject.trimsTo : Decoder.listedObject.TrimsTo trimmed :=
  trimsTo_record trims_fields rfl "Contents"

/-- What both listings of objects have, with trimmed texts. -/
def ObjectPage.trimmed (page : ObjectPage) : ObjectPage where
  commonPrefixes := page.commonPrefixes.map CommonPrefix.trimmed
  contents := page.contents.map ListedObject.trimmed
  delimiter := trim page.delimiter
  encodingType := trim page.encodingType
  isTruncated := page.isTruncated
  maxKeys := page.maxKeys
  name := trim page.name
  keyPrefix := trim page.keyPrefix

theorem ObjectPage.trims_fields : ∀ field ∈ fields, field.Trims trimmed := by
  simp only [fields, List.forall_mem_cons]
  exact ⟨.store CommonPrefix.trimsTo fun _ _ => by simp [trimmed],
    .store ListedObject.trimsTo fun _ _ => by simp [trimmed], .text fun _ _ => rfl,
    .text fun _ _ => rfl, .store trimsTo_boolean fun _ _ => rfl,
    .store trimsTo_int64 fun _ _ => rfl, .text fun _ _ => rfl, .text fun _ _ => rfl, by simp⟩

/-- A listing of objects that goes on after a key, with trimmed texts. -/
def MarkerListing.trimmed (listing : MarkerListing) : MarkerListing where
  toObjectPage := listing.toObjectPage.trimmed
  marker := trim listing.marker
  nextMarker := trim listing.nextMarker

theorem MarkerListing.trims_fields : ∀ field ∈ fields, field.Trims trimmed := by
  simp only [fields, List.forall_mem_append, List.forall_mem_cons, List.forall_mem_map]
  refine ⟨⟨.text fun _ _ => rfl, .text fun _ _ => rfl, by simp⟩, fun field hfield => ?_⟩
  refine (ObjectPage.trims_fields field hfield).lift fun c c' h listing => ?_
  simp only [trimmed, h]

theorem MarkerListing.trimsTo : Decoder.markerListing.TrimsTo trimmed :=
  trimsTo_record trims_fields rfl "ListBucketResult"

/-- A listing of objects that goes on with a token, with trimmed texts. -/
def TokenListing.trimmed (listing : TokenListing) : TokenListing where
  toObjectPage := listing.toObjectPage.trimmed
  keyCount := listing.keyCount
  nextContinuationToken := trim listing.nextContinuationToken
  continuationToken := trim listing.continuationToken
  fetchOwner := trim listing.fetchOwner
  startAfter := trim listing.startAfter

theorem TokenListing.trims_fields : ∀ field ∈ fields, field.Trims trimmed := by
  simp only [fields, List.forall_mem_append, List.forall_mem_cons, List.forall_mem_map]
  refine ⟨⟨.store trimsTo_int64 fun _ _ => rfl, .text fun _ _ => rfl, .text fun _ _ => rfl,
    .text fun _ _ => rfl, .text fun _ _ => rfl, by simp⟩, fun field hfield => ?_⟩
  refine (ObjectPage.trims_fields field hfield).lift fun c c' h listing => ?_
  simp only [trimmed, h]

theorem TokenListing.trimsTo : Decoder.tokenListing.TrimsTo trimmed :=
  trimsTo_record trims_fields rfl "ListBucketResult"

/-! ### Histories -/

/-- An entry of a history with trimmed texts. -/
def ObjectVersion.trimmed (version : ObjectVersion) : ObjectVersion where
  toObjectEntry := version.toObjectEntry.trimmed
  isDeleteMarker := version.isDeleteMarker

theorem ObjectVersion.trims_fields : ∀ field ∈ fields, field.Trims trimmed := by
  simp only [fields, List.forall_mem_map]
  intro field hfield
  refine (ObjectEntry.trims_fields field hfield).lift fun c c' h version => ?_
  simp only [trimmed, h]

theorem ObjectVersion.trimsTo : Decoder.objectVersion.TrimsTo trimmed :=
  trimsTo_record trims_fields rfl "Version"

/-- A history with trimmed texts. -/
def VersionListing.trimmed (listing : VersionListing) : VersionListing where
  versions := listing.versions.map ObjectVersion.trimmed
  commonPrefixes := listing.commonPrefixes.map CommonPrefix.trimmed
  name := trim listing.name
  keyPrefix := trim listing.keyPrefix
  delimiter := trim listing.delimiter
  maxKeys := listing.maxKeys
  encodingType := trim listing.encodingType
  isTruncated := listing.isTruncated
  keyMarker := trim listing.keyMarker
  versionIdMarker := trim listing.versionIdMarker
  nextKeyMarker := trim listing.nextKeyMarker
  nextVersionIdMarker := trim listing.nextVersionIdMarker

theorem VersionListing.trims_fields : ∀ field ∈ fields, field.Trims trimmed := by
  simp only [fields, List.forall_mem_cons]
  exact ⟨.store ObjectVersion.trimsTo fun _ _ => by
      simp [trimmed, pushVersion, ObjectVersion.trimmed],
    .store ObjectVersion.trimsTo fun _ _ => by
      simp [trimmed, pushDeleteMarker, ObjectVersion.trimmed],
    .store CommonPrefix.trimsTo fun _ _ => by simp [trimmed], .text fun _ _ => rfl,
    .text fun _ _ => rfl, .text fun _ _ => rfl, .store trimsTo_int64 fun _ _ => rfl,
    .text fun _ _ => rfl, .store trimsTo_boolean fun _ _ => rfl, .text fun _ _ => rfl,
    .text fun _ _ => rfl, .text fun _ _ => rfl, .text fun _ _ => rfl, by simp⟩

theorem VersionListing.trimsTo : Decoder.versionListing.TrimsTo trimmed :=
  trimsTo_strictRecord trims_fields rfl "ListVersionsResult"

/-! ### Uploads -/

/-- An upload that is under way, with trimmed texts. -/
def PendingUpload.trimmed (upload : PendingUpload) : PendingUpload where
  initiated := upload.initiated
  initiator := upload.initiator.trimmed
  owner := upload.owner.trimmed
  storageClass := trim upload.storageClass
  key := trim upload.key
  size := upload.size
  uploadId := trim upload.uploadId

theorem PendingUpload.trims_fields : ∀ field ∈ fields, field.Trims trimmed := by
  simp only [fields, List.forall_mem_cons]
  exact ⟨.store trimsTo_timestamp fun _ _ => rfl, .store Principal.trimsTo_initiator fun _ _ => rfl,
    .store Principal.trimsTo_owner fun _ _ => rfl, .text fun _ _ => rfl, .text fun _ _ => rfl,
    .store trimsTo_int64 fun _ _ => rfl, .text fun _ _ => rfl, by simp⟩

theorem PendingUpload.trimsTo : Decoder.pendingUpload.TrimsTo trimmed :=
  trimsTo_record trims_fields rfl "Upload"

/-- A listing of uploads with trimmed texts. -/
def UploadListing.trimmed (listing : UploadListing) : UploadListing where
  bucket := trim listing.bucket
  keyMarker := trim listing.keyMarker
  uploadIdMarker := trim listing.uploadIdMarker
  nextKeyMarker := trim listing.nextKeyMarker
  nextUploadIdMarker := trim listing.nextUploadIdMarker
  encodingType := trim listing.encodingType
  maxUploads := listing.maxUploads
  isTruncated := listing.isTruncated
  uploads := listing.uploads.map PendingUpload.trimmed
  keyPrefix := trim listing.keyPrefix
  delimiter := trim listing.delimiter
  commonPrefixes := listing.commonPrefixes.map CommonPrefix.trimmed

theorem UploadListing.trims_fields : ∀ field ∈ fields, field.Trims trimmed := by
  simp only [fields, List.forall_mem_cons]
  exact ⟨.text fun _ _ => rfl, .text fun _ _ => rfl, .text fun _ _ => rfl, .text fun _ _ => rfl,
    .text fun _ _ => rfl, .text fun _ _ => rfl, .store trimsTo_int64 fun _ _ => rfl,
    .store trimsTo_boolean fun _ _ => rfl,
    .store PendingUpload.trimsTo fun _ _ => by simp [trimmed], .text fun _ _ => rfl,
    .text fun _ _ => rfl, .store CommonPrefix.trimsTo fun _ _ => by simp [trimmed], by simp⟩

theorem UploadListing.trimsTo : Decoder.uploadListing.TrimsTo trimmed :=
  trimsTo_record trims_fields rfl "ListMultipartUploadsResult"

/-- An uploaded part with trimmed texts. -/
def UploadedPart.trimmed (part : UploadedPart) : UploadedPart where
  partNumber := part.partNumber
  lastModified := part.lastModified
  eTag := trim part.eTag
  size := part.size
  checksums := part.checksums.trimmed

theorem UploadedPart.trims_fields : ∀ field ∈ fields, field.Trims trimmed := by
  simp only [fields, List.forall_mem_append, List.forall_mem_cons, List.forall_mem_map]
  refine ⟨⟨.store trimsTo_int32 fun _ _ => rfl, .store trimsTo_timestamp fun _ _ => rfl,
    .text fun _ _ => rfl, .store trimsTo_int64 fun _ _ => rfl, by simp⟩, fun field hfield => ?_⟩
  refine (Checksums.trims_fields field hfield).lift fun c c' h part => ?_
  simp only [trimmed, h]

theorem UploadedPart.trimsTo : Decoder.uploadedPart.TrimsTo trimmed :=
  trimsTo_record trims_fields rfl "Part"

/-- A listing of parts with trimmed texts. -/
def PartListing.trimmed (listing : PartListing) : PartListing where
  bucket := trim listing.bucket
  key := trim listing.key
  uploadId := trim listing.uploadId
  initiator := listing.initiator.trimmed
  owner := listing.owner.trimmed
  storageClass := trim listing.storageClass
  partNumberMarker := listing.partNumberMarker
  nextPartNumberMarker := listing.nextPartNumberMarker
  maxParts := listing.maxParts
  checksumAlgorithm := trim listing.checksumAlgorithm
  checksumType := trim listing.checksumType
  isTruncated := listing.isTruncated
  parts := listing.parts.map UploadedPart.trimmed
  encodingType := trim listing.encodingType

theorem PartListing.trims_fields : ∀ field ∈ fields, field.Trims trimmed := by
  simp only [fields, List.forall_mem_cons]
  exact ⟨.text fun _ _ => rfl, .text fun _ _ => rfl, .text fun _ _ => rfl,
    .store Principal.trimsTo_initiator fun _ _ => rfl, .store Principal.trimsTo_owner fun _ _ => rfl,
    .text fun _ _ => rfl, .store trimsTo_int32 fun _ _ => rfl, .store trimsTo_int32 fun _ _ => rfl,
    .store trimsTo_int32 fun _ _ => rfl, .text fun _ _ => rfl, .text fun _ _ => rfl,
    .store trimsTo_boolean fun _ _ => rfl,
    .store UploadedPart.trimsTo fun _ _ => by simp [trimmed], .text fun _ _ => rfl, by simp⟩

theorem PartListing.trimsTo : Decoder.partListing.TrimsTo trimmed :=
  trimsTo_record trims_fields rfl "ListPartsResult"

/-- The answer to starting an upload with trimmed texts. -/
def StartedUpload.trimmed (upload : StartedUpload) : StartedUpload where
  bucket := trim upload.bucket
  key := trim upload.key
  uploadId := trim upload.uploadId

theorem StartedUpload.trims_fields : ∀ field ∈ fields, field.Trims trimmed := by
  simp only [fields, List.forall_mem_cons]
  exact ⟨.text fun _ _ => rfl, .text fun _ _ => rfl, .text fun _ _ => rfl, by simp⟩

theorem StartedUpload.trimsTo : Decoder.startedUpload.TrimsTo trimmed :=
  trimsTo_record trims_fields rfl "InitiateMultipartUploadResult"

/-- The answer to completing an upload with trimmed texts. -/
def CompletedUpload.trimmed (upload : CompletedUpload) : CompletedUpload where
  location := trim upload.location
  bucket := trim upload.bucket
  key := trim upload.key
  eTag := trim upload.eTag
  checksums := upload.checksums.trimmed
  checksumType := trim upload.checksumType

theorem CompletedUpload.trims_fields : ∀ field ∈ fields, field.Trims trimmed := by
  simp only [fields, List.forall_mem_append, List.forall_mem_cons, List.forall_mem_map]
  refine ⟨⟨.text fun _ _ => rfl, .text fun _ _ => rfl, .text fun _ _ => rfl, .text fun _ _ => rfl,
    .text fun _ _ => rfl, by simp⟩, fun field hfield => ?_⟩
  refine (Checksums.trims_fields field hfield).lift fun c c' h upload => ?_
  simp only [trimmed, h]

theorem CompletedUpload.trimsTo : Decoder.completedUpload.TrimsTo trimmed :=
  trimsTo_record trims_fields rfl "CompleteMultipartUploadResult"

/-- The answer to copying with trimmed texts. -/
def CopyReport.trimmed (report : CopyReport) : CopyReport where
  eTag := trim report.eTag
  lastModified := report.lastModified

theorem CopyReport.trims_fields : ∀ field ∈ fields, field.Trims trimmed := by
  simp only [fields, List.forall_mem_cons]
  exact ⟨.text fun _ _ => rfl, .store trimsTo_timestamp fun _ _ => rfl, by simp⟩

theorem CopyReport.trimsTo : Decoder.copyReport.TrimsTo trimmed :=
  trimsTo_record trims_fields rfl "CopyObjectResult"

/-! ### Deletions -/

/-- An object that was deleted, with trimmed texts. -/
def Deletion.trimmed (deletion : Deletion) : Deletion where
  key := trim deletion.key
  versionId := trim deletion.versionId
  deleteMarker := deletion.deleteMarker
  deleteMarkerVersionId := trim deletion.deleteMarkerVersionId

theorem Deletion.trims_fields : ∀ field ∈ fields, field.Trims trimmed := by
  simp only [fields, List.forall_mem_cons]
  exact ⟨.text fun _ _ => rfl, .text fun _ _ => rfl, .store trimsTo_boolean fun _ _ => rfl,
    .text fun _ _ => rfl, by simp⟩

theorem Deletion.trimsTo : Decoder.deletion.TrimsTo trimmed :=
  trimsTo_record trims_fields rfl "Deleted"

/-- An object that could not be deleted, with trimmed texts. -/
def FailedDeletion.trimmed (failure : FailedDeletion) : FailedDeletion where
  key := trim failure.key
  code := trim failure.code
  message := trim failure.message
  versionId := trim failure.versionId

theorem FailedDeletion.trims_fields : ∀ field ∈ fields, field.Trims trimmed := by
  simp only [fields, List.forall_mem_cons]
  exact ⟨.text fun _ _ => rfl, .text fun _ _ => rfl, .text fun _ _ => rfl, .text fun _ _ => rfl,
    by simp⟩

theorem FailedDeletion.trimsTo : Decoder.failedDeletion.TrimsTo trimmed :=
  trimsTo_record trims_fields rfl "Error"

/-- The outcome of deleting several objects, with trimmed texts. -/
def DeletionReport.trimmed (report : DeletionReport) : DeletionReport where
  deleted := report.deleted.map Deletion.trimmed
  failed := report.failed.map FailedDeletion.trimmed

theorem DeletionReport.trims_fields : ∀ field ∈ fields, field.Trims trimmed := by
  simp only [fields, List.forall_mem_cons]
  exact ⟨.store Deletion.trimsTo fun _ _ => by simp [trimmed],
    .store FailedDeletion.trimsTo fun _ _ => by simp [trimmed], by simp⟩

theorem DeletionReport.trimsTo : Decoder.deletionReport.TrimsTo trimmed :=
  trimsTo_record trims_fields rfl "DeleteResult"

/-! ### Every kind -/

namespace Kind

/-- A record of a kind with trimmed texts. An erasure shape has none. -/
def trimmed : (kind : Kind) → kind.Record → kind.Record
  | owner => Principal.trimmed
  | initiator => Principal.trimmed
  | commonPrefix => CommonPrefix.trimmed
  | erasureShape => id
  | errorReport => ErrorReport.trimmed
  | bucket => Bucket.trimmed
  | bucketListing => BucketListing.trimmed
  | directoryBucketListing => DirectoryBucketListing.trimmed
  | listedObject => ListedObject.trimmed
  | markerListing => MarkerListing.trimmed
  | tokenListing => TokenListing.trimmed
  | objectVersion => ObjectVersion.trimmed
  | versionListing => VersionListing.trimmed
  | pendingUpload => PendingUpload.trimmed
  | uploadListing => UploadListing.trimmed
  | uploadedPart => UploadedPart.trimmed
  | partListing => PartListing.trimmed
  | startedUpload => StartedUpload.trimmed
  | completedUpload => CompletedUpload.trimmed
  | copyReport => CopyReport.trimmed
  | deletion => Deletion.trimmed
  | failedDeletion => FailedDeletion.trimmed
  | deletionReport => DeletionReport.trimmed

theorem trimsTo_trimmed (kind : Kind) : kind.decoder.TrimsTo kind.trimmed := by
  cases kind with
  | owner => exact Principal.trimsTo_owner
  | initiator => exact Principal.trimsTo_initiator
  | commonPrefix => exact CommonPrefix.trimsTo
  | erasureShape => exact ErasureShape.trimsTo
  | errorReport => exact ErrorReport.trimsTo
  | bucket => exact Bucket.trimsTo
  | bucketListing => exact BucketListing.trimsTo
  | directoryBucketListing => exact DirectoryBucketListing.trimsTo
  | listedObject => exact ListedObject.trimsTo
  | markerListing => exact MarkerListing.trimsTo
  | tokenListing => exact TokenListing.trimsTo
  | objectVersion => exact ObjectVersion.trimsTo
  | versionListing => exact VersionListing.trimsTo
  | pendingUpload => exact PendingUpload.trimsTo
  | uploadListing => exact UploadListing.trimsTo
  | uploadedPart => exact UploadedPart.trimsTo
  | partListing => exact PartListing.trimsTo
  | startedUpload => exact StartedUpload.trimsTo
  | completedUpload => exact CompletedUpload.trimsTo
  | copyReport => exact CopyReport.trimsTo
  | deletion => exact Deletion.trimsTo
  | failedDeletion => exact FailedDeletion.trimsTo
  | deletionReport => exact DeletionReport.trimsTo

/-- With trimming, a document decodes to the trimmed record of what it decodes to without trimming,
or fails with the same error. -/
theorem decode_trimmed (kind : Kind) (settings : Settings) (document : Bytes) :
    kind.decoder.decode { settings with trimText := true } document =
      (kind.decoder.decode { settings with trimText := false } document).map kind.trimmed :=
  kind.trimsTo_trimmed.decode_eq settings document

end Kind

end BucketWire

import BucketWire.Decode.Upload
import BucketWire.Proofs.Record.Shared

/-!
# Elements of records about uploads

Uploads that are under way and parts are listed in order, each in an element of its own. A part and
a completed upload have the elements of their checksums among theirs.

## Main definitions

* `PendingUpload.IsWritable`, `UploadListing.IsWritable`, `UploadedPart.IsWritable`,
  `PartListing.IsWritable`, `CopyReport.IsWritable` — records whose instants have timestamps

## Main results

* `PendingUpload.foldlM_elements`, `UploadListing.foldlM_elements` — uploads and their listing are
  read back
* `UploadedPart.foldlM_elements`, `PartListing.foldlM_elements` — parts and their listing are read
  back
* `StartedUpload.foldlM_elements`, `CompletedUpload.foldlM_elements`,
  `CopyReport.foldlM_elements` — the answers to requests are read back
-/

namespace BucketWire

open Decoder (fill foldlM_append_of_eq_some foldlM_list ofElement_timestamp)
open Element (AllNamed)
open Markup (IsName isName_ofList)

/-! ### Uploads that are under way -/

/-- The elements of an upload. -/
def PendingUpload.elements (upload : PendingUpload) : List Element :=
  Element.instant "Initiated" upload.initiated ++
    [.node "Initiator" upload.initiator.elements, .node "Owner" upload.owner.elements,
      .leaf "StorageClass" upload.storageClass, .leaf "Key" upload.key,
      .leaf "Size" (Numeral.decimal upload.size.toInt), .leaf "UploadId" upload.uploadId]

/-- The start has a timestamp, if it is known. -/
def PendingUpload.IsWritable (upload : PendingUpload) : Prop := ∀ i ∈ upload.initiated, i.IsWritable

theorem PendingUpload.allNamed (upload : PendingUpload) : AllNamed upload.elements := by
  have hinitiated := Element.allNamed_instant (isName_ofList (by decide) : IsName "Initiated")
    upload.initiated
  simp only [elements, Element.allNamed_append, Element.allNamed_cons, Element.named_leaf,
    Element.named_node, Element.allNamed_nil, hinitiated, Principal.allNamed, and_true, true_and]
  and_intros <;> exact isName_ofList (by decide)

/-- An upload is read back. -/
theorem PendingUpload.foldlM_elements {upload : PendingUpload} (h : upload.IsWritable) :
    upload.elements.foldlM (fill fields) {} = some upload := by
  obtain ⟨initiated, initiator, owner, storageClass, key, size, uploadId⟩ := upload
  cases initiated with
  | none =>
    simp [elements, Element.instant, Element.name, fill, fields]
  | some i =>
    simp [elements, Element.instant, Element.name, fill, fields, ofElement_timestamp _ (h i rfl)]

/-- The elements of a listing of uploads. -/
def UploadListing.elements (listing : UploadListing) : List Element :=
  [.leaf "Bucket" listing.bucket, .leaf "KeyMarker" listing.keyMarker,
    .leaf "UploadIdMarker" listing.uploadIdMarker, .leaf "NextKeyMarker" listing.nextKeyMarker,
    .leaf "NextUploadIdMarker" listing.nextUploadIdMarker,
    .leaf "EncodingType" listing.encodingType,
    .leaf "MaxUploads" (Numeral.decimal listing.maxUploads.toInt),
    .leaf "IsTruncated" (truthText listing.isTruncated), .leaf "Prefix" listing.keyPrefix,
    .leaf "Delimiter" listing.delimiter] ++
  (listing.uploads.map fun upload => .node "Upload" upload.elements) ++
  CommonPrefix.list listing.commonPrefixes

/-- All uploads can be written. -/
def UploadListing.IsWritable (listing : UploadListing) : Prop :=
  ∀ upload ∈ listing.uploads, upload.IsWritable

theorem UploadListing.allNamed (listing : UploadListing) : AllNamed listing.elements := by
  have huploads : AllNamed (listing.uploads.map fun upload => .node "Upload" upload.elements) :=
    (Element.allNamed_map _ _).mpr fun upload _ => ⟨isName_ofList (by decide), upload.allNamed⟩
  have hprefixes := CommonPrefix.allNamed_list listing.commonPrefixes
  simp only [elements, Element.allNamed_append, Element.allNamed_cons, Element.named_leaf,
    Element.allNamed_nil, huploads, hprefixes, and_true]
  and_intros <;> exact isName_ofList (by decide)

/-- A listing of uploads is read back. -/
theorem UploadListing.foldlM_elements {listing : UploadListing} (h : listing.IsWritable) :
    listing.elements.foldlM (fill fields) {} = some listing := by
  have hfind : Field.find? fields "Upload" = some (Decoder.pendingUpload.map fun upload listing =>
      { listing with uploads := listing.uploads ++ [upload] }) := rfl
  have huploads : (listing.uploads.map fun upload => .node "Upload" upload.elements).foldlM
      (fill fields) { listing with uploads := [], commonPrefixes := [] } =
        some { listing with commonPrefixes := [] } :=
    foldlM_list (fun uploads => { listing with uploads, commonPrefixes := [] }) hfind
      (fun upload hupload => upload.foldlM_elements (h upload hupload)) fun _ _ => rfl
  have hprefixes : (CommonPrefix.list listing.commonPrefixes).foldlM (fill fields)
      { listing with commonPrefixes := [] } = some listing :=
    CommonPrefix.foldlM_list (fun commonPrefixes => { listing with commonPrefixes }) rfl
      fun _ _ => rfl
  rw [elements, List.append_assoc, foldlM_append_of_eq_some
    (b := { listing with uploads := [], commonPrefixes := [] })]
  · exact (foldlM_append_of_eq_some huploads).trans hprefixes
  · simp [Element.name, fill, fields]

/-! ### Parts -/

/-- The elements of a part. -/
def UploadedPart.elements (part : UploadedPart) : List Element :=
  .leaf "PartNumber" (Numeral.decimal part.partNumber.toInt) ::
    Element.instant "LastModified" part.lastModified ++
    [.leaf "ETag" part.eTag, .leaf "Size" (Numeral.decimal part.size.toInt)] ++
    part.checksums.leaves

/-- The last change has a timestamp, if it is known. -/
def UploadedPart.IsWritable (part : UploadedPart) : Prop := ∀ i ∈ part.lastModified, i.IsWritable

theorem UploadedPart.allNamed (part : UploadedPart) : AllNamed part.elements := by
  have hmodified := Element.allNamed_instant (isName_ofList (by decide) : IsName "LastModified")
    part.lastModified
  simp only [elements, Element.allNamed_append, Element.allNamed_cons, Element.named_leaf,
    Element.allNamed_nil, hmodified, Checksums.allNamed_leaves, and_true]
  and_intros <;> exact isName_ofList (by decide)

/-- A part is read back. -/
theorem UploadedPart.foldlM_elements {part : UploadedPart} (h : part.IsWritable) :
    part.elements.foldlM (fill fields) {} = some part := by
  have hchecksums : part.checksums.leaves.foldlM (fill fields) { part with checksums := {} } =
      some part := by
    rw [fields]
    refine Checksums.foldlM_leaves_lift
      (fun checksums => ({ part with checksums } : UploadedPart)) ?_ ?_ part.checksums
    · intro change checksums
      rfl
    · decide
  rw [elements, foldlM_append_of_eq_some (b := { part with checksums := {} }), hchecksums]
  obtain ⟨partNumber, lastModified, eTag, size, checksums⟩ := part
  cases lastModified with
  | none => simp [Element.instant, Element.name, fill, fields]
  | some i =>
    simp [Element.instant, Element.name, fill, fields, ofElement_timestamp _ (h i rfl)]

/-- The elements of a listing of parts. -/
def PartListing.elements (listing : PartListing) : List Element :=
  [.leaf "Bucket" listing.bucket, .leaf "Key" listing.key, .leaf "UploadId" listing.uploadId,
    .node "Initiator" listing.initiator.elements, .node "Owner" listing.owner.elements,
    .leaf "StorageClass" listing.storageClass,
    .leaf "PartNumberMarker" (Numeral.decimal listing.partNumberMarker.toInt),
    .leaf "NextPartNumberMarker" (Numeral.decimal listing.nextPartNumberMarker.toInt),
    .leaf "MaxParts" (Numeral.decimal listing.maxParts.toInt),
    .leaf "ChecksumAlgorithm" listing.checksumAlgorithm,
    .leaf "ChecksumType" listing.checksumType,
    .leaf "IsTruncated" (truthText listing.isTruncated),
    .leaf "EncodingType" listing.encodingType] ++
  listing.parts.map fun part => .node "Part" part.elements

/-- All parts can be written. -/
def PartListing.IsWritable (listing : PartListing) : Prop := ∀ part ∈ listing.parts, part.IsWritable

theorem PartListing.allNamed (listing : PartListing) : AllNamed listing.elements := by
  have hparts : AllNamed (listing.parts.map fun part => .node "Part" part.elements) :=
    (Element.allNamed_map _ _).mpr fun part _ => ⟨isName_ofList (by decide), part.allNamed⟩
  simp only [elements, Element.allNamed_append, Element.allNamed_cons, Element.named_leaf,
    Element.named_node, Element.allNamed_nil, hparts, Principal.allNamed, and_true]
  and_intros <;> exact isName_ofList (by decide)

/-- A listing of parts is read back. -/
theorem PartListing.foldlM_elements {listing : PartListing} (h : listing.IsWritable) :
    listing.elements.foldlM (fill fields) {} = some listing := by
  have hfind : Field.find? fields "Part" = some (Decoder.uploadedPart.map fun part listing =>
      { listing with parts := listing.parts ++ [part] }) := rfl
  have hparts : (listing.parts.map fun part => .node "Part" part.elements).foldlM (fill fields)
      { listing with parts := [] } = some listing :=
    foldlM_list (fun parts => { listing with parts }) hfind
      (fun part hpart => part.foldlM_elements (h part hpart)) fun _ _ => rfl
  rw [elements, foldlM_append_of_eq_some (b := { listing with parts := [] }), hparts]
  simp [Element.name, fill, fields]

/-! ### Answers -/

/-- The elements of the answer to starting an upload. -/
def StartedUpload.elements (upload : StartedUpload) : List Element :=
  [.leaf "Bucket" upload.bucket, .leaf "Key" upload.key, .leaf "UploadId" upload.uploadId]

theorem StartedUpload.allNamed (upload : StartedUpload) : AllNamed upload.elements := by
  simp only [elements, Element.allNamed_cons, Element.named_leaf, Element.allNamed_nil, and_true]
  and_intros <;> exact isName_ofList (by decide)

/-- The answer to starting an upload is read back. -/
theorem StartedUpload.foldlM_elements (upload : StartedUpload) :
    upload.elements.foldlM (fill fields) {} = some upload := rfl

/-- The elements of the answer to completing an upload. -/
def CompletedUpload.elements (upload : CompletedUpload) : List Element :=
  [.leaf "Location" upload.location, .leaf "Bucket" upload.bucket, .leaf "Key" upload.key,
    .leaf "ETag" upload.eTag, .leaf "ChecksumType" upload.checksumType] ++
  upload.checksums.leaves

theorem CompletedUpload.allNamed (upload : CompletedUpload) : AllNamed upload.elements := by
  simp only [elements, Element.allNamed_append, Element.allNamed_cons, Element.named_leaf,
    Element.allNamed_nil, Checksums.allNamed_leaves, and_true]
  and_intros <;> exact isName_ofList (by decide)

/-- The answer to completing an upload is read back. -/
theorem CompletedUpload.foldlM_elements (upload : CompletedUpload) :
    upload.elements.foldlM (fill fields) {} = some upload := by
  have hchecksums : upload.checksums.leaves.foldlM (fill fields) { upload with checksums := {} } =
      some upload := by
    rw [fields]
    refine Checksums.foldlM_leaves_lift
      (fun checksums => ({ upload with checksums } : CompletedUpload)) ?_ ?_ upload.checksums
    · intro change checksums
      rfl
    · decide
  rw [elements, foldlM_append_of_eq_some (b := { upload with checksums := {} }), hchecksums]
  rfl

/-- The elements of the answer to copying. -/
def CopyReport.elements (report : CopyReport) : List Element :=
  .leaf "ETag" report.eTag :: Element.instant "LastModified" report.lastModified

/-- The last change has a timestamp, if it is known. -/
def CopyReport.IsWritable (report : CopyReport) : Prop := ∀ i ∈ report.lastModified, i.IsWritable

theorem CopyReport.allNamed (report : CopyReport) : AllNamed report.elements :=
  ⟨(isName_ofList (by decide) : IsName "ETag"),
    Element.allNamed_instant (isName_ofList (by decide)) report.lastModified⟩

/-- The answer to copying is read back. -/
theorem CopyReport.foldlM_elements {report : CopyReport} (h : report.IsWritable) :
    report.elements.foldlM (fill fields) {} = some report := by
  obtain ⟨eTag, lastModified⟩ := report
  cases lastModified with
  | none => rfl
  | some i =>
    simp [elements, Element.instant, Element.name, fill, fields, ofElement_timestamp _ (h i rfl)]

end BucketWire

import BucketWire.Proofs.Decode.Order
import BucketWire.Proofs.Decode.Slot
import BucketWire.Proofs.Record.Order

/-!
# Listings and their items

A listing holds what its children say, each by itself. Its items are what their elements decode to
as documents of their own, in the order of the document; an owner or an initiator is what the last
element of this kind decodes to, and nothing of an earlier one is left; and every other field comes
from the last child of its name. The buckets of a listing are those of the last element that lists
buckets.

## Main definitions

* `Container` — records that hold others
* `Container.slots` — what they are made up of

## Main results

* `Container.decode_listing` — what a listing decodes to
-/

namespace BucketWire

open Decoder (text)
open BucketWire.Field (puts_store puts_lift_store keeps_store keeps_lift_store)

/-! ### What listings are made up of -/

/-- The parts of a listing of buckets. -/
def BucketListing.slots : List (Slot BucketListing) :=
  [.eachOfLast "Buckets" "Bucket" Decoder.bucket fun listing => listing.buckets,
    .last "Owner" Decoder.owner {} fun listing => listing.owner]

/-- The parts of a listing of directory buckets. -/
def DirectoryBucketListing.slots : List (Slot DirectoryBucketListing) :=
  [.eachOfLast "Buckets" "Bucket" Decoder.bucket fun listing => listing.buckets,
    .last "ContinuationToken" text "" fun listing => listing.continuationToken]

/-- The parts of a page of objects, within a listing. -/
def ObjectPage.slots {τ : Type} (page : τ → ObjectPage) : List (Slot τ) :=
  [.each "CommonPrefixes" Decoder.commonPrefix fun listing => (page listing).commonPrefixes,
    .each "Contents" Decoder.listedObject fun listing => (page listing).contents,
    .last "Delimiter" text "" fun listing => (page listing).delimiter,
    .last "EncodingType" text "" fun listing => (page listing).encodingType,
    .last "IsTruncated" Decoder.boolean false fun listing => (page listing).isTruncated,
    .last "MaxKeys" Decoder.int64 0 fun listing => (page listing).maxKeys,
    .last "Name" text "" fun listing => (page listing).name,
    .last "Prefix" text "" fun listing => (page listing).keyPrefix]

/-- The parts of a listing that goes on after a key. -/
def MarkerListing.slots : List (Slot MarkerListing) :=
  [.last "Marker" text "" fun listing => listing.marker,
    .last "NextMarker" text "" fun listing => listing.nextMarker] ++
  ObjectPage.slots fun listing => listing.toObjectPage

/-- The parts of a listing that goes on with a token. -/
def TokenListing.slots : List (Slot TokenListing) :=
  [.last "KeyCount" Decoder.int64 0 fun listing => listing.keyCount,
    .last "NextContinuationToken" text "" fun listing => listing.nextContinuationToken,
    .last "ContinuationToken" text "" fun listing => listing.continuationToken,
    .last "FetchOwner" text "" fun listing => listing.fetchOwner,
    .last "StartAfter" text "" fun listing => listing.startAfter] ++
  ObjectPage.slots fun listing => listing.toObjectPage

/-- The parts of a listing of uploads. -/
def UploadListing.slots : List (Slot UploadListing) :=
  [.last "Bucket" text "" fun listing => listing.bucket,
    .last "KeyMarker" text "" fun listing => listing.keyMarker,
    .last "UploadIdMarker" text "" fun listing => listing.uploadIdMarker,
    .last "NextKeyMarker" text "" fun listing => listing.nextKeyMarker,
    .last "NextUploadIdMarker" text "" fun listing => listing.nextUploadIdMarker,
    .last "EncodingType" text "" fun listing => listing.encodingType,
    .last "MaxUploads" Decoder.int64 0 fun listing => listing.maxUploads,
    .last "IsTruncated" Decoder.boolean false fun listing => listing.isTruncated,
    .each "Upload" Decoder.pendingUpload fun listing => listing.uploads,
    .last "Prefix" text "" fun listing => listing.keyPrefix,
    .last "Delimiter" text "" fun listing => listing.delimiter,
    .each "CommonPrefixes" Decoder.commonPrefix fun listing => listing.commonPrefixes]

/-- The parts of a listing of parts. -/
def PartListing.slots : List (Slot PartListing) :=
  [.last "Bucket" text "" fun listing => listing.bucket,
    .last "Key" text "" fun listing => listing.key,
    .last "UploadId" text "" fun listing => listing.uploadId,
    .last "Initiator" Decoder.initiator {} fun listing => listing.initiator,
    .last "Owner" Decoder.owner {} fun listing => listing.owner,
    .last "StorageClass" text "" fun listing => listing.storageClass,
    .last "PartNumberMarker" Decoder.int32 0 fun listing => listing.partNumberMarker,
    .last "NextPartNumberMarker" Decoder.int32 0 fun listing => listing.nextPartNumberMarker,
    .last "MaxParts" Decoder.int32 0 fun listing => listing.maxParts,
    .last "ChecksumAlgorithm" text "" fun listing => listing.checksumAlgorithm,
    .last "ChecksumType" text "" fun listing => listing.checksumType,
    .last "IsTruncated" Decoder.boolean false fun listing => listing.isTruncated,
    .each "Part" Decoder.uploadedPart fun listing => listing.parts,
    .last "EncodingType" text "" fun listing => listing.encodingType]

/-- The parts of a report of deletions. -/
def DeletionReport.slots : List (Slot DeletionReport) :=
  [.each "Deleted" Decoder.deletion fun report => report.deleted,
    .each "Error" Decoder.failedDeletion fun report => report.failed]

/-! ### The parts and the lines of the tables -/

theorem BucketListing.describe : Slot.Describe slots fields {} where
  name_eq := rfl
  isEmpty := by simp [slots, Slot.IsEmpty]
  fits := by simp [slots, fields, Slot.Fits, Decoder.buckets, puts_store, keeps_store]

theorem DirectoryBucketListing.describe : Slot.Describe slots fields {} where
  name_eq := rfl
  isEmpty := by simp [slots, Slot.IsEmpty]
  fits := by simp [slots, fields, Slot.Fits, Decoder.buckets, puts_store, keeps_store]

theorem MarkerListing.describe : Slot.Describe slots fields {} where
  name_eq := rfl
  isEmpty := by simp [slots, ObjectPage.slots, Slot.IsEmpty]
  fits := by
    simp [slots, fields, ObjectPage.slots, ObjectPage.fields, Slot.Fits, puts_store, keeps_store,
      puts_lift_store, keeps_lift_store]

theorem TokenListing.describe : Slot.Describe slots fields {} where
  name_eq := rfl
  isEmpty := by simp [slots, ObjectPage.slots, Slot.IsEmpty]
  fits := by
    simp [slots, fields, ObjectPage.slots, ObjectPage.fields, Slot.Fits, puts_store, keeps_store,
      puts_lift_store, keeps_lift_store]

theorem UploadListing.describe : Slot.Describe slots fields {} where
  name_eq := rfl
  isEmpty := by simp [slots, Slot.IsEmpty]
  fits := by simp [slots, fields, Slot.Fits, puts_store, keeps_store]

theorem PartListing.describe : Slot.Describe slots fields {} where
  name_eq := rfl
  isEmpty := by simp [slots, Slot.IsEmpty]
  fits := by simp [slots, fields, Slot.Fits, puts_store, keeps_store]

theorem DeletionReport.describe : Slot.Describe slots fields {} where
  name_eq := rfl
  isEmpty := by simp [slots, Slot.IsEmpty]
  fits := by simp [slots, fields, Slot.Fits, puts_store, keeps_store]

/-! ### The parts make up the records -/

theorem BucketListing.eq_of_agree {r r' : BucketListing} (h : ∀ slot ∈ slots, slot.Agree r r') :
    r = r' := by
  cases r
  cases r'
  simp_all [slots, Slot.Agree]

theorem DirectoryBucketListing.eq_of_agree {r r' : DirectoryBucketListing}
    (h : ∀ slot ∈ slots, slot.Agree r r') : r = r' := by
  cases r
  cases r'
  simp_all [slots, Slot.Agree]

theorem ObjectPage.eq_of_agree {τ : Type} {page : τ → ObjectPage} {t t' : τ}
    (h : ∀ slot ∈ slots page, slot.Agree t t') : page t = page t' := by
  generalize hpage : page t = r
  generalize hpage' : page t' = r'
  cases r
  cases r'
  simp_all [slots, Slot.Agree]

theorem MarkerListing.eq_of_agree {r r' : MarkerListing} (h : ∀ slot ∈ slots, slot.Agree r r') :
    r = r' := by
  obtain ⟨hown, hpage⟩ := List.forall_mem_append.mp h
  have hpage := ObjectPage.eq_of_agree hpage
  cases r
  cases r'
  simp_all [Slot.Agree]

theorem TokenListing.eq_of_agree {r r' : TokenListing} (h : ∀ slot ∈ slots, slot.Agree r r') :
    r = r' := by
  obtain ⟨hown, hpage⟩ := List.forall_mem_append.mp h
  have hpage := ObjectPage.eq_of_agree hpage
  cases r
  cases r'
  simp_all [Slot.Agree]

theorem UploadListing.eq_of_agree {r r' : UploadListing} (h : ∀ slot ∈ slots, slot.Agree r r') :
    r = r' := by
  cases r
  cases r'
  simp_all [slots, Slot.Agree]

theorem PartListing.eq_of_agree {r r' : PartListing} (h : ∀ slot ∈ slots, slot.Agree r r') :
    r = r' := by
  cases r
  cases r'
  simp_all [slots, Slot.Agree]

theorem DeletionReport.eq_of_agree {r r' : DeletionReport} (h : ∀ slot ∈ slots, slot.Agree r r') :
    r = r' := by
  cases r
  cases r'
  simp_all [slots, Slot.Agree]

/-! ### Listings of every kind -/

/-- Records that hold others. -/
inductive Container where
  | bucketListing
  | directoryBucketListing
  | markerListing
  | tokenListing
  | uploadListing
  | partListing
  | deletionReport
  deriving DecidableEq, Repr

namespace Container

/-- What a document is decoded as. -/
def kind : Container → Kind
  | bucketListing => .bucketListing
  | directoryBucketListing => .directoryBucketListing
  | markerListing => .markerListing
  | tokenListing => .tokenListing
  | uploadListing => .uploadListing
  | partListing => .partListing
  | deletionReport => .deletionReport

/-- The parts of a listing. -/
def slots : (container : Container) → List (Slot container.kind.Record)
  | bucketListing => BucketListing.slots
  | directoryBucketListing => DirectoryBucketListing.slots
  | markerListing => MarkerListing.slots
  | tokenListing => TokenListing.slots
  | uploadListing => UploadListing.slots
  | partListing => PartListing.slots
  | deletionReport => DeletionReport.slots

/-- Every listing is read by a table of lines, and made up of its parts. -/
theorem exists_describe (container : Container) : ∃ context fields zero,
    container.kind.decoder = .record context fields zero ∧
      Slot.Describe container.slots fields zero := by
  cases container with
  | bucketListing => exact ⟨_, _, _, rfl, BucketListing.describe⟩
  | directoryBucketListing => exact ⟨_, _, _, rfl, DirectoryBucketListing.describe⟩
  | markerListing => exact ⟨_, _, _, rfl, MarkerListing.describe⟩
  | tokenListing => exact ⟨_, _, _, rfl, TokenListing.describe⟩
  | uploadListing => exact ⟨_, _, _, rfl, UploadListing.describe⟩
  | partListing => exact ⟨_, _, _, rfl, PartListing.describe⟩
  | deletionReport => exact ⟨_, _, _, rfl, DeletionReport.describe⟩

theorem eq_of_agree {container : Container} {r r' : container.kind.Record}
    (h : ∀ slot ∈ container.slots, slot.Agree r r') : r = r' := by
  cases container with
  | bucketListing => exact BucketListing.eq_of_agree h
  | directoryBucketListing => exact DirectoryBucketListing.eq_of_agree h
  | markerListing => exact MarkerListing.eq_of_agree h
  | tokenListing => exact TokenListing.eq_of_agree h
  | uploadListing => exact UploadListing.eq_of_agree h
  | partListing => exact PartListing.eq_of_agree h
  | deletionReport => exact DeletionReport.eq_of_agree h

variable {settings : Settings}

/-- A listing decodes if all children of its root element do, each as a document of its own, and
then its parts hold what the children say. There is nothing else to a listing than its parts. -/
theorem decode_listing (container : Container) (prolog : Prolog settings.checkEndNames)
    {root : Child settings.checkEndNames} {elements : List (Child settings.checkEndNames)}
    (h : root.HasChildren elements) (epilog : Bytes) :
    ((∃ r, container.kind.decoder.decode settings (prolog.bytes ++ (root.bytes ++ epilog)) =
        .ok r) ↔ ∀ child ∈ elements, Slot.Admits container.slots child) ∧
      (∀ r, container.kind.decoder.decode settings (prolog.bytes ++ (root.bytes ++ epilog)) =
        .ok r → ∀ slot ∈ container.slots, slot.Holds elements r) ∧
      ∀ r r', (∀ slot ∈ container.slots, slot.Agree r r') → r = r' := by
  obtain ⟨context, fields, zero, hdecoder, hdescribe⟩ := container.exists_describe
  rw [Decoder.decode_append, hdecoder]
  exact ⟨hdescribe.exists_decode_iff h context, fun r hr slot hslot => hdescribe.holds h hr hslot,
    fun _ _ => eq_of_agree⟩

/-! ### A listing of buckets -/

namespace Sample

/-- A bucket called `a`. -/
def first : Child true where
  bytes := Utf8.encode "<Bucket><Name>a</Name></Bucket>"
  name := Utf8.encode "Bucket"
  content := [.start (Utf8.encode "Name"), .text (Utf8.encode "a"), .close (Utf8.encode "Name"),
    .close (Utf8.encode "Bucket")]
  closes := .enter _ (.stay id (.leave _ (.last _)))
  tape_eq := by decide +kernel

/-- A bucket without a name. -/
def second : Child true where
  bytes := Utf8.encode "<Bucket/>"
  name := Utf8.encode "Bucket"
  content := [.close (Utf8.encode "Bucket")]
  closes := .last _
  tape_eq := by decide +kernel

/-- An element that lists these buckets. -/
def buckets (children : List (Child true)) : Layout true where
  rootTag := Utf8.encode "<Buckets>"
  rootName := Utf8.encode "Buckets"
  scan_rootTag := by decide +kernel
  front := Kind.Sample.nothing
  pieces := children.map fun child => (child, Kind.Sample.nothing)
  endTag := Utf8.encode "</Buckets>"
  endName := Utf8.encode "Buckets"
  scan_endTag := by decide +kernel
  endName_eq := fun _ => rfl

/-- The elements of the listing, two of which list buckets. -/
def elements : List (Child ({} : Settings).checkEndNames) :=
  [(buckets [first]).child, (Kind.Sample.owner [Kind.Sample.ownerId]).child,
    (buckets [second, Kind.Sample.note, first]).child]

/-- A listing of buckets. -/
def listing : Layout true where
  rootTag := Utf8.encode "<List>"
  rootName := Utf8.encode "List"
  scan_rootTag := by decide +kernel
  front := Kind.Sample.nothing
  pieces := elements.map fun child => (child, Kind.Sample.nothing)
  endTag := Utf8.encode "</List>"
  endName := Utf8.encode "List"
  scan_endTag := by decide +kernel
  endName_eq := fun _ => rfl

end Sample

/-- The buckets are those of the last element that lists buckets. -/
theorem decode_listing_buckets :
    Sample.listing.child.HasChildren Sample.elements ∧
      ∀ slot ∈ bucketListing.slots, slot.Holds Sample.elements
        ({ buckets := [{}, { name := "a" }], owner := { id := "a" } } : BucketListing) := by
  have h : Sample.listing.child.HasChildren Sample.elements := .inr ⟨Sample.listing, rfl, rfl⟩
  have hdecode : Decoder.bucketListing.decode {}
      (Kind.Sample.mark.bytes ++ (Sample.listing.child.bytes ++ Utf8.encode "</x>")) =
        .ok { buckets := [{}, { name := "a" }], owner := { id := "a" } } := by
    decide +kernel
  have hlisting := @decode_listing {} bucketListing Kind.Sample.mark _ _ h (Utf8.encode "</x>")
  exact ⟨h, hlisting.2.1 _ hdecode⟩

end Container

end BucketWire

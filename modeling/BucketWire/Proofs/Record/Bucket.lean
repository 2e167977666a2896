import BucketWire.Decode.Bucket
import BucketWire.Decode.Deletion
import BucketWire.Proofs.Record.Shared

/-!
# Elements of listings of buckets and of reports of deletions

The buckets of a listing stand in an element of their own. Deletions and failed deletions stand
among each other in the report of them.

## Main definitions

* `Bucket.IsWritable` — buckets whose date of creation has a timestamp

## Main results

* `Bucket.foldlM_elements`, `BucketListing.foldlM_elements`,
  `DirectoryBucketListing.foldlM_elements` — buckets and their listings are read back
* `Deletion.foldlM_elements`, `FailedDeletion.foldlM_elements`, `DeletionReport.foldlM_elements` —
  reports of deletions are read back
-/

namespace BucketWire

open Decoder (fill fill_eq_some foldlM_cons_of_eq_some foldlM_append_of_eq_some foldlM_list
  ofElement_timestamp)
open Element (AllNamed)
open Markup (IsName isName_ofList)

/-! ### Buckets -/

/-- The elements of a bucket. -/
def Bucket.elements (bucket : Bucket) : List Element :=
  .leaf "Name" bucket.name :: Element.instant "CreationDate" bucket.creationDate ++
    [.leaf "BucketRegion" bucket.region]

/-- The date of creation has a timestamp, if there is one. -/
def Bucket.IsWritable (bucket : Bucket) : Prop := ∀ i ∈ bucket.creationDate, i.IsWritable

theorem Bucket.allNamed (bucket : Bucket) : AllNamed bucket.elements := by
  have hdate := Element.allNamed_instant (isName_ofList (by decide) : IsName "CreationDate")
    bucket.creationDate
  simp only [elements, Element.allNamed_append, Element.allNamed_cons, Element.named_leaf,
    Element.allNamed_nil, hdate, and_true]
  and_intros <;> exact isName_ofList (by decide)

/-- A bucket is read back. -/
theorem Bucket.foldlM_elements {bucket : Bucket} (h : bucket.IsWritable) :
    bucket.elements.foldlM (fill fields) {} = some bucket := by
  obtain ⟨name, creationDate, region⟩ := bucket
  cases creationDate with
  | none => rfl
  | some i =>
    simp [elements, Element.instant, Element.name, fill, fields, ofElement_timestamp _ (h i rfl)]

/-- The element of the buckets of a listing. -/
def Bucket.list (buckets : List Bucket) : Element :=
  .node "Buckets" (buckets.map fun bucket => .node "Bucket" bucket.elements)

theorem Bucket.named_list (buckets : List Bucket) : (list buckets).Named :=
  ⟨isName_ofList (by decide),
    (Element.allNamed_map _ _).mpr fun bucket _ => ⟨isName_ofList (by decide), bucket.allNamed⟩⟩

/-- The buckets of a listing are read back. -/
theorem Bucket.ofElement_list {buckets : List Bucket} (h : ∀ bucket ∈ buckets, bucket.IsWritable) :
    Decoder.buckets.ofElement (list buckets) = some buckets := by
  refine foldlM_list id rfl ?_ fun _ _ => rfl
  intro bucket hbucket
  exact foldlM_elements (h bucket hbucket)

/-- The elements of a listing of buckets. -/
def BucketListing.elements (listing : BucketListing) : List Element :=
  [Bucket.list listing.buckets, .node "Owner" listing.owner.elements]

/-- All buckets can be written. -/
def BucketListing.IsWritable (listing : BucketListing) : Prop :=
  ∀ bucket ∈ listing.buckets, bucket.IsWritable

theorem BucketListing.allNamed (listing : BucketListing) : AllNamed listing.elements :=
  ⟨Bucket.named_list _, ⟨isName_ofList (by decide), listing.owner.allNamed⟩, trivial⟩

/-- A listing of buckets is read back. -/
theorem BucketListing.foldlM_elements {listing : BucketListing} (h : listing.IsWritable) :
    listing.elements.foldlM (fill fields) {} = some listing := by
  have hbuckets : fill fields {} (Bucket.list listing.buckets) =
      some { buckets := listing.buckets } := fill_eq_some rfl (Bucket.ofElement_list h) rfl
  have howner : fill fields { buckets := listing.buckets } (.node "Owner" listing.owner.elements) =
      some listing := fill_eq_some rfl listing.owner.foldlM_elements rfl
  exact (foldlM_cons_of_eq_some hbuckets).trans (foldlM_cons_of_eq_some howner)

/-- The elements of a listing of directory buckets. -/
def DirectoryBucketListing.elements (listing : DirectoryBucketListing) : List Element :=
  [Bucket.list listing.buckets, .leaf "ContinuationToken" listing.continuationToken]

/-- All buckets can be written. -/
def DirectoryBucketListing.IsWritable (listing : DirectoryBucketListing) : Prop :=
  ∀ bucket ∈ listing.buckets, bucket.IsWritable

theorem DirectoryBucketListing.allNamed (listing : DirectoryBucketListing) :
    AllNamed listing.elements :=
  ⟨Bucket.named_list _, (isName_ofList (by decide) : IsName "ContinuationToken"), trivial⟩

/-- A listing of directory buckets is read back. -/
theorem DirectoryBucketListing.foldlM_elements {listing : DirectoryBucketListing}
    (h : listing.IsWritable) : listing.elements.foldlM (fill fields) {} = some listing := by
  have hbuckets : fill fields {} (Bucket.list listing.buckets) =
      some { buckets := listing.buckets } := fill_eq_some rfl (Bucket.ofElement_list h) rfl
  have htoken : fill fields { buckets := listing.buckets }
      (.leaf "ContinuationToken" listing.continuationToken) = some listing := rfl
  exact (foldlM_cons_of_eq_some hbuckets).trans (foldlM_cons_of_eq_some htoken)

/-! ### Deletions -/

/-- The elements of a deletion. -/
def Deletion.elements (deletion : Deletion) : List Element :=
  [.leaf "Key" deletion.key, .leaf "VersionId" deletion.versionId,
    .leaf "DeleteMarker" (truthText deletion.deleteMarker),
    .leaf "DeleteMarkerVersionId" deletion.deleteMarkerVersionId]

theorem Deletion.allNamed (deletion : Deletion) : AllNamed deletion.elements := by
  simp only [elements, Element.allNamed_cons, Element.named_leaf, Element.allNamed_nil, and_true]
  and_intros <;> exact isName_ofList (by decide)

/-- A deletion is read back. -/
theorem Deletion.foldlM_elements (deletion : Deletion) :
    deletion.elements.foldlM (fill fields) {} = some deletion := by
  simp [elements, Element.name, fill, fields]

/-- The elements of a failed deletion. -/
def FailedDeletion.elements (failure : FailedDeletion) : List Element :=
  [.leaf "Key" failure.key, .leaf "Code" failure.code, .leaf "Message" failure.message,
    .leaf "VersionId" failure.versionId]

theorem FailedDeletion.allNamed (failure : FailedDeletion) : AllNamed failure.elements := by
  simp only [elements, Element.allNamed_cons, Element.named_leaf, Element.allNamed_nil, and_true]
  and_intros <;> exact isName_ofList (by decide)

/-- A failed deletion is read back. -/
theorem FailedDeletion.foldlM_elements (failure : FailedDeletion) :
    failure.elements.foldlM (fill fields) {} = some failure := rfl

/-- The elements of a report of deletions. -/
def DeletionReport.elements (report : DeletionReport) : List Element :=
  (report.deleted.map fun deletion => .node "Deleted" deletion.elements) ++
    report.failed.map fun failure => .node "Error" failure.elements

theorem DeletionReport.allNamed (report : DeletionReport) : AllNamed report.elements := by
  refine (Element.allNamed_append _ _).mpr ⟨?_, ?_⟩
  · exact (Element.allNamed_map _ _).mpr fun deletion _ =>
      ⟨isName_ofList (by decide), deletion.allNamed⟩
  · exact (Element.allNamed_map _ _).mpr fun failure _ =>
      ⟨isName_ofList (by decide), failure.allNamed⟩

/-- A report of deletions is read back. -/
theorem DeletionReport.foldlM_elements (report : DeletionReport) :
    report.elements.foldlM (fill fields) {} = some report := by
  obtain ⟨deleted, failed⟩ := report
  have hdeleted : (deleted.map fun deletion => .node "Deleted" deletion.elements).foldlM
      (fill fields) {} = some { deleted } :=
    foldlM_list (fun deleted => ({ deleted } : DeletionReport)) rfl
      (fun deletion _ => Deletion.foldlM_elements deletion) fun _ _ => rfl
  have hfailed : (failed.map fun failure => .node "Error" failure.elements).foldlM
      (fill fields) { deleted } = some { deleted, failed } :=
    foldlM_list (fun failed => ({ deleted, failed } : DeletionReport)) rfl
      (fun failure _ => FailedDeletion.foldlM_elements failure) fun _ _ => rfl
  exact (foldlM_append_of_eq_some hdeleted).trans hfailed

end BucketWire

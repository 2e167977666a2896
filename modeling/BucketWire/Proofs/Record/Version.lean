import BucketWire.Decode.Version
import BucketWire.Proofs.Record.Object

/-!
# Elements of histories

Versions and delete markers stand among each other, in the order of the history. What an entry is
shows in the name of its element only, so an entry by itself is read back as a live version.

## Main definitions

* `ObjectVersion.element`, `VersionListing.elements` — the elements of entries and histories
* `VersionListing.IsWritable` — histories of entries that can be written

## Main results

* `ObjectVersion.foldlM_elements`, `VersionListing.foldlM_elements` — entries and histories are read
  back
-/

namespace BucketWire

open Decoder (fill fill_eq_some fillStrict foldlM_append_of_eq_some)
open Element (AllNamed)
open Markup (isName_ofList)

/-! ### Entries -/

/-- The elements of an entry; the kind of the entry is none of them. -/
def ObjectVersion.elements (version : ObjectVersion) : List Element :=
  version.toObjectEntry.elements

/-- An entry is read back as a live version. -/
theorem ObjectVersion.foldlM_elements {version : ObjectVersion}
    (h : version.toObjectEntry.IsWritable) :
    version.elements.foldlM (fill fields) {} = some { version with isDeleteMarker := false } := by
  rw [fields, ← List.nil_append (List.map _ _)]
  refine ObjectEntry.foldlM_elements_lift h
    (fun entry => ({ toObjectEntry := entry } : ObjectVersion)) ?_ ?_
  · intro change entry
    rfl
  · intro name _
    exact List.not_mem_nil

/-- The element of an entry in a history. -/
def ObjectVersion.element (version : ObjectVersion) : Element :=
  .node (if version.isDeleteMarker then "DeleteMarker" else "Version") version.elements

theorem ObjectVersion.named_element {version : ObjectVersion}
    (h : version.toObjectEntry.IsWritable) : version.element.Named := by
  refine ⟨?_, ObjectEntry.allNamed h⟩
  split <;> exact isName_ofList (by decide)

/-! ### Histories -/

/-- The elements of a history. -/
def VersionListing.elements (listing : VersionListing) : List Element :=
  [.leaf "Name" listing.name, .leaf "Prefix" listing.keyPrefix,
    .leaf "Delimiter" listing.delimiter, .leaf "MaxKeys" (Numeral.decimal listing.maxKeys.toInt),
    .leaf "EncodingType" listing.encodingType,
    .leaf "IsTruncated" (truthText listing.isTruncated), .leaf "KeyMarker" listing.keyMarker,
    .leaf "VersionIdMarker" listing.versionIdMarker, .leaf "NextKeyMarker" listing.nextKeyMarker,
    .leaf "NextVersionIdMarker" listing.nextVersionIdMarker] ++
  listing.versions.map ObjectVersion.element ++ CommonPrefix.list listing.commonPrefixes

/-- All entries can be written. -/
def VersionListing.IsWritable (listing : VersionListing) : Prop :=
  ∀ version ∈ listing.versions, version.toObjectEntry.IsWritable

theorem VersionListing.allNamed {listing : VersionListing} (h : listing.IsWritable) :
    AllNamed listing.elements := by
  have hversions : AllNamed (listing.versions.map ObjectVersion.element) :=
    (Element.allNamed_map _ _).mpr fun version hversion =>
      version.named_element (h version hversion)
  simp only [elements, Element.allNamed_append, Element.allNamed_cons, Element.named_leaf,
    Element.allNamed_nil, hversions, CommonPrefix.allNamed_list, and_true]
  and_intros <;> exact isName_ofList (by decide)

theorem VersionListing.name_mem_fields (listing : VersionListing) :
    ∀ e ∈ listing.elements, e.name ∈ fields.map Field.name := by
  have hnames : fields.map Field.name = ["Version", "DeleteMarker", "CommonPrefixes", "Name",
      "Prefix", "Delimiter", "MaxKeys", "EncodingType", "IsTruncated", "KeyMarker",
      "VersionIdMarker", "NextKeyMarker", "NextVersionIdMarker"] := rfl
  have hversion : ∀ version : ObjectVersion, version.element.name ∈ fields.map Field.name := by
    intro version
    rw [hnames, ObjectVersion.element, Element.name_node]
    split <;> decide
  rw [hnames] at hversion ⊢
  simp only [elements, CommonPrefix.list, List.forall_mem_append, List.forall_mem_cons,
    List.forall_mem_map, Element.name_leaf, Element.name_node]
  exact ⟨⟨by decide, fun version _ => hversion version⟩, fun _ _ => by decide⟩

/-- An entry is added to a history as what it is. -/
theorem VersionListing.fill_element {version : ObjectVersion}
    (h : version.toObjectEntry.IsWritable) (listing : VersionListing) :
    fill fields listing version.element =
      some { listing with versions := listing.versions ++ [version] } := by
  have hread : Decoder.objectVersion.ofElement version.element =
      some { version with isDeleteMarker := false } := ObjectVersion.foldlM_elements h
  by_cases hkind : version.isDeleteMarker = true
  · have hfind : Field.find? fields version.element.name =
        some (Decoder.objectVersion.map fun marker listing => listing.pushDeleteMarker marker) := by
      rw [ObjectVersion.element, if_pos hkind]
      rfl
    refine fill_eq_some hfind hread ?_
    rw [pushDeleteMarker, ← hkind]
  · have hfind : Field.find? fields version.element.name =
        some (Decoder.objectVersion.map fun version listing => listing.pushVersion version) := by
      rw [ObjectVersion.element, if_neg hkind]
      rfl
    rw [Bool.not_eq_true] at hkind
    refine fill_eq_some hfind hread ?_
    rw [pushVersion, ← hkind]

/-- A history is read back, with its entries in order and each as what it is. -/
theorem VersionListing.foldlM_elements {listing : VersionListing} (h : listing.IsWritable) :
    listing.elements.foldlM (fillStrict fields) {} = some listing := by
  have hversions : (listing.versions.map ObjectVersion.element).foldlM (fill fields)
      { listing with versions := [], commonPrefixes := [] } =
        some { listing with commonPrefixes := [] } := by
    have hpush := @Decoder.foldlM_push ObjectVersion _ _ (fill fields)
      (fun versions => ({ listing with versions, commonPrefixes := [] } : VersionListing))
      ObjectVersion.element id listing.versions
      (fun version hversion before => fill_element (h version hversion) _) []
    rwa [List.map_id, List.nil_append] at hpush
  have hprefixes : (CommonPrefix.list listing.commonPrefixes).foldlM (fill fields)
      { listing with commonPrefixes := [] } = some listing :=
    CommonPrefix.foldlM_list
      (fun commonPrefixes => ({ listing with commonPrefixes } : VersionListing)) rfl fun _ _ => rfl
  rw [Decoder.foldlM_fillStrict listing.name_mem_fields, elements, List.append_assoc,
    foldlM_append_of_eq_some (b := { listing with versions := [], commonPrefixes := [] })]
  · exact (foldlM_append_of_eq_some hversions).trans hprefixes
  · simp [fill, fields]

end BucketWire

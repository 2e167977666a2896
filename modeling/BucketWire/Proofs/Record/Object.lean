import BucketWire.Decode.Object
import BucketWire.Proofs.Decode.Dictionary
import BucketWire.Proofs.Record.Shared

/-!
# Elements of objects and their listings

What is said of an object or a version stands in the elements of an entry, and what both listings of
objects have in the elements of a page. They are read back as parts of the records that have more to
say.

## Main definitions

* `ObjectEntry.IsWritable` — entries whose instants have timestamps and whose metadata has names
* `ObjectPage.IsWritable` — pages of such entries

## Main results

* `ObjectEntry.foldlM_elements`, `ObjectPage.foldlM_elements` — entries and pages are read back
* `ListedObject.foldlM_elements`, `MarkerListing.foldlM_elements`,
  `TokenListing.foldlM_elements` — objects and their listings are read back
-/

namespace BucketWire

open Decoder (fill fill_eq_some foldlM_append_of_eq_some foldlM_cons_of_eq_some foldlM_list
  ofElement_int64 ofElement_timestamp)
open Element (AllNamed)
open Markup (IsName isName_ofList)

/-! ### Entries -/

/-- The elements of an entry. -/
def ObjectEntry.elements (entry : ObjectEntry) : List Element :=
  [.leaf "ETag" entry.eTag, .leaf "Key" entry.key] ++
  Element.instant "LastModified" entry.lastModified ++
  [.leaf "Size" (Numeral.decimal entry.size.toInt), .node "Owner" entry.owner.elements,
    .leaf "StorageClass" entry.storageClass, .leaf "VersionId" entry.versionId,
    .leaf "IsLatest" (truthText entry.isLatest),
    .node "UserMetadata" entry.userMetadata.leaves, .leaf "UserTags" entry.userTags.query,
    .leaf "ChecksumType" entry.checksumType] ++
  (entry.erasure.toList.map fun shape => .node "Internal" shape.elements) ++
  entry.checksums.leaves

/-- The last change has a timestamp, if it is known, and the keys of the metadata are names. -/
structure ObjectEntry.IsWritable (entry : ObjectEntry) : Prop where
  lastModified : ∀ i ∈ entry.lastModified, i.IsWritable
  userMetadata : entry.userMetadata.HasNames

theorem ObjectEntry.allNamed {entry : ObjectEntry} (h : entry.IsWritable) :
    AllNamed entry.elements := by
  have hmodified := Element.allNamed_instant (isName_ofList (by decide) : IsName "LastModified")
    entry.lastModified
  have hinternal : AllNamed (entry.erasure.toList.map fun shape =>
      .node "Internal" shape.elements) :=
    (Element.allNamed_map _ _).mpr fun shape _ => ⟨isName_ofList (by decide), shape.allNamed⟩
  simp only [elements, Element.allNamed_append, Element.allNamed_cons, Element.named_leaf,
    Element.named_node, Element.allNamed_nil, hmodified, hinternal, Principal.allNamed,
    h.userMetadata.allNamed_leaves, Checksums.allNamed_leaves, and_true]
  and_intros <;> exact isName_ofList (by decide)

theorem ObjectEntry.name_mem_fields (entry : ObjectEntry) :
    ∀ e ∈ entry.elements, e.name ∈ fields.map Field.name := by
  have hnames : fields.map Field.name = ["ETag", "Key", "LastModified", "Size", "Owner",
      "StorageClass", "VersionId", "IsLatest", "UserMetadata", "UserTags", "Internal",
      "ChecksumType"] ++ Checksums.fields.map Field.name := rfl
  rw [hnames]
  simp only [elements, Element.instant, List.forall_mem_append, List.forall_mem_cons,
    List.forall_mem_map, Element.name_leaf, Element.name_node]
  simp +contextual [entry.checksums.name_mem_fields]

/-- An entry is read back. -/
theorem ObjectEntry.foldlM_elements {entry : ObjectEntry} (h : entry.IsWritable) :
    entry.elements.foldlM (fill fields) {} = some entry := by
  have hchecksums : entry.checksums.leaves.foldlM (fill fields) { entry with checksums := {} } =
      some entry := by
    rw [fields]
    refine Checksums.foldlM_leaves_lift
      (fun checksums => ({ entry with checksums } : ObjectEntry)) ?_ ?_ entry.checksums
    · intro change checksums
      rfl
    · decide
  rw [elements, foldlM_append_of_eq_some (b := { entry with checksums := {} }), hchecksums]
  obtain ⟨eTag, key, lastModified, size, owner, storageClass, versionId, isLatest, userMetadata,
    userTags, erasure, checksums, checksumType⟩ := entry
  have hshape (name : String) (shape : ErasureShape) :
      Decoder.erasureShape.ofElement (.node name shape.elements) = some shape :=
    shape.foldlM_elements
  cases lastModified with
  | none => cases erasure <;> simp [Element.instant, fill, fields, hshape]
  | some i =>
    have hi := ofElement_timestamp "LastModified" (h.lastModified i rfl)
    cases erasure <;> simp [Element.instant, fill, fields, hshape, hi]

/-- An entry is read back into a record whose other fields are not called as its own. -/
theorem ObjectEntry.foldlM_elements_lift {ρ : Type} {own : List (Field ρ)}
    {modify : (ObjectEntry → ObjectEntry) → ρ → ρ} {entry : ObjectEntry} (h : entry.IsWritable)
    (put : ObjectEntry → ρ) (hput : ∀ change a, modify change (put a) = put (change a))
    (hown : ∀ name ∈ fields.map Field.name, name ∉ own.map Field.name) :
    entry.elements.foldlM (fill (own ++ fields.map (.lift modify))) (put {}) = some (put entry) :=
  Decoder.foldlM_lift put hput hown entry.name_mem_fields (foldlM_elements h)

/-! ### Listed objects -/

/-- The elements of a listed object. -/
def ListedObject.elements (object : ListedObject) : List Element :=
  .leaf "UserTagCount" (Numeral.decimal object.userTagCount.toInt) ::
    object.toObjectEntry.elements

theorem ListedObject.allNamed {object : ListedObject} (h : object.toObjectEntry.IsWritable) :
    AllNamed object.elements :=
  ⟨(isName_ofList (by decide) : IsName "UserTagCount"), ObjectEntry.allNamed h⟩

/-- A listed object is read back. -/
theorem ListedObject.foldlM_elements {object : ListedObject} (h : object.toObjectEntry.IsWritable) :
    object.elements.foldlM (fill fields) {} = some object := by
  have hcount : fill fields {} (.leaf "UserTagCount" (Numeral.decimal object.userTagCount.toInt)) =
      some { userTagCount := object.userTagCount } :=
    fill_eq_some rfl (ofElement_int64 _ _) rfl
  have hentry : object.toObjectEntry.elements.foldlM (fill fields)
      { userTagCount := object.userTagCount } = some object := by
    rw [fields, ← List.singleton_append]
    refine ObjectEntry.foldlM_elements_lift h
      (fun entry => ({ object with toObjectEntry := entry } : ListedObject)) ?_ ?_
    · intro change entry
      rfl
    · decide
  rw [elements, foldlM_cons_of_eq_some hcount, hentry]

/-! ### Pages and listings -/

/-- The elements of a page. -/
def ObjectPage.elements (page : ObjectPage) : List Element :=
  [.leaf "Delimiter" page.delimiter, .leaf "EncodingType" page.encodingType,
    .leaf "IsTruncated" (truthText page.isTruncated),
    .leaf "MaxKeys" (Numeral.decimal page.maxKeys.toInt), .leaf "Name" page.name,
    .leaf "Prefix" page.keyPrefix] ++
  (page.contents.map fun object => .node "Contents" object.elements) ++
  CommonPrefix.list page.commonPrefixes

/-- All objects can be written. -/
def ObjectPage.IsWritable (page : ObjectPage) : Prop :=
  ∀ object ∈ page.contents, object.toObjectEntry.IsWritable

theorem ObjectPage.allNamed {page : ObjectPage} (h : page.IsWritable) : AllNamed page.elements := by
  have hcontents : AllNamed (page.contents.map fun object => .node "Contents" object.elements) :=
    (Element.allNamed_map _ _).mpr fun object hobject =>
      ⟨isName_ofList (by decide), ListedObject.allNamed (h object hobject)⟩
  simp only [elements, Element.allNamed_append, Element.allNamed_cons, Element.named_leaf,
    Element.allNamed_nil, hcontents, CommonPrefix.allNamed_list, and_true]
  and_intros <;> exact isName_ofList (by decide)

theorem ObjectPage.name_mem_fields (page : ObjectPage) :
    ∀ e ∈ page.elements, e.name ∈ fields.map Field.name := by
  have hnames : fields.map Field.name = ["CommonPrefixes", "Contents", "Delimiter",
      "EncodingType", "IsTruncated", "MaxKeys", "Name", "Prefix"] := rfl
  rw [hnames]
  simp only [elements, CommonPrefix.list, List.forall_mem_append, List.forall_mem_cons,
    List.forall_mem_map, Element.name_leaf, Element.name_node]
  simp

/-- A page is read back. -/
theorem ObjectPage.foldlM_elements {page : ObjectPage} (h : page.IsWritable) :
    page.elements.foldlM (fill fields) {} = some page := by
  have hfind : Field.find? fields "Contents" = some (Decoder.listedObject.map fun object page =>
      { page with contents := page.contents ++ [object] }) := rfl
  have hcontents : (page.contents.map fun object => .node "Contents" object.elements).foldlM
      (fill fields) { page with contents := [], commonPrefixes := [] } =
        some { page with commonPrefixes := [] } :=
    foldlM_list (fun contents => { page with contents, commonPrefixes := [] }) hfind
      (fun object hobject => object.foldlM_elements (h object hobject)) fun _ _ => rfl
  have hprefixes : (CommonPrefix.list page.commonPrefixes).foldlM (fill fields)
      { page with commonPrefixes := [] } = some page :=
    CommonPrefix.foldlM_list (fun commonPrefixes => { page with commonPrefixes }) rfl
      fun _ _ => rfl
  rw [elements, List.append_assoc, foldlM_append_of_eq_some
    (b := { page with contents := [], commonPrefixes := [] })]
  · exact (foldlM_append_of_eq_some hcontents).trans hprefixes
  · simp [fill, fields]

/-- A page is read back into a listing whose other fields are not called as its own. -/
theorem ObjectPage.foldlM_elements_lift {ρ : Type} {own : List (Field ρ)}
    {modify : (ObjectPage → ObjectPage) → ρ → ρ} {page : ObjectPage} (h : page.IsWritable)
    (put : ObjectPage → ρ) (hput : ∀ change a, modify change (put a) = put (change a))
    (hown : ∀ name ∈ fields.map Field.name, name ∉ own.map Field.name) :
    page.elements.foldlM (fill (own ++ fields.map (.lift modify))) (put {}) = some (put page) :=
  Decoder.foldlM_lift put hput hown page.name_mem_fields (foldlM_elements h)

/-- The elements of a listing that goes on after a key. -/
def MarkerListing.elements (listing : MarkerListing) : List Element :=
  [.leaf "Marker" listing.marker, .leaf "NextMarker" listing.nextMarker] ++
  listing.toObjectPage.elements

theorem MarkerListing.allNamed {listing : MarkerListing} (h : listing.toObjectPage.IsWritable) :
    AllNamed listing.elements :=
  ⟨(isName_ofList (by decide) : IsName "Marker"),
    (isName_ofList (by decide) : IsName "NextMarker"), ObjectPage.allNamed h⟩

/-- A listing that goes on after a key is read back. -/
theorem MarkerListing.foldlM_elements {listing : MarkerListing}
    (h : listing.toObjectPage.IsWritable) :
    listing.elements.foldlM (fill fields) {} = some listing := by
  have hpage : listing.toObjectPage.elements.foldlM (fill fields)
      { listing with toObjectPage := {} } = some listing := by
    rw [fields]
    refine ObjectPage.foldlM_elements_lift h
      (fun page => ({ listing with toObjectPage := page } : MarkerListing)) ?_ ?_
    · intro change page
      rfl
    · decide
  rw [elements, foldlM_append_of_eq_some (b := { listing with toObjectPage := {} }), hpage]
  rfl

/-- The elements of a listing that goes on with a token. -/
def TokenListing.elements (listing : TokenListing) : List Element :=
  [.leaf "KeyCount" (Numeral.decimal listing.keyCount.toInt),
    .leaf "NextContinuationToken" listing.nextContinuationToken,
    .leaf "ContinuationToken" listing.continuationToken,
    .leaf "FetchOwner" listing.fetchOwner, .leaf "StartAfter" listing.startAfter] ++
  listing.toObjectPage.elements

theorem TokenListing.allNamed {listing : TokenListing} (h : listing.toObjectPage.IsWritable) :
    AllNamed listing.elements := by
  simp only [elements, Element.allNamed_append, Element.allNamed_cons, Element.named_leaf,
    Element.allNamed_nil, ObjectPage.allNamed h, and_true]
  and_intros <;> exact isName_ofList (by decide)

/-- A listing that goes on with a token is read back. -/
theorem TokenListing.foldlM_elements {listing : TokenListing}
    (h : listing.toObjectPage.IsWritable) :
    listing.elements.foldlM (fill fields) {} = some listing := by
  have hpage : listing.toObjectPage.elements.foldlM (fill fields)
      { listing with toObjectPage := {} } = some listing := by
    rw [fields]
    refine ObjectPage.foldlM_elements_lift h
      (fun page => ({ listing with toObjectPage := page } : TokenListing)) ?_ ?_
    · intro change page
      rfl
    · decide
  rw [elements, foldlM_append_of_eq_some (b := { listing with toObjectPage := {} }), hpage]
  simp [fill, fields]

end BucketWire

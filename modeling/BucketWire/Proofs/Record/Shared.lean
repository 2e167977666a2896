import BucketWire.Decode.Shared
import BucketWire.Proofs.Decode.Record

/-!
# Elements of shared records

A record has an element for each of its fields: a text as it is, a number in decimal, an instant as
a timestamp, and the elements of a record within it. There is no element for an instant that is
missing. The record is read back from its elements.

## Main definitions

* `Element.instant` — the element of an instant
* `Principal.elements`, `CommonPrefix.elements`, `ErasureShape.elements`, `ErrorReport.elements`,
  `Checksums.leaves` — the elements of shared records

## Main results

* `Principal.foldlM_elements`, `CommonPrefix.foldlM_elements`, `ErasureShape.foldlM_elements`,
  `ErrorReport.foldlM_elements`, `Checksums.foldlM_leaves` — shared records are read back
-/

namespace BucketWire

open Decoder (fill)
open Element (AllNamed)
open Markup (IsName isName_ofList)

/-! ### Instants -/

/-- The element of an instant, if there is one. -/
def Element.instant (name : String) (t : Option Instant) : List Element :=
  t.toList.map fun i => .leaf name i.timestamp

theorem Element.allNamed_instant {name : String} (hname : IsName name) (t : Option Instant) :
    AllNamed (instant name t) := (allNamed_map _ _).mpr fun _ _ => hname

/-! ### Shared records -/

/-- The elements of an owner or an initiator. -/
def Principal.elements (principal : Principal) : List Element :=
  [.leaf "ID" principal.id, .leaf "DisplayName" principal.displayName]

theorem Principal.allNamed (principal : Principal) : AllNamed principal.elements := by
  simp only [elements, Element.allNamed_cons, Element.named_leaf, Element.allNamed_nil, and_true]
  and_intros <;> exact isName_ofList (by decide)

/-- An owner or an initiator is read back. -/
theorem Principal.foldlM_elements (principal : Principal) :
    principal.elements.foldlM (fill fields) {} = some principal := rfl

@[simp] theorem Principal.ofElement_owner (name : String) (principal : Principal) :
    Decoder.owner.ofElement (.node name principal.elements) = some principal :=
  principal.foldlM_elements

@[simp] theorem Principal.ofElement_initiator (name : String) (principal : Principal) :
    Decoder.initiator.ofElement (.node name principal.elements) = some principal :=
  principal.foldlM_elements

/-- The element of a common prefix. -/
def CommonPrefix.elements (record : CommonPrefix) : List Element :=
  [.leaf "Prefix" record.keyPrefix]

theorem CommonPrefix.allNamed (record : CommonPrefix) : AllNamed record.elements :=
  ⟨(isName_ofList (by decide) : IsName "Prefix"), trivial⟩

/-- A common prefix is read back. -/
theorem CommonPrefix.foldlM_elements (record : CommonPrefix) :
    record.elements.foldlM (fill fields) {} = some record := rfl

/-- The elements of the common prefixes of a listing. -/
def CommonPrefix.list (records : List CommonPrefix) : List Element :=
  records.map fun record => .node "CommonPrefixes" record.elements

theorem CommonPrefix.allNamed_list (records : List CommonPrefix) : AllNamed (list records) :=
  (Element.allNamed_map _ _).mpr fun record _ => ⟨isName_ofList (by decide), record.allNamed⟩

/-- The common prefixes of a listing are read back. -/
theorem CommonPrefix.foldlM_list {ρ : Type} {fields : List (Field ρ)}
    {add : CommonPrefix → ρ → ρ} {records : List CommonPrefix} (put : List CommonPrefix → ρ)
    (hfind : Field.find? fields "CommonPrefixes" = some (Decoder.commonPrefix.map add))
    (hadd : ∀ record before, add record (put before) = put (before ++ [record])) :
    (list records).foldlM (fill fields) (put []) = some (put records) :=
  Decoder.foldlM_list put hfind (fun record _ => record.foldlM_elements) hadd

/-- The elements of an erasure shape. -/
def ErasureShape.elements (shape : ErasureShape) : List Element :=
  [.leaf "K" (Numeral.decimal shape.dataBlocks.toInt),
    .leaf "M" (Numeral.decimal shape.parityBlocks.toInt)]

theorem ErasureShape.allNamed (shape : ErasureShape) : AllNamed shape.elements := by
  simp only [elements, Element.allNamed_cons, Element.named_leaf, Element.allNamed_nil, and_true]
  and_intros <;> exact isName_ofList (by decide)

/-- An erasure shape is read back. -/
theorem ErasureShape.foldlM_elements (shape : ErasureShape) :
    shape.elements.foldlM (fill fields) {} = some shape := by
  simp [elements, fields, fill, Element.name]

/-- The elements of a report of an error. -/
def ErrorReport.elements (report : ErrorReport) : List Element :=
  [.leaf "Code" report.code, .leaf "Message" report.message,
    .leaf "BucketName" report.bucketName, .leaf "Key" report.key,
    .leaf "Resource" report.resource, .leaf "RequestId" report.requestId,
    .leaf "HostId" report.hostId, .leaf "Region" report.region]

theorem ErrorReport.allNamed (report : ErrorReport) : AllNamed report.elements := by
  simp only [elements, Element.allNamed_cons, Element.named_leaf, Element.allNamed_nil, and_true]
  and_intros <;> exact isName_ofList (by decide)

/-- A report of an error is read back. -/
theorem ErrorReport.foldlM_elements (report : ErrorReport) :
    report.elements.foldlM (fill fields) {} = some report := rfl

/-! ### Checksums -/

/-- The elements of checksums, also of those that are empty. -/
def Checksums.leaves (c : Checksums) : List Element :=
  [.leaf "ChecksumCRC32" c.crc32, .leaf "ChecksumCRC32C" c.crc32c, .leaf "ChecksumSHA1" c.sha1,
    .leaf "ChecksumSHA256" c.sha256, .leaf "ChecksumCRC64NVME" c.crc64nvme]

theorem Checksums.allNamed_leaves (c : Checksums) : AllNamed c.leaves := by
  simp only [leaves, Element.allNamed_cons, Element.named_leaf, Element.allNamed_nil, and_true]
  and_intros <;> exact isName_ofList (by decide)

/-- Checksums are read back. -/
theorem Checksums.foldlM_leaves (c : Checksums) : c.leaves.foldlM (fill fields) {} = some c := rfl

theorem Checksums.name_mem_fields (c : Checksums) :
    ∀ e ∈ c.leaves, e.name ∈ fields.map Field.name := by
  simp only [leaves, List.forall_mem_cons, Element.name]
  exact ⟨by decide, by decide, by decide, by decide, by decide, by simp⟩

/-- Checksums are read back into a record whose other fields are not called as they are. -/
theorem Checksums.foldlM_leaves_lift {ρ : Type} {own : List (Field ρ)}
    {modify : (Checksums → Checksums) → ρ → ρ} (put : Checksums → ρ)
    (hput : ∀ change c, modify change (put c) = put (change c))
    (hown : ∀ name ∈ fields.map Field.name, name ∉ own.map Field.name) (c : Checksums) :
    c.leaves.foldlM (fill (own ++ fields.map (.lift modify))) (put {}) = some (put c) :=
  Decoder.foldlM_lift put hput hown c.name_mem_fields c.foldlM_leaves

end BucketWire

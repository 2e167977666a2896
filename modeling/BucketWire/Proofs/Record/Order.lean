import BucketWire.Proofs.Decode.History
import BucketWire.Proofs.Decode.Order
import BucketWire.Proofs.Record.Kind

/-!
# Records in any order

The lines of a table change different fields of a record, so the children of an element can be read
in any order as long as those of one name keep theirs. Histories are the exception: versions and
delete markers are entries of one list, and no other children may stand in a history. Within an
entry of a history the order is free again.

## Main definitions

* `Kind.Revises` — an element with other children that say nothing, or in another order

## Main results

* `Kind.orderFree` — a record of any other kind is read in any order
* `Kind.decode_revised` — a document with a revised root element decodes to the same record
-/

namespace BucketWire

open Decoder (orderFree_record orderFree_items)
open BucketWire.Field (Independent apart_store outside_store)

/-! ### Shared records -/

theorem Principal.independent_fields : Independent fields := by
  constructor <;> simp [fields, apart_store]

@[simp] theorem Principal.orderFree_owner : Decoder.owner.OrderFree :=
  orderFree_record independent_fields "Owner" {}

@[simp] theorem Principal.orderFree_initiator : Decoder.initiator.OrderFree :=
  orderFree_record independent_fields "Initiator" {}

theorem CommonPrefix.independent_fields : Independent fields := by
  constructor <;> simp [fields]

@[simp] theorem CommonPrefix.orderFree : Decoder.commonPrefix.OrderFree :=
  orderFree_record independent_fields "CommonPrefixes" {}

theorem ErasureShape.independent_fields : Independent fields := by
  constructor <;> simp [fields, apart_store]

@[simp] theorem ErasureShape.orderFree : Decoder.erasureShape.OrderFree :=
  orderFree_record independent_fields "Internal" {}

theorem ErrorReport.independent_fields : Independent fields := by
  constructor <;> simp [fields, apart_store]

/-- Checksums of different families are set in any order. -/
theorem Checksums.set_comm {a b : Algorithm} (hne : a ≠ b) (c : Checksums) (s t : String) :
    (c.set b t).set a s = (c.set a s).set b t := by
  cases a <;> cases b <;> first | rfl | exact absurd rfl hne

theorem Checksums.independent_fields : Independent fields := by
  constructor
  · simp [fields, field]
  · have hnodup : Algorithm.probeOrder.Nodup := by decide
    refine List.pairwise_map.mpr (hnodup.imp fun {a b} hne => ?_)
    exact apart_store (fun s t c => c.set_comm hne s t) _ _

/-! ### Buckets -/

theorem Bucket.independent_fields : Independent fields := by
  constructor <;> simp [fields, apart_store]

@[simp] theorem Bucket.orderFree_buckets : Decoder.buckets.OrderFree :=
  orderFree_items (orderFree_record independent_fields "Bucket" {}) "Bucket"

theorem BucketListing.independent_fields : Independent fields := by
  constructor <;> simp [fields, apart_store]

theorem DirectoryBucketListing.independent_fields : Independent fields := by
  constructor <;> simp [fields, apart_store]

/-! ### Objects -/

theorem ObjectEntry.independent_fields : Independent fields := by
  refine .append_lift ?_ Checksums.independent_fields (fun _ _ _ => rfl) (by simp [outside_store])
  constructor <;> simp [apart_store]

theorem ListedObject.independent_fields : Independent fields := by
  refine @Independent.append_lift _ _ _ [_] _ ?_ ObjectEntry.independent_fields (fun _ _ _ => rfl)
    (by simp [outside_store])
  constructor <;> simp

@[simp] theorem ListedObject.orderFree : Decoder.listedObject.OrderFree :=
  orderFree_record independent_fields "Contents" {}

theorem ObjectPage.independent_fields : Independent fields := by
  constructor <;> simp [fields, apart_store]

theorem MarkerListing.independent_fields : Independent fields := by
  refine .append_lift ?_ ObjectPage.independent_fields (fun _ _ _ => rfl) (by simp [outside_store])
  constructor <;> simp [apart_store]

theorem TokenListing.independent_fields : Independent fields := by
  refine .append_lift ?_ ObjectPage.independent_fields (fun _ _ _ => rfl) (by simp [outside_store])
  constructor <;> simp [apart_store]

theorem ObjectVersion.independent_fields : Independent fields :=
  @Independent.append_lift _ _ _ [] _ ⟨by simp, .nil⟩ ObjectEntry.independent_fields
    (fun _ _ _ => rfl) (by simp)

theorem ObjectVersion.orderFree : Decoder.objectVersion.OrderFree :=
  orderFree_record independent_fields "Version" {}

/-! ### Uploads -/

theorem PendingUpload.independent_fields : Independent fields := by
  constructor <;> simp [fields, apart_store]

@[simp] theorem PendingUpload.orderFree : Decoder.pendingUpload.OrderFree :=
  orderFree_record independent_fields "Upload" {}

theorem UploadListing.independent_fields : Independent fields := by
  constructor <;> simp [fields, apart_store]

theorem UploadedPart.independent_fields : Independent fields := by
  refine .append_lift ?_ Checksums.independent_fields (fun _ _ _ => rfl) (by simp [outside_store])
  constructor <;> simp [apart_store]

@[simp] theorem UploadedPart.orderFree : Decoder.uploadedPart.OrderFree :=
  orderFree_record independent_fields "Part" {}

theorem PartListing.independent_fields : Independent fields := by
  constructor <;> simp [fields, apart_store]

theorem StartedUpload.independent_fields : Independent fields := by
  constructor <;> simp [fields, apart_store]

theorem CompletedUpload.independent_fields : Independent fields := by
  refine .append_lift ?_ Checksums.independent_fields (fun _ _ _ => rfl) (by simp [outside_store])
  constructor <;> simp [apart_store]

theorem CopyReport.independent_fields : Independent fields := by
  constructor <;> simp [fields, apart_store]

/-! ### Deletions -/

theorem Deletion.independent_fields : Independent fields := by
  constructor <;> simp [fields, apart_store]

@[simp] theorem Deletion.orderFree : Decoder.deletion.OrderFree :=
  orderFree_record independent_fields "Deleted" {}

theorem FailedDeletion.independent_fields : Independent fields := by
  constructor <;> simp [fields, apart_store]

@[simp] theorem FailedDeletion.orderFree : Decoder.failedDeletion.OrderFree :=
  orderFree_record independent_fields "Error" {}

theorem DeletionReport.independent_fields : Independent fields := by
  constructor <;> simp [fields, apart_store]

/-! ### Records of every kind -/

namespace Kind

/-- The decoder of every kind but that of histories reads the children in any order, at every
level. -/
theorem orderFree (kind : Kind) (h : kind ≠ versionListing) : kind.decoder.OrderFree := by
  cases kind with
  | owner => exact Principal.orderFree_owner
  | initiator => exact Principal.orderFree_initiator
  | commonPrefix => exact CommonPrefix.orderFree
  | erasureShape => exact ErasureShape.orderFree
  | errorReport => exact orderFree_record ErrorReport.independent_fields _ _
  | bucket => exact orderFree_record Bucket.independent_fields _ _
  | bucketListing => exact orderFree_record BucketListing.independent_fields _ _
  | directoryBucketListing => exact orderFree_record DirectoryBucketListing.independent_fields _ _
  | listedObject => exact ListedObject.orderFree
  | markerListing => exact orderFree_record MarkerListing.independent_fields _ _
  | tokenListing => exact orderFree_record TokenListing.independent_fields _ _
  | objectVersion => exact ObjectVersion.orderFree
  | versionListing => exact absurd rfl h
  | pendingUpload => exact PendingUpload.orderFree
  | uploadListing => exact orderFree_record UploadListing.independent_fields _ _
  | uploadedPart => exact UploadedPart.orderFree
  | partListing => exact orderFree_record PartListing.independent_fields _ _
  | startedUpload => exact orderFree_record StartedUpload.independent_fields _ _
  | completedUpload => exact orderFree_record CompletedUpload.independent_fields _ _
  | copyReport => exact orderFree_record CopyReport.independent_fields _ _
  | deletion => exact Deletion.orderFree
  | failedDeletion => exact FailedDeletion.orderFree
  | deletionReport => exact orderFree_record DeletionReport.independent_fields _ _

/-- The root element `x'` is `x` after changes that say nothing to a decoder of this kind. In a
history these are changes within an entry. -/
inductive Revises {checkNames : Bool} : Kind → Child checkNames → Child checkNames → Prop where
  /-- Any changes, if the record is no history. -/
  | flat {kind : Kind} {x x' : Child checkNames} (hkind : kind ≠ versionListing)
    (h : kind.decoder.Revises x x') : Revises kind x x'
  /-- Changes within a version or a delete marker. -/
  | version {layout layout' : Layout checkNames} {name : String} {x x' : Child checkNames}
    (hname : name ∈ ["Version", "DeleteMarker"]) (h : layout.Replaced layout' name x x')
    (hx : Decoder.objectVersion.Revises x x') : Revises versionListing layout.child layout'.child
  /-- Changes within a common prefix. -/
  | commonPrefix {layout layout' : Layout checkNames} {x x' : Child checkNames}
    (h : layout.Replaced layout' "CommonPrefixes" x x')
    (hx : Decoder.commonPrefix.Revises x x') : Revises versionListing layout.child layout'.child

variable {settings : Settings} {x x' : Child settings.checkEndNames}

/-- A child of a history can be revised. -/
theorem decode_history_replaced {layout layout' : Layout settings.checkEndNames} {name : String}
    (h : layout.Replaced layout' name x x') (hx : (VersionListing.childDecoder name).Revises x x')
    (hd : (VersionListing.childDecoder name).OrderFree) {listing : VersionListing}
    (hlisting : Decoder.versionListing.decode settings layout.child.bytes = .ok listing) :
    Decoder.versionListing.decode settings layout'.child.bytes = .ok listing :=
  Decoder.decode_replaced h (fun _ hchange => hx.decode_eq hd hchange) hlisting

theorem Revises.decode_eq {kind : Kind} (h : kind.Revises x x') {r : kind.Record}
    (hr : kind.decoder.decode settings x.bytes = .ok r) :
    kind.decoder.decode settings x'.bytes = .ok r := by
  cases h with
  | flat hkind h => exact h.decode_eq (kind.orderFree hkind) hr
  | @version _ _ name _ _ hname h hx =>
    simp only [List.mem_cons, List.not_mem_nil, or_false] at hname
    rcases hname with rfl | rfl <;>
      exact decode_history_replaced h (.refine hx) ObjectVersion.orderFree hr
  | commonPrefix h hx =>
    exact decode_history_replaced h (.refine hx) CommonPrefix.orderFree hr

/-! ### An object in two forms -/

namespace Sample

/-- Nothing at all, as a stretch without a tag. -/
def nothing : Gap true where
  bytes := []
  events := []
  not_isTag := by simp
  tape_eq := by decide +kernel

/-- A byte order mark, as a prolog. -/
def mark : Prolog true where
  bytes := Utf8.encode "\uFEFF"
  events := []
  not_isTag := by simp
  tape_eq := by decide +kernel

/-- The identifier of an owner. -/
def ownerId : Child true where
  bytes := Utf8.encode "<ID>a</ID>"
  name := Utf8.encode "ID"
  content := [.text (Utf8.encode "a"), .close (Utf8.encode "ID")]
  closes := .stay id (.last _)
  tape_eq := by decide +kernel

/-- A note that holds an identifier, an unknown entity and a byte that is not UTF-8. -/
def note : Child true where
  bytes := Utf8.encode "<x:Note><ID>&z;</ID>" ++ 0xFF :: Utf8.encode "</x:Note>"
  name := Utf8.encode "x:Note"
  content := [.start (Utf8.encode "ID"), .reference (Utf8.encode "z"), .close (Utf8.encode "ID"),
    .text [0xFF], .close (Utf8.encode "x:Note")]
  closes := .enter _ (.stay id (.leave _ (.stay id (.last _))))
  tape_eq := by decide +kernel

/-- The key of an object. -/
def key : Child true where
  bytes := Utf8.encode "<Key>k</Key>"
  name := Utf8.encode "Key"
  content := [.text (Utf8.encode "k"), .close (Utf8.encode "Key")]
  closes := .stay id (.last _)
  tape_eq := by decide +kernel

/-- An owner with these children. -/
def owner (children : List (Child true)) : Layout true where
  rootTag := Utf8.encode "<Owner>"
  rootName := Utf8.encode "Owner"
  scan_rootTag := by decide +kernel
  front := nothing
  pieces := children.map fun child => (child, nothing)
  endTag := Utf8.encode "</Owner>"
  endName := Utf8.encode "Owner"
  scan_endTag := by decide +kernel
  endName_eq := fun _ => rfl

/-- An object with these children. -/
def object (children : List (Child true)) : Layout true where
  rootTag := Utf8.encode "<Contents>"
  rootName := Utf8.encode "Contents"
  scan_rootTag := by decide +kernel
  front := nothing
  pieces := children.map fun child => (child, nothing)
  endTag := Utf8.encode "</Contents>"
  endName := Utf8.encode "Contents"
  scan_endTag := by decide +kernel
  endName_eq := fun _ => rfl

theorem localName_owner (children : List (Child true)) :
    (owner children).child.localName = .ok "Owner" := by
  have hname : Utf8.decode (Reader.localName (Utf8.encode "Owner")) = .ok "Owner" := by
    decide +kernel
  exact hname

theorem localName_key : key.localName = .ok "Key" := by decide +kernel

/-- The note says nothing to the decoder of an owner. -/
theorem revises_owner :
    Decoder.owner.Revises (owner [ownerId]).child (owner [note, ownerId]).child := by
  have hname : note.localName = .ok "Note" := by decide +kernel
  have hold : (owner [ownerId]).elements = [] ++ [ownerId] := rfl
  have hnew : (owner [note, ownerId]).elements = [] ++ note :: [ownerId] := rfl
  exact .insert hname (by decide) hold hnew

/-- An owner and a key change places. -/
theorem reordered (children : List (Child true)) :
    Child.Reordered [(owner children).child, key] [key, (owner children).child] where
  perm := .swap _ _ _
  filter_eq name := by
    have howner := @Child.isNamed_of_localName {} _ _ [name] (localName_owner children)
    have hkey := @Child.isNamed_of_localName {} _ _ [name] localName_key
    by_cases hname : "Key" = name
    · subst hname
      simp_all
    · simp_all [List.filter_cons]

/-- An object with an owner and a key. -/
def root : Child true := (object [(owner [ownerId]).child, key]).child

/-- The object with the note in its owner, which stands behind the key. -/
def revisedRoot : Child true := (object [key, (owner [note, ownerId]).child]).child

theorem revises_root : listedObject.Revises root revisedRoot := by
  have hinside : listedObject.decoder.Revises root
      (object [(owner [note, ownerId]).child, key]).child :=
    .inside ⟨⟨[], [key], rfl, rfl⟩, localName_owner _, localName_owner _⟩
      (.refine (.refine revises_owner))
  exact .flat (by decide) (.trans hinside (.reorder (reordered [note, ownerId])))

end Sample

/-- A document that decodes consists of a prolog, a root element, which is a single tag or has
children, and what stands behind it. If the root element is revised, the document decodes to the
same record. -/
theorem decode_revised (kind : Kind) {document : Bytes} {r : kind.Record}
    (h : kind.decoder.decode settings document = .ok r) :
    (∃ (prolog : Prolog settings.checkEndNames) (root : Child settings.checkEndNames)
      (epilog : Bytes), document = prolog.bytes ++ (root.bytes ++ epilog) ∧
        (root.IsSelfClosing ∨ ∃ layout : Layout settings.checkEndNames, layout.child = root)) ∧
    ∀ (prolog : Prolog settings.checkEndNames) (root root' : Child settings.checkEndNames)
      (epilog : Bytes), document = prolog.bytes ++ (root.bytes ++ epilog) →
        kind.Revises root root' →
          kind.decoder.decode settings (prolog.bytes ++ (root'.bytes ++ epilog)) = .ok r := by
  constructor
  · obtain ⟨prolog, root, epilog, hdocument⟩ := Decoder.exists_append_of_decode_eq_ok h
    exact ⟨prolog, root, epilog, hdocument, root.isSelfClosing_or_exists_layout⟩
  · rintro prolog root root' epilog rfl hrevises
    rw [Decoder.decode_append] at h ⊢
    exact hrevises.decode_eq h

/-- The note is skipped and the key may stand in front of the owner. -/
theorem decode_revised_note :
    Decoder.listedObject.decode {}
        (Utf8.encode "\uFEFF<Contents><Owner><ID>a</ID></Owner><Key>k</Key></Contents></x>") =
      .ok { key := "k", owner := { id := "a" } } ∧
    Decoder.listedObject.decode {}
        (Utf8.encode "\uFEFF<Contents><Key>k</Key><Owner><x:Note><ID>&z;</ID>" ++
          0xFF :: Utf8.encode "</x:Note><ID>a</ID></Owner></Contents></x>") =
      .ok { key := "k", owner := { id := "a" } } := by
  have h : Decoder.listedObject.decode {}
      (Utf8.encode "\uFEFF<Contents><Owner><ID>a</ID></Owner><Key>k</Key></Contents></x>") =
        .ok { key := "k", owner := { id := "a" } } := by
    decide +kernel
  have hroot : Utf8.encode
        "\uFEFF<Contents><Owner><ID>a</ID></Owner><Key>k</Key></Contents></x>" =
      Sample.mark.bytes ++ (Sample.root.bytes ++ Utf8.encode "</x>") := by decide +kernel
  have hrevised : Utf8.encode "\uFEFF<Contents><Key>k</Key><Owner><x:Note><ID>&z;</ID>" ++
        0xFF :: Utf8.encode "</x:Note><ID>a</ID></Owner></Contents></x>" =
      Sample.mark.bytes ++ (Sample.revisedRoot.bytes ++ Utf8.encode "</x>") := by decide +kernel
  refine ⟨h, ?_⟩
  rw [hrevised]
  exact (decode_revised listedObject h).2 Sample.mark Sample.root Sample.revisedRoot
    (Utf8.encode "</x>") hroot Sample.revises_root

end Kind

end BucketWire

import BucketWire.Decode.Version
import BucketWire.Proofs.Decode.Table

/-!
# Decoding a history

A history is decoded child by child. It decodes if every child has one of thirteen names and holds
what belongs there; else the first child for which this fails gives the error. The entries of the
history are those of the document, one for one and in the same order, and an entry is a delete
marker because of the name of its element.

## Main definitions

* `VersionListing.check` — whether a child belongs in a history, and why not
* `VersionListing.Holds` — which children a history holds

## Main results

* `VersionListing.decode_layout` — what a history decodes to
-/

namespace BucketWire

open Decoder (text)

variable {settings : Settings}

namespace VersionListing

/-- The decoder of the child `name` of a history. -/
def childDecoder (name : String) : Decoder (VersionListing → VersionListing) :=
  (Field.find? fields name).getD (.unrecognized name)

/-! ### What belongs in a history -/

/-- Whether the child `name` of a history holds what belongs there. Histories have children of
thirteen names. -/
def checkContent (settings : Settings) (bytes : Bytes) : String → Except DecodeError Unit
  | "Version" | "DeleteMarker" => (Decoder.objectVersion.decode settings bytes).map fun _ => ()
  | "CommonPrefixes" => (Decoder.commonPrefix.decode settings bytes).map fun _ => ()
  | "MaxKeys" => (Decoder.int64.decode settings bytes).map fun _ => ()
  | "IsTruncated" => (Decoder.boolean.decode settings bytes).map fun _ => ()
  | "Name" | "Prefix" | "Delimiter" | "EncodingType" | "KeyMarker" | "VersionIdMarker"
  | "NextKeyMarker" | "NextVersionIdMarker" => (text.decode settings bytes).map fun _ => ()
  | name => .error (.unrecognized name)

/-- Whether a child belongs in a history: its local name is one of thirteen, and its own content
decodes. -/
def check (child : Child settings.checkEndNames) : Except DecodeError Unit :=
  match child.localName with
  | .error fault => .error (.invalidValue (.name fault))
  | .ok name => checkContent settings child.bytes name

theorem map_decode_childDecoder (name : String) (child : Child settings.checkEndNames) :
    ((childDecoder name).decode settings child.bytes).map (fun _ => ()) =
      checkContent settings child.bytes name := by
  have hstore : ∀ {α : Type} (n : String) (d : Decoder α)
      (set : α → VersionListing → VersionListing),
      ((Field.store n d set).change.decode settings child.bytes).map (fun _ => ()) =
        (d.decode settings child.bytes).map fun _ => () := by
    intro α n d set
    rw [Field.store, Decoder.decode_map]
    cases d.decode settings child.bytes <;> rfl
  rw [checkContent.eq_def]
  split
  all_goals try exact hstore _ _ _
  -- The name is none of the thirteen.
  rename_i _ hversion hmarker hprefixes hmaxKeys htruncated hname hprefix hdelimiter hencoding
    hkeyMarker hversionIdMarker hnextKeyMarker hnextVersionIdMarker
  have hfind : Field.find? fields name = none := by
    rw [Field.find?, Option.map_eq_none_iff, List.find?_eq_none]
    intro field hfield
    simp only [fields, List.mem_cons, List.not_mem_nil, or_false] at hfield
    rcases hfield with rfl | rfl | rfl | rfl | rfl | rfl | rfl | rfl | rfl | rfl | rfl | rfl | rfl <;>
      simp_all [Field.store, eq_comm]
  rw [childDecoder, hfind, Option.getD_none, Decoder.decode_unrecognized]
  rfl

/-- A child is read if it belongs in a history, and what is wrong with it is the error. -/
theorem map_read_childDecoder (child : Child settings.checkEndNames) :
    (child.read childDecoder).map (fun _ => ()) = check child := by
  rw [Child.read, check]
  cases child.localName with
  | error fault => rfl
  | ok name => exact map_decode_childDecoder name child

theorem exists_read_eq_ok_iff (child : Child settings.checkEndNames) :
    (∃ change, child.read childDecoder = .ok change) ↔ check child = .ok () := by
  rw [← map_read_childDecoder]
  cases child.read childDecoder <;> simp [Except.map]

theorem read_eq_error_iff (child : Child settings.checkEndNames) {e : DecodeError} :
    child.read childDecoder = .error e ↔ check child = .error e := by
  rw [← map_read_childDecoder]
  cases child.read childDecoder <;> simp [Except.map]

/-! ### What a history holds -/

/-- An entry of a history comes from the element `child`: it is what the element decodes to alone,
and it is a delete marker if the element is called so. -/
def IsEntry (child : Child settings.checkEndNames) (entry : ObjectVersion) : Prop :=
  ∃ version, Decoder.objectVersion.decode settings child.bytes = .ok version ∧
    entry = { version with isDeleteMarker := child.isNamed ["DeleteMarker"] }

/-- The history holds what these children say: one entry for each version and each delete marker,
one prefix for each common prefix, and else what the last child of a name says. -/
structure Holds (children : List (Child settings.checkEndNames)) (listing : VersionListing) :
    Prop where
  versions : Child.EachOf ["Version", "DeleteMarker"] IsEntry children listing.versions
  commonPrefixes : Child.EachOf ["CommonPrefixes"]
    (fun child commonPrefix =>
      Decoder.commonPrefix.decode settings child.bytes = .ok commonPrefix)
    children listing.commonPrefixes
  name : Child.LastOf "Name" text "" children listing.name
  keyPrefix : Child.LastOf "Prefix" text "" children listing.keyPrefix
  delimiter : Child.LastOf "Delimiter" text "" children listing.delimiter
  maxKeys : Child.LastOf "MaxKeys" Decoder.int64 0 children listing.maxKeys
  encodingType : Child.LastOf "EncodingType" text "" children listing.encodingType
  isTruncated : Child.LastOf "IsTruncated" Decoder.boolean false children listing.isTruncated
  keyMarker : Child.LastOf "KeyMarker" text "" children listing.keyMarker
  versionIdMarker : Child.LastOf "VersionIdMarker" text "" children listing.versionIdMarker
  nextKeyMarker : Child.LastOf "NextKeyMarker" text "" children listing.nextKeyMarker
  nextVersionIdMarker :
    Child.LastOf "NextVersionIdMarker" text "" children listing.nextVersionIdMarker

/-- The lines of the table that add an entry. -/
theorem eq_of_mem_fields_of_entry {field : Field VersionListing} (hfield : field ∈ fields)
    (hname : field.name ∈ ["Version", "DeleteMarker"]) :
    field = .store "Version" Decoder.objectVersion (fun version listing =>
      listing.pushVersion version) ∨
    field = .store "DeleteMarker" Decoder.objectVersion fun marker listing =>
      listing.pushDeleteMarker marker := by
  simp only [fields, List.mem_cons, List.not_mem_nil, or_false] at hfield
  rcases hfield with rfl | rfl | hfield
  · exact .inl rfl
  · exact .inr rfl
  · rcases hfield with rfl | rfl | rfl | rfl | rfl | rfl | rfl | rfl | rfl | rfl | rfl <;>
      simp at hname

theorem holds_of_foldlM {children : List (Child settings.checkEndNames)} {listing : VersionListing}
    (h : children.foldlM (Child.step childDecoder) {} = .ok listing) :
    Holds children listing := by
  constructor
  case versions =>
    refine Child.eachOf_of_foldlM rfl ?_ ?_ h
    · intro field hfield hname child change hlocal hchange r
      rcases eq_of_mem_fields_of_entry hfield hname with rfl | rfl
      all_goals
        obtain ⟨version, hversion, rfl⟩ := Decoder.exists_of_decode_map_eq_ok hchange
        refine ⟨_, ⟨version, hversion, rfl⟩, ?_⟩
        rw [Child.isNamed_of_localName hlocal]
        rfl
    · simp [fields, Field.keeps_store, pushVersion, pushDeleteMarker]
  case commonPrefixes =>
    refine Child.eachOf_of_foldlM rfl ?_ ?_ h
    · intro field hfield hname child change hlocal hchange r
      obtain rfl : field = .store "CommonPrefixes" Decoder.commonPrefix fun commonPrefix listing =>
          { listing with commonPrefixes := listing.commonPrefixes ++ [commonPrefix] } := by
        simp only [fields, List.mem_cons, List.not_mem_nil, or_false] at hfield
        rcases hfield with rfl | rfl | rfl | rfl | rfl | rfl | rfl | rfl | rfl | rfl | rfl | rfl |
          rfl <;> first | rfl | simp at hname
      obtain ⟨commonPrefix, hprefix, rfl⟩ := Decoder.exists_of_decode_map_eq_ok hchange
      exact ⟨commonPrefix, hprefix, rfl⟩
    · simp [fields, Field.keeps_store, pushVersion, pushDeleteMarker]
  all_goals
    refine Child.lastOf_of_foldlM ?_ h
    simp [fields, Field.sets_store, Field.keeps_store, pushVersion, pushDeleteMarker]

/-- A history is decoded by a fold over the children of its root element, from front to back. It
decodes if all children belong in a history, and then it holds what they say; else the first child
that does not belong there gives the error. -/
theorem decode_layout (layout : Layout settings.checkEndNames) :
    Decoder.versionListing.decode settings layout.document =
        layout.elements.foldlM (Child.step childDecoder) {} ∧
      ((∃ listing, Decoder.versionListing.decode settings layout.document = .ok listing) ↔
        ∀ child ∈ layout.elements, check child = .ok ()) ∧
      (∀ listing, Decoder.versionListing.decode settings layout.document = .ok listing →
        Holds layout.elements listing) ∧
      ∀ e, Decoder.versionListing.decode settings layout.document = .error e ↔
        ∃ before child after, layout.elements = before ++ child :: after ∧
          (∀ child' ∈ before, check child' = .ok ()) ∧ check child = .error e := by
  have hfold : Decoder.versionListing.decode settings layout.document =
      layout.elements.foldlM (Child.step childDecoder) {} :=
    Decoder.decode_children _ _ _ layout
  rw [hfold]
  refine ⟨rfl, ?_, fun listing => holds_of_foldlM, fun e => ?_⟩
  · simp only [Child.exists_foldlM_step_eq_ok_iff, exists_read_eq_ok_iff]
  · simp only [Child.foldlM_step_eq_error_iff, exists_read_eq_ok_iff, read_eq_error_iff]

end VersionListing

end BucketWire

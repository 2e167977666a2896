import BucketWire.Proofs.Decode.Classification
import BucketWire.Proofs.Decode.History
import BucketWire.Proofs.Record.Kind

/-!
# Errors of records

An outcome of decoding a record of any kind agrees with the events of the document. An element is
refused for its name only in a history, where it is the first child that does not belong there.

## Main definitions

* `VersionListing.HasStranger` — the root element has a child that no history has

## Main results

* `Kind.lenient` — records of every other kind take all elements
* `Kind.decode_classified` — what an error says about a document
-/

namespace BucketWire

open Event (Siblings)
open Tape (prepend)
open Decoder (lenient_record)

/-! ### Records that take all elements -/

theorem Principal.lenient_fields : ∀ field ∈ fields, field.change.Lenient := by simp [fields]

@[simp] theorem Principal.lenient_owner : Decoder.owner.Lenient :=
  lenient_record lenient_fields "Owner" {}

@[simp] theorem Principal.lenient_initiator : Decoder.initiator.Lenient :=
  lenient_record lenient_fields "Initiator" {}

theorem CommonPrefix.lenient_fields : ∀ field ∈ fields, field.change.Lenient := by simp [fields]

@[simp] theorem CommonPrefix.lenient : Decoder.commonPrefix.Lenient :=
  lenient_record lenient_fields "CommonPrefixes" {}

theorem ErasureShape.lenient_fields : ∀ field ∈ fields, field.change.Lenient := by simp [fields]

@[simp] theorem ErasureShape.lenient : Decoder.erasureShape.Lenient :=
  lenient_record lenient_fields "Internal" {}

theorem ErrorReport.lenient_fields : ∀ field ∈ fields, field.change.Lenient := by simp [fields]

theorem Checksums.lenient_fields : ∀ field ∈ fields, field.change.Lenient := by simp [fields, field]

theorem Bucket.lenient_fields : ∀ field ∈ fields, field.change.Lenient := by simp [fields]

@[simp] theorem Bucket.lenient_buckets : Decoder.buckets.Lenient :=
  Decoder.lenient_items (lenient_record lenient_fields "Bucket" {}) "Bucket"

theorem BucketListing.lenient_fields : ∀ field ∈ fields, field.change.Lenient := by simp [fields]

theorem DirectoryBucketListing.lenient_fields : ∀ field ∈ fields, field.change.Lenient := by
  simp [fields]

theorem ObjectEntry.lenient_fields : ∀ field ∈ fields, field.change.Lenient := by
  simpa [fields] using Checksums.lenient_fields

theorem ListedObject.lenient_fields : ∀ field ∈ fields, field.change.Lenient := by
  simpa [fields] using ObjectEntry.lenient_fields

@[simp] theorem ListedObject.lenient : Decoder.listedObject.Lenient :=
  lenient_record lenient_fields "Contents" {}

theorem ObjectPage.lenient_fields : ∀ field ∈ fields, field.change.Lenient := by simp [fields]

theorem MarkerListing.lenient_fields : ∀ field ∈ fields, field.change.Lenient := by
  simpa [fields] using ObjectPage.lenient_fields

theorem TokenListing.lenient_fields : ∀ field ∈ fields, field.change.Lenient := by
  simpa [fields] using ObjectPage.lenient_fields

theorem ObjectVersion.lenient_fields : ∀ field ∈ fields, field.change.Lenient := by
  simpa [fields] using ObjectEntry.lenient_fields

@[simp] theorem ObjectVersion.lenient : Decoder.objectVersion.Lenient :=
  lenient_record lenient_fields "Version" {}

theorem PendingUpload.lenient_fields : ∀ field ∈ fields, field.change.Lenient := by simp [fields]

@[simp] theorem PendingUpload.lenient : Decoder.pendingUpload.Lenient :=
  lenient_record lenient_fields "Upload" {}

theorem UploadListing.lenient_fields : ∀ field ∈ fields, field.change.Lenient := by simp [fields]

theorem UploadedPart.lenient_fields : ∀ field ∈ fields, field.change.Lenient := by
  simpa [fields] using Checksums.lenient_fields

@[simp] theorem UploadedPart.lenient : Decoder.uploadedPart.Lenient :=
  lenient_record lenient_fields "Part" {}

theorem PartListing.lenient_fields : ∀ field ∈ fields, field.change.Lenient := by simp [fields]

theorem StartedUpload.lenient_fields : ∀ field ∈ fields, field.change.Lenient := by simp [fields]

theorem CompletedUpload.lenient_fields : ∀ field ∈ fields, field.change.Lenient := by
  simpa [fields] using Checksums.lenient_fields

theorem CopyReport.lenient_fields : ∀ field ∈ fields, field.change.Lenient := by simp [fields]

theorem Deletion.lenient_fields : ∀ field ∈ fields, field.change.Lenient := by simp [fields]

@[simp] theorem Deletion.lenient : Decoder.deletion.Lenient :=
  lenient_record lenient_fields "Deleted" {}

theorem FailedDeletion.lenient_fields : ∀ field ∈ fields, field.change.Lenient := by simp [fields]

@[simp] theorem FailedDeletion.lenient : Decoder.failedDeletion.Lenient :=
  lenient_record lenient_fields "Error" {}

theorem DeletionReport.lenient_fields : ∀ field ∈ fields, field.change.Lenient := by simp [fields]

/-- Every decoder but that of histories takes all elements. -/
theorem Kind.lenient (kind : Kind) (h : kind ≠ versionListing) : kind.decoder.Lenient := by
  cases kind with
  | owner => exact Principal.lenient_owner
  | initiator => exact Principal.lenient_initiator
  | commonPrefix => exact CommonPrefix.lenient
  | erasureShape => exact ErasureShape.lenient
  | errorReport => exact lenient_record ErrorReport.lenient_fields _ _
  | bucket => exact lenient_record Bucket.lenient_fields _ _
  | bucketListing => exact lenient_record BucketListing.lenient_fields _ _
  | directoryBucketListing => exact lenient_record DirectoryBucketListing.lenient_fields _ _
  | listedObject => exact ListedObject.lenient
  | markerListing => exact lenient_record MarkerListing.lenient_fields _ _
  | tokenListing => exact lenient_record TokenListing.lenient_fields _ _
  | objectVersion => exact ObjectVersion.lenient
  | versionListing => exact absurd rfl h
  | pendingUpload => exact PendingUpload.lenient
  | uploadListing => exact lenient_record UploadListing.lenient_fields _ _
  | uploadedPart => exact UploadedPart.lenient
  | partListing => exact lenient_record PartListing.lenient_fields _ _
  | startedUpload => exact lenient_record StartedUpload.lenient_fields _ _
  | completedUpload => exact lenient_record CompletedUpload.lenient_fields _ _
  | copyReport => exact lenient_record CopyReport.lenient_fields _ _
  | deletion => exact Deletion.lenient
  | failedDeletion => exact FailedDeletion.lenient
  | deletionReport => exact lenient_record DeletionReport.lenient_fields _ _

/-! ### Strangers in a history -/

namespace VersionListing

theorem lenient_fields : ∀ field ∈ fields, field.change.Lenient := by simp [fields]

/-- A child belongs in a history: its name is known, and its content decodes. -/
def Admits (trim : Bool) (child : Bytes × List Event) : Prop :=
  ∃ name ∈ fields.map Field.name, Utf8.decode (Reader.localName child.1) = .ok name ∧
    ∃ change, (childDecoder name).outcome trim child.2 = .ok change

/-- Some child of the root element is called `name`, which is none of the names of the children of a
history, and all children before it belong there. -/
def HasStranger (trim : Bool) (tape : Tape) (name : String) : Prop :=
  ∃ before root children es fullName rest,
    tape = prepend before (.event (.start root)
      (prepend es (.event (.start fullName) rest))) ∧
    (∀ e ∈ before, ∀ name, e ≠ .start name) ∧ Siblings children es ∧
    (∀ child ∈ children, Admits trim child) ∧
    Utf8.decode (Reader.localName fullName) = .ok name ∧ name ∉ fields.map Field.name

/-- Histories have children of thirteen names. -/
example : fields.map Field.name =
    ["Version", "DeleteMarker", "CommonPrefixes", "Name", "Prefix", "Delimiter", "MaxKeys",
      "EncodingType", "IsTruncated", "KeyMarker", "VersionIdMarker", "NextKeyMarker",
      "NextVersionIdMarker"] := rfl

theorem childDecoder_cases (name : String) :
    (name ∈ fields.map Field.name ∧ (childDecoder name).Lenient) ∨
      (name ∉ fields.map Field.name ∧ childDecoder name = .unrecognized name) := by
  rw [childDecoder]
  cases hfind : Field.find? fields name with
  | some d =>
    obtain ⟨field, hfield, rfl, rfl⟩ := Field.exists_of_find? hfind
    exact .inl ⟨List.mem_map_of_mem hfield, lenient_fields field hfield⟩
  | none => exact .inr ⟨Field.find?_eq_none_iff.mp hfind, rfl⟩

/-- A history refuses an element only if it is a stranger. -/
theorem hasStranger_of_decode {settings : Settings} {document : Bytes} {name : String}
    (h : Decoder.versionListing.decode settings document = .error (.unrecognized name)) :
    HasStranger settings.trimText (Tape.ofDocument settings.checkEndNames document) name := by
  obtain ⟨before, root, rest, hbefore, htape, hrun⟩ :=
    Decoder.exists_run_of_decode_eq_unrecognized h
  obtain hend | ⟨children, es, fullName, rest, rfl, hes, hchildren, herror⟩ :=
    @Reader.exists_of_foldChildren_eq_error _ _ _ _ childDecoder _ _ hrun
  · exact absurd hend (DecodeError.not_tellsEnd_unrecognized _ _)
  · rw [Reader.ofChild] at herror
    split at herror
    · cases herror
    · rename_i localName hlocal
      refine ⟨before, root, children, es, fullName, rest, htape, hbefore, hes, ?_, ?_⟩
      · intro child hchild
        obtain ⟨localName, change, hlocal, houtcome⟩ := hchildren child hchild
        refine ⟨localName, ?_, hlocal, change, houtcome⟩
        obtain ⟨hknown, -⟩ | ⟨-, hstranger⟩ := childDecoder_cases localName
        · exact hknown
        · rw [hstranger] at houtcome
          cases houtcome
      · obtain ⟨-, hlenient⟩ | ⟨hunknown, hstranger⟩ := childDecoder_cases localName
        · exact absurd herror (hlenient.run_ne_unrecognized name)
        · rw [hstranger] at herror
          cases herror
          exact ⟨hlocal, hunknown⟩

end VersionListing

/-! ### Records of every kind -/

namespace Kind

/-- What an error says about a document. Whether there is a root element, whether it is closed, and
where the document ends or breaks off does not depend on what is decoded from it, and an outcome
agrees with that. An element is refused for its name only in a history, where no element of that
name belongs and all children before it do. -/
theorem decode_classified (kind : Kind) (settings : Settings) (document : Bytes) :
    (Tape.ofDocument settings.checkEndNames document).Classifies
        (kind.decoder.decode settings document) ∧
      ∀ name, kind.decoder.decode settings document = .error (.unrecognized name) →
        kind = versionListing ∧ VersionListing.HasStranger settings.trimText
          (Tape.ofDocument settings.checkEndNames document) name := by
  refine ⟨kind.decoder.classifies_decode settings document, fun name h => ?_⟩
  by_cases hkind : kind = versionListing
  · subst hkind
    exact ⟨rfl, VersionListing.hasStranger_of_decode h⟩
  · obtain ⟨before, root, rest, -, -, hrun⟩ := Decoder.exists_run_of_decode_eq_unrecognized h
    exact absurd hrun ((kind.lenient hkind).run_ne_unrecognized name)

end Kind

end BucketWire

import BucketWire.Decode.Upload
import BucketWire.Proofs.Decode.Record

/-!
# The completion of an upload, read as a listing of parts

The parts of a request to complete an upload are written as the parts of a listing are. So a listing
that is decoded from the request has these parts, and nothing else.

## Main results

* `CompletionRequest.partListing_decode_encode` — what is read from a request to complete an upload
-/

namespace BucketWire

open Decoder (ofElement_record ofElement_int32 foldlM_append_of_eq_some foldlM_cons_of_eq_some)
open Markup (IsName isName_ofList)

/-- The part of a listing with what is known of a part that is submitted. -/
def SubmittedPart.uploaded (part : SubmittedPart) : UploadedPart where
  partNumber := part.partNumber
  lastModified := none
  eTag := part.eTag
  size := 0
  checksums := part.checksums

/-! ### Names -/

theorem Element.allNamed_optional {name : String} (hname : IsName name) (text : String) :
    AllNamed (optional name text) := by
  rw [optional]
  split
  · trivial
  · exact ⟨hname, trivial⟩

theorem Checksums.allNamed_elements (c : Checksums) : Element.AllNamed c.elements := by
  simp only [elements, Element.allNamed_append]
  refine ⟨⟨⟨⟨?_, ?_⟩, ?_⟩, ?_⟩, ?_⟩
  all_goals exact Element.allNamed_optional (isName_ofList (by decide)) _

theorem SubmittedPart.named (part : SubmittedPart) :
    (Element.node "Part" (Body.elements part)).Named :=
  ⟨isName_ofList (by decide), (isName_ofList (by decide) : IsName "PartNumber"),
    (isName_ofList (by decide) : IsName "ETag"), part.checksums.allNamed_elements⟩

theorem CompletionRequest.named (request : CompletionRequest) :
    (Element.node "CompleteMultipartUpload" (Body.elements request)).Named :=
  ⟨isName_ofList (by decide), (Element.allNamed_map _ _).mpr fun part _ => part.named⟩

/-! ### Values -/

/-- An element may be left out if it would change nothing without a text. -/
theorem Element.foldlM_optional {ρ : Type} {fields : List (Field ρ)} {name text : String} {r r' : ρ}
    (hfill : Decoder.fill fields r (.leaf name text) = some r') (hempty : text = "" → r' = r) :
    (optional name text).foldlM (Decoder.fill fields) r = some r' := by
  rw [optional]
  by_cases h : text.isEmpty
  · rw [if_pos h, hempty (String.isEmpty_iff.mp h)]
    rfl
  · rw [if_neg h, foldlM_cons_of_eq_some hfill]
    rfl

/-- A checksum that may be left out is read into a part that has none of its family. -/
theorem UploadedPart.foldlM_checksum (part : UploadedPart) (algorithm : Algorithm) (text : String)
    (h : part.checksums.get algorithm = "") :
    (Element.optional ("Checksum" ++ algorithm.name) text).foldlM
        (Decoder.fill UploadedPart.fields) part =
      some { part with checksums := part.checksums.set algorithm text } := by
  cases algorithm
  all_goals
    refine Element.foldlM_optional rfl ?_
    rintro rfl
    rw [← h]
    rfl

/-- The checksums of a part are read back. -/
theorem Checksums.foldlM_elements (c : Checksums) {part : UploadedPart}
    (hpart : part.checksums = {}) :
    c.elements.foldlM (Decoder.fill UploadedPart.fields) part =
      some { part with checksums := c } := by
  obtain ⟨partNumber, lastModified, eTag, size, checksums⟩ := part
  obtain rfl : checksums = {} := hpart
  have h₁ : (Element.optional "ChecksumCRC32" c.crc32).foldlM (Decoder.fill UploadedPart.fields)
      ⟨partNumber, lastModified, eTag, size, {}⟩ =
        some ⟨partNumber, lastModified, eTag, size, { crc32 := c.crc32 }⟩ :=
    UploadedPart.foldlM_checksum _ .crc32 _ rfl
  have h₂ : (Element.optional "ChecksumCRC32C" c.crc32c).foldlM (Decoder.fill UploadedPart.fields)
      ⟨partNumber, lastModified, eTag, size, { crc32 := c.crc32 }⟩ =
        some ⟨partNumber, lastModified, eTag, size, { crc32 := c.crc32, crc32c := c.crc32c }⟩ :=
    UploadedPart.foldlM_checksum _ .crc32c _ rfl
  have h₃ : (Element.optional "ChecksumSHA1" c.sha1).foldlM (Decoder.fill UploadedPart.fields)
      ⟨partNumber, lastModified, eTag, size, { crc32 := c.crc32, crc32c := c.crc32c }⟩ =
        some ⟨partNumber, lastModified, eTag, size, { c with sha256 := "", crc64nvme := "" }⟩ :=
    UploadedPart.foldlM_checksum _ .sha1 _ rfl
  have h₄ : (Element.optional "ChecksumSHA256" c.sha256).foldlM (Decoder.fill UploadedPart.fields)
      ⟨partNumber, lastModified, eTag, size, { c with sha256 := "", crc64nvme := "" }⟩ =
        some ⟨partNumber, lastModified, eTag, size, { c with crc64nvme := "" }⟩ :=
    UploadedPart.foldlM_checksum _ .sha256 _ rfl
  have h₅ : (Element.optional "ChecksumCRC64NVME" c.crc64nvme).foldlM
      (Decoder.fill UploadedPart.fields)
      ⟨partNumber, lastModified, eTag, size, { c with crc64nvme := "" }⟩ =
        some ⟨partNumber, lastModified, eTag, size, c⟩ :=
    UploadedPart.foldlM_checksum _ .crc64nvme _ rfl
  rw [elements, List.append_assoc, List.append_assoc, List.append_assoc,
    foldlM_append_of_eq_some h₁, foldlM_append_of_eq_some h₂, foldlM_append_of_eq_some h₃,
    foldlM_append_of_eq_some h₄, h₅]

theorem SubmittedPart.ofElement_node (part : SubmittedPart) :
    Decoder.uploadedPart.ofElement (.node "Part" (Body.elements part)) = some part.uploaded := by
  have hfind : Field.find? UploadedPart.fields "PartNumber" =
      some (Decoder.int32.map fun partNumber part => { part with partNumber }) := rfl
  have hnumber : Decoder.fill UploadedPart.fields {}
      (.leaf "PartNumber" (Numeral.decimal part.partNumber.toInt)) =
        some { partNumber := part.partNumber } :=
    Decoder.fill_eq_some hfind (ofElement_int32 _ _) rfl
  have htag : Decoder.fill UploadedPart.fields { partNumber := part.partNumber }
      (.leaf "ETag" part.eTag) = some { partNumber := part.partNumber, eTag := part.eTag } := rfl
  rw [Decoder.uploadedPart, ofElement_record]
  show (Element.leaf _ _ :: .leaf _ _ :: part.checksums.elements).foldlM
    (Decoder.fill UploadedPart.fields) {} = _
  rw [foldlM_cons_of_eq_some hnumber, foldlM_cons_of_eq_some htag]
  exact part.checksums.foldlM_elements rfl

theorem CompletionRequest.ofElement_node (request : CompletionRequest) :
    Decoder.partListing.ofElement (.node "CompleteMultipartUpload" (Body.elements request)) =
      some { parts := request.parts.map SubmittedPart.uploaded } := by
  rw [Decoder.partListing, ofElement_record]
  have hfind : Field.find? PartListing.fields "Part" =
      some (Decoder.uploadedPart.map fun part listing =>
        { listing with parts := listing.parts ++ [part] }) := rfl
  have hfill : ∀ part ∈ request.parts, ∀ before : List UploadedPart,
      Decoder.fill PartListing.fields { parts := before } (.node "Part" (Body.elements part)) =
        some { parts := before ++ [part.uploaded] } := by
    intro part _ before
    exact Decoder.fill_eq_some hfind part.ofElement_node rfl
  exact Decoder.foldlM_push hfill []

/-- A request to complete an upload, read as a listing of parts, lists the parts of the request and
holds nothing else. -/
theorem CompletionRequest.partListing_decode_encode (request : CompletionRequest)
    (encoding : Settings) {decoding : Settings} (htrim : decoding.trimText = false) :
    Decoder.partListing.decode decoding (Utf8.encode (encode encoding request)) =
      .ok { parts := request.parts.map SubmittedPart.uploaded } :=
  Decoder.partListing.decode_encodeAs htrim encoding request.named request.ofElement_node

/-- White space and markup in a tag are kept, even if the document is indented and has an XML
declaration. -/
theorem CompletionRequest.partListing_decode_encode_indented :
    Decoder.partListing.decode { checkEndNames := false }
        (Utf8.encode (encode { indent := 2, writeDeclaration := true }
          ({ parts := [{ partNumber := -1, eTag := " a<&>\n" }] } : CompletionRequest))) =
      .ok { parts := [{ partNumber := -1, eTag := " a<&>\n" }] } :=
  CompletionRequest.partListing_decode_encode { parts := [{ partNumber := -1, eTag := " a<&>\n" }] }
    { indent := 2, writeDeclaration := true } rfl

end BucketWire

import BucketWire.Proofs.Request.Completion

/-!
# Completing an upload with its listed parts

A client lists the parts of an upload and submits them to complete it, each with the one checksum
that a spec means. What the spec says of a part survives this: the listed part, the submitted part
and the part that is read from the request have the same checksum for the spec, and the same digest
or the same reason why there is none. No other checksum is submitted.

## Main definitions

* `Checksums.Agree` — two records say the same for a spec
* `Checksums.HoldsOnly` — a record has no checksum but the one that a spec means
* `UploadedPart.Resubmitted` — what becomes of a listed part

## Main results

* `CompletionRequest.exists_resubmitted` — what becomes of the parts of a listing
-/

namespace BucketWire

variable {spec : Spec}

/-! ### The checksum that a spec means -/

namespace Checksums

variable {c c' : Checksums}

/-- Two records have the same checksum for `spec`, and the same digest or the same reason why there
is none. -/
structure Agree (spec : Spec) (c c' : Checksums) : Prop where
  select_eq : c.select spec = c'.select spec
  raw_eq : c.raw spec = c'.raw spec

/-- The digest for a spec depends on the checksum that the spec means alone. -/
theorem agree_of_select_eq (h : c.select spec = c'.select spec) : Agree spec c c' :=
  ⟨h, by rw [raw, raw, h]⟩

/-- A record has no checksum of a family other than the one that `spec` means. -/
def HoldsOnly (spec : Spec) (c : Checksums) : Prop :=
  ∀ algorithm, spec.family? ≠ some algorithm → c.get algorithm = ""

theorem get_empty (algorithm : Algorithm) : ({} : Checksums).get algorithm = "" := by
  cases algorithm <;> rfl

end Checksums

/-! ### Submitted parts -/

namespace SubmittedPart

variable (spec : Spec) (part : UploadedPart)

/-- A part is submitted with the checksum that the spec means. -/
theorem select_ofUploaded :
    (ofUploaded (some spec) part).checksums.select spec = part.checksums.select spec := by
  rw [Checksums.select, Checksums.select]
  cases hfamily : spec.family? with
  | none => rfl
  | some algorithm => simp [ofUploaded, hfamily, Checksums.get_set]

/-- A part is submitted without any other checksum. -/
theorem holdsOnly_ofUploaded :
    Checksums.HoldsOnly spec (ofUploaded (some spec) part).checksums := by
  intro other hother
  cases hfamily : spec.family? with
  | none => simp [ofUploaded, hfamily, Checksums.get_empty]
  | some algorithm =>
    have hne : other ≠ algorithm := fun heq => hother (by rw [hfamily, heq])
    simp [ofUploaded, hfamily, Checksums.get_set, hne, Checksums.get_empty]

end SubmittedPart

/-! ### From the listing to the request and back -/

/-- The listed part `part` is submitted as `submitted` and read from the request as `reread`: number
and tag stay the same, all three say the same for `spec`, and what is submitted and read again has
no other checksum. -/
structure UploadedPart.Resubmitted (spec : Spec) (part : UploadedPart) (submitted : SubmittedPart)
    (reread : UploadedPart) : Prop where
  partNumber_submitted : submitted.partNumber = part.partNumber
  eTag_submitted : submitted.eTag = part.eTag
  agree_submitted : Checksums.Agree spec part.checksums submitted.checksums
  holdsOnly_submitted : Checksums.HoldsOnly spec submitted.checksums
  partNumber_reread : reread.partNumber = part.partNumber
  eTag_reread : reread.eTag = part.eTag
  agree_reread : Checksums.Agree spec part.checksums reread.checksums
  holdsOnly_reread : Checksums.HoldsOnly spec reread.checksums

theorem UploadedPart.resubmitted (spec : Spec) (part : UploadedPart) :
    part.Resubmitted spec (.ofUploaded (some spec) part)
      (SubmittedPart.ofUploaded (some spec) part).uploaded := by
  have hagree : Checksums.Agree spec part.checksums
      (SubmittedPart.ofUploaded (some spec) part).checksums :=
    Checksums.agree_of_select_eq (SubmittedPart.select_ofUploaded spec part).symm
  have honly := SubmittedPart.holdsOnly_ofUploaded spec part
  exact ⟨rfl, rfl, hagree, honly, rfl, rfl, hagree, honly⟩

/-- The request that completes an upload with its listed parts is read as a listing of as many
parts, in the same order, and what the spec says of each part survives. This holds of any listing,
from whichever document and with whichever settings it was decoded. -/
theorem CompletionRequest.exists_resubmitted (listing : PartListing) (spec : Spec)
    (encoding : Settings) :
    ∃ reread : PartListing,
      Decoder.partListing.decode {}
          (Utf8.encode (encode encoding (ofListing (some spec) listing))) = .ok reread ∧
        (ofListing (some spec) listing).parts.length = listing.parts.length ∧
        reread.parts.length = listing.parts.length ∧
        ∀ (i : Nat) (part : UploadedPart), listing.parts[i]? = some part →
          ∃ submitted part', (ofListing (some spec) listing).parts[i]? = some submitted ∧
            reread.parts[i]? = some part' ∧ part.Resubmitted spec submitted part' := by
  have hparts : (ofListing (some spec) listing).parts =
      listing.parts.map (SubmittedPart.ofUploaded (some spec)) := rfl
  refine ⟨{ parts := (ofListing (some spec) listing).parts.map SubmittedPart.uploaded },
    Decoder.partListing.decode_encodeAs rfl encoding (ofListing (some spec) listing).named
      (ofListing (some spec) listing).ofElement_node, ?_, ?_, ?_⟩
  · rw [hparts, List.length_map]
  · rw [List.length_map, hparts, List.length_map]
  · intro i part hpart
    have hsubmitted : (ofListing (some spec) listing).parts[i]? =
        some (SubmittedPart.ofUploaded (some spec) part) := by
      rw [hparts, List.getElem?_map, hpart, Option.map_some]
    refine ⟨_, _, hsubmitted, ?_, part.resubmitted spec⟩
    rw [List.getElem?_map, hsubmitted, Option.map_some]

end BucketWire

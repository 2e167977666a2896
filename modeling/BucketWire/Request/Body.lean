import BucketWire.Checksum.Access
import BucketWire.Record.Upload

/-!
# Requests

What a client sends: where a bucket is made, which objects are deleted, and of which parts an
upload is made up.

## Main definitions

* `BucketCreation` — where a bucket is made
* `DeletionTarget`, `DeletionRequest` — which objects are deleted
* `SubmittedPart`, `CompletionRequest` — of which parts an upload is made up
* `CompletionRequest.ofListing` — the completion of an upload with all parts that were listed
-/

namespace BucketWire

/-- The wish to make a bucket. -/
structure BucketCreation where
  location : String := ""
  deriving DecidableEq, Repr

/-- An object to be deleted; without a version, the current one. -/
structure DeletionTarget where
  key : String := ""
  versionId : String := ""
  deriving DecidableEq, Repr

/-- The wish to delete several objects. -/
structure DeletionRequest where
  /-- Only failures are to be reported. -/
  quiet : Bool := false
  objects : List DeletionTarget := []
  deriving DecidableEq, Repr

/-- A part that an upload is to be made up of. -/
structure SubmittedPart where
  partNumber : Int32 := 0
  eTag : String := ""
  checksums : Checksums := {}
  deriving DecidableEq

/-- The wish to complete an upload, with its parts in ascending order of their numbers. -/
structure CompletionRequest where
  parts : List SubmittedPart := []
  deriving DecidableEq

/-- The part `part` as it is submitted: with the one checksum that `spec` means, if it is given. -/
def SubmittedPart.ofUploaded (spec : Option Spec) (part : UploadedPart) : SubmittedPart where
  partNumber := part.partNumber
  eTag := part.eTag
  checksums :=
    match spec.bind fun spec => spec.family? with
    | some algorithm => Checksums.set {} algorithm (part.checksums.get algorithm)
    | none => {}

/-- The completion of an upload with all parts that were listed. -/
def CompletionRequest.ofListing (spec : Option Spec) (listing : PartListing) :
    CompletionRequest where
  parts := listing.parts.map (SubmittedPart.ofUploaded spec)

end BucketWire

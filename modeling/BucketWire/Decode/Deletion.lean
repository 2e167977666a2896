import BucketWire.Decode.Shared
import BucketWire.Record.Deletion

/-!
# Decoding reports of deletions

## Main definitions

* `Decoder.deletion`, `Decoder.failedDeletion`, `Decoder.deletionReport` — decoders of these
  records
-/

namespace BucketWire

open Decoder (text)

/-- The fields of a deletion. -/
def Deletion.fields : List (Field Deletion) :=
  [.store "Key" text fun key deletion => { deletion with key },
    .store "VersionId" text fun versionId deletion => { deletion with versionId },
    .store "DeleteMarker" Decoder.boolean fun deleteMarker deletion =>
      { deletion with deleteMarker },
    .store "DeleteMarkerVersionId" text fun deleteMarkerVersionId deletion =>
      { deletion with deleteMarkerVersionId }]

/-- The fields of a failed deletion. -/
def FailedDeletion.fields : List (Field FailedDeletion) :=
  [.store "Key" text fun key failure => { failure with key },
    .store "Code" text fun code failure => { failure with code },
    .store "Message" text fun message failure => { failure with message },
    .store "VersionId" text fun versionId failure => { failure with versionId }]

namespace Decoder

/-- An object that was deleted. -/
def deletion : Decoder Deletion := record "Deleted" Deletion.fields {}

/-- An object that could not be deleted. -/
def failedDeletion : Decoder FailedDeletion := record "Error" FailedDeletion.fields {}

end Decoder

/-- The fields of a report of deletions. -/
def DeletionReport.fields : List (Field DeletionReport) :=
  [.store "Deleted" Decoder.deletion fun deletion report =>
      { report with deleted := report.deleted ++ [deletion] },
    .store "Error" Decoder.failedDeletion fun failure report =>
      { report with failed := report.failed ++ [failure] }]

namespace Decoder

/-- The outcome of deleting several objects. -/
def deletionReport : Decoder DeletionReport := record "DeleteResult" DeletionReport.fields {}

end Decoder

end BucketWire

/-!
# Reports of deletions

## Main definitions

* `Deletion` — an object that was deleted
* `FailedDeletion` — an object that was not
* `DeletionReport` — the outcome of deleting several objects
-/

namespace BucketWire

/-- An object that was deleted. -/
structure Deletion where
  key : String := ""
  versionId : String := ""
  /-- Whether a delete marker was made, or one was deleted. -/
  deleteMarker : Bool := false
  deleteMarkerVersionId : String := ""
  deriving DecidableEq, Repr

/-- An object that could not be deleted. -/
structure FailedDeletion where
  key : String := ""
  code : String := ""
  message : String := ""
  versionId : String := ""
  deriving DecidableEq, Repr

/-- The outcome of deleting several objects, each kind in the order of the document. -/
structure DeletionReport where
  deleted : List Deletion := []
  failed : List FailedDeletion := []
  deriving DecidableEq, Repr

/-- Whether everything was deleted. -/
def DeletionReport.isComplete (report : DeletionReport) : Bool := report.failed.isEmpty

end BucketWire

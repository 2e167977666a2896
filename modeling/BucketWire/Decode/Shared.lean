import BucketWire.Checksum.Access
import BucketWire.Decode.Field
import BucketWire.Decode.Scalar
import BucketWire.Record.Shared

/-!
# Decoding shared records

## Main definitions

* `Decoder.owner`, `Decoder.initiator`, `Decoder.commonPrefix`, `Decoder.erasureShape`,
  `Decoder.errorReport` — decoders of these records
* `Checksums.fields` — the fields of the checksums that a record carries
-/

namespace BucketWire

open Decoder (text)

/-- The fields of an owner or an initiator. -/
def Principal.fields : List (Field Principal) :=
  [.store "ID" text fun id principal => { principal with id },
    .store "DisplayName" text fun displayName principal => { principal with displayName }]

/-- The fields of a common prefix. -/
def CommonPrefix.fields : List (Field CommonPrefix) :=
  [.store "Prefix" text fun keyPrefix record => { record with keyPrefix }]

/-- The fields of an erasure shape. -/
def ErasureShape.fields : List (Field ErasureShape) :=
  [.store "K" Decoder.int64 fun dataBlocks shape => { shape with dataBlocks },
    .store "M" Decoder.int64 fun parityBlocks shape => { shape with parityBlocks }]

/-- The fields of an error report. -/
def ErrorReport.fields : List (Field ErrorReport) :=
  [.store "Code" text fun code report => { report with code },
    .store "Message" text fun message report => { report with message },
    .store "BucketName" text fun bucketName report => { report with bucketName },
    .store "Key" text fun key report => { report with key },
    .store "Resource" text fun resource report => { report with resource },
    .store "RequestId" text fun requestId report => { report with requestId },
    .store "HostId" text fun hostId report => { report with hostId },
    .store "Region" text fun region report => { report with region }]

/-- The field that holds the checksum of a family. -/
def Checksums.field (algorithm : Algorithm) : Field Checksums :=
  .store ("Checksum" ++ algorithm.name) text fun checksum c => c.set algorithm checksum

/-- The fields of the checksums that a record carries. -/
def Checksums.fields : List (Field Checksums) := Algorithm.probeOrder.map field

namespace Decoder

/-- The owner of something. -/
def owner : Decoder Principal := record "Owner" Principal.fields {}

/-- Who started an upload. -/
def initiator : Decoder Principal := record "Initiator" Principal.fields {}

/-- A common prefix of a listing. -/
def commonPrefix : Decoder CommonPrefix := record "CommonPrefixes" CommonPrefix.fields {}

/-- The erasure shape of an object. -/
def erasureShape : Decoder ErasureShape := record "Internal" ErasureShape.fields {}

/-- A report of an error. -/
def errorReport : Decoder ErrorReport := record "Error" ErrorReport.fields {}

end Decoder

end BucketWire

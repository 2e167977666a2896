/-!
# Checksum algorithms

The families of checksums that the store knows, whether a checksum covers a whole object or is
built from those of its parts, and what is needed of either to find a checksum in a record.

## Main definitions

* `Algorithm` — the five families
* `Algorithm.probeOrder` — the order in which families are tried
* `Algorithm.ofName?` — the family of a name, in capitals or not
* `Mode` — of the whole object or composite
* `ChecksumType` — a family and a mode
* `Spec` — which families are meant, and how long a digest is
-/

namespace BucketWire

/-- A family of checksums. -/
inductive Algorithm where
  /-- CRC-32 of IEEE 802.3. -/
  | crc32
  /-- CRC-32C, Castagnoli's. -/
  | crc32c
  /-- SHA-1. -/
  | sha1
  /-- SHA-256. -/
  | sha256
  /-- CRC-64/NVME. -/
  | crc64nvme
  deriving DecidableEq, Repr

namespace Algorithm

/-- The families in the order in which they are tried. -/
def probeOrder : List Algorithm := [crc32c, crc32, sha1, sha256, crc64nvme]

/-- The name of a family in headers and documents. -/
def name : Algorithm → String
  | crc32 => "CRC32"
  | crc32c => "CRC32C"
  | sha1 => "SHA1"
  | sha256 => "SHA256"
  | crc64nvme => "CRC64NVME"

/-- The length of a digest in bytes. -/
def rawLength : Algorithm → Nat
  | crc32 => 4
  | crc32c => 4
  | sha1 => 20
  | sha256 => 32
  | crc64nvme => 8

/-- The family whose name is exactly `text`. -/
def ofWireName? (text : String) : Option Algorithm :=
  probeOrder.find? fun algorithm => algorithm.name = text

/-- The family called `text`, in capitals or not. -/
def ofName? (text : String) : Option Algorithm := ofWireName? (text.map Char.toUpper)

/-- What is said of a name that no family has. -/
def unknownMessage (text : String) : String := "unknown checksum algorithm: " ++ text

end Algorithm

/-- What a checksum covers. -/
inductive Mode where
  /-- The checksums of the parts, one after the other. -/
  | composite
  /-- The whole object. -/
  | fullObject
  deriving DecidableEq, Repr

namespace Mode

/-- The name of a mode in documents. -/
def name : Mode → String
  | composite => "COMPOSITE"
  | fullObject => "FULL_OBJECT"

/-- The mode whose name is exactly `text`. -/
def ofWireName? (text : String) : Option Mode :=
  [composite, fullObject].find? fun mode => mode.name = text

/-- The mode called `text`; any text that is no name means a composite. -/
def ofName (text : String) : Mode := (ofWireName? text).getD composite

end Mode

/-- A family and what its checksums cover. -/
structure ChecksumType where
  algorithm : Algorithm
  mode : Mode := .composite
  deriving DecidableEq, Repr

/-- What has to be known to find a checksum in a record and to check it. -/
structure Spec where
  /-- The families that are meant. -/
  covers : Algorithm → Bool
  /-- The length of a digest in bytes. -/
  rawLength : Nat

namespace Spec

/-- The first family in the order of trying that `spec` means. -/
def family? (spec : Spec) : Option Algorithm := Algorithm.probeOrder.find? spec.covers

end Spec

/-- A single family. -/
def Algorithm.spec (algorithm : Algorithm) : Spec where
  covers other := algorithm = other
  rawLength := algorithm.rawLength

/-- The family of a checksum type, in whichever mode. -/
def ChecksumType.spec (type : ChecksumType) : Spec := type.algorithm.spec

end BucketWire

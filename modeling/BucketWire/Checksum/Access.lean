import BucketWire.Checksum.Algorithm
import BucketWire.Text.Base64

/-!
# Checksums of a record

Parts, submitted parts, versions and completed uploads carry up to five checksums in base64, one
for each family. One is chosen by a `Spec` and decoded to the digest, whose length is checked.

## Main definitions

* `Checksums` — the five texts
* `Checksums.get`, `Checksums.set` — the text of a family
* `Checksums.select` — the text that a spec means
* `Checksums.raw` — the digest that a spec means
* `ChecksumError` — why there is no digest
-/

namespace BucketWire

/-- The checksums of a record in base64; a checksum that is not given is empty. -/
structure Checksums where
  crc32 : String := ""
  crc32c : String := ""
  sha1 : String := ""
  sha256 : String := ""
  crc64nvme : String := ""
  deriving DecidableEq, Repr

/-- Why a record has no digest for a spec. -/
inductive ChecksumError where
  /-- The checksum is not given. -/
  | notSet
  /-- The checksum is no base64. -/
  | encoding (fault : Base64.Fault)
  /-- The digest has the wrong length. -/
  | lengthMismatch (expected actual : Nat)
  deriving DecidableEq, Repr

/-- The wording of an error. -/
def ChecksumError.message : ChecksumError → String
  | .notSet => "no checksum set"
  | .encoding fault => "invalid checksum encoding: " ++ fault.message
  | .lengthMismatch expected actual =>
    "checksum length mismatch: expected " ++ Numeral.decimal expected ++ " bytes, got " ++
      Numeral.decimal actual

namespace Checksums

/-- The checksum of a family. -/
def get (c : Checksums) : Algorithm → String
  | .crc32 => c.crc32
  | .crc32c => c.crc32c
  | .sha1 => c.sha1
  | .sha256 => c.sha256
  | .crc64nvme => c.crc64nvme

/-- `c` with the checksum of a family replaced. -/
def set (c : Checksums) (algorithm : Algorithm) (text : String) : Checksums :=
  match algorithm with
  | .crc32 => { c with crc32 := text }
  | .crc32c => { c with crc32c := text }
  | .sha1 => { c with sha1 := text }
  | .sha256 => { c with sha256 := text }
  | .crc64nvme => { c with crc64nvme := text }

theorem get_set (c : Checksums) (a b : Algorithm) (text : String) :
    (c.set a text).get b = if b = a then text else c.get b := by
  cases a <;> cases b <;> simp [get, set]

/-- The checksum of the first family that `spec` means, or nothing. -/
def select (c : Checksums) (spec : Spec) : String :=
  match spec.family? with
  | some algorithm => c.get algorithm
  | none => ""

/-- The digest that `spec` means. -/
def raw (c : Checksums) (spec : Spec) : Except ChecksumError Bytes :=
  if (c.select spec).isEmpty then .error .notSet
  else
    match Base64.decode (c.select spec) with
    | .error fault => .error (.encoding fault)
    | .ok digest =>
      if digest.length = spec.rawLength then .ok digest
      else .error (.lengthMismatch spec.rawLength digest.length)

end Checksums

end BucketWire

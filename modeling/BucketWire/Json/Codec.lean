import BucketWire.Checksum.Algorithm
import BucketWire.Json.Value
import BucketWire.Settings

/-!
# Settings and checksum types as JSON

Families and modes are written by their exact names, records as objects. Nothing is converted: a
field of the wrong type, or a missing one, is refused.

## Main definitions

* `Algorithm.toJson`, `Mode.toJson`, `ChecksumType.toJson`, `Settings.toJson` — writing
* `Algorithm.ofJson?`, `Mode.ofJson?`, `ChecksumType.ofJson?`, `Settings.ofJson?` — reading
-/

namespace BucketWire

/-- A family as JSON. -/
def Algorithm.toJson (algorithm : Algorithm) : Json := .string algorithm.name

/-- The family that a JSON value names. -/
def Algorithm.ofJson? (json : Json) : Option Algorithm := json.caseName?.bind ofWireName?

/-- A mode as JSON. -/
def Mode.toJson (mode : Mode) : Json := .string mode.name

/-- The mode that a JSON value names. -/
def Mode.ofJson? (json : Json) : Option Mode := json.caseName?.bind ofWireName?

/-- A checksum type as JSON. -/
def ChecksumType.toJson (type : ChecksumType) : Json :=
  .object [("algorithm", type.algorithm.toJson), ("mode", type.mode.toJson)]

/-- The checksum type that a JSON value holds. -/
def ChecksumType.ofJson? (json : Json) : Option ChecksumType :=
  match json.fields? ["algorithm", "mode"] with
  | some [algorithm, mode] => do
    return { algorithm := ← Algorithm.ofJson? algorithm, mode := ← Mode.ofJson? mode }
  | _ => none

/-- Settings as JSON. -/
def Settings.toJson (settings : Settings) : Json :=
  .object
    [("trimText", .bool settings.trimText), ("checkEndNames", .bool settings.checkEndNames),
      ("writeDeclaration", .bool settings.writeDeclaration),
      ("indent", .integer settings.indent.toNat)]

/-- The settings that a JSON value holds. -/
def Settings.ofJson? (json : Json) : Option Settings :=
  match json.fields? ["trimText", "checkEndNames", "writeDeclaration", "indent"] with
  | some [trimText, checkEndNames, writeDeclaration, indent] => do
    return {
      trimText := ← trimText.bool?
      checkEndNames := ← checkEndNames.bool?
      writeDeclaration := ← writeDeclaration.bool?
      indent := ← indent.uint64? }
  | _ => none

end BucketWire

import BucketWire.Markup.Writer
import BucketWire.Request.Body

/-!
# Encoding requests

A request is written as the elements of its fields, within a root element of its own name.

## Main definitions

* `Body` — values that are written as elements
* `Request` — values that have a root element
* `encodeAs` — the document of a value under any root
* `encode` — the document of a request
-/

namespace BucketWire

/-- Values that are written as elements within another. -/
class Body (α : Type) where
  /-- The elements of a value, in order. -/
  elements : α → List Element

/-- Values that make up a document. -/
class Request (α : Type) extends Body α where
  /-- The name of the root element. -/
  root : String

/-! ### Elements -/

/-- An element that is written only if there is a text for it. -/
def Element.optional (name text : String) : List Element :=
  if text.isEmpty then [] else [.leaf name text]

/-- How a truth value is written. -/
def truthText (b : Bool) : String := if b then "true" else "false"

/-- The elements of checksums; those that are not given are left out. -/
def Checksums.elements (c : Checksums) : List Element :=
  Element.optional "ChecksumCRC32" c.crc32 ++ Element.optional "ChecksumCRC32C" c.crc32c ++
    Element.optional "ChecksumSHA1" c.sha1 ++ Element.optional "ChecksumSHA256" c.sha256 ++
    Element.optional "ChecksumCRC64NVME" c.crc64nvme

instance : Request BucketCreation where
  elements creation := [.leaf "LocationConstraint" creation.location]
  root := "CreateBucketConfiguration"

instance : Body DeletionTarget where
  elements target :=
    .leaf "Key" target.key :: Element.optional "VersionId" target.versionId

instance : Request DeletionRequest where
  elements request :=
    .leaf "Quiet" (truthText request.quiet) ::
      request.objects.map fun target => .node "Object" (Body.elements target)
  root := "Delete"

instance : Body SubmittedPart where
  elements part :=
    .leaf "PartNumber" (Numeral.decimal part.partNumber.toInt) :: .leaf "ETag" part.eTag ::
      part.checksums.elements

instance : Request CompletionRequest where
  elements request := request.parts.map fun part => .node "Part" (Body.elements part)
  root := "CompleteMultipartUpload"

/-! ### Documents -/

/-- The attribute that puts a document into the name space of the store. -/
def namespaceAttribute : String := " xmlns=\"http://s3.amazonaws.com/doc/2006-03-01/\""

variable {α : Type}

/-- The document of `value` under the root element `root`, which is written as it is. -/
def encodeAs [Body α] (settings : Settings) (root : String) (value : α) : String :=
  let w : Writer := { indent := settings.indent.toNat }
  let w := if settings.writeDeclaration then w.declaration else w
  (((w.startTag root namespaceAttribute).elements (Body.elements value)).endTag root).output

/-- The document of a request. -/
def encode [Request α] (settings : Settings) (request : α) : String :=
  encodeAs settings (Request.root α) request

end BucketWire

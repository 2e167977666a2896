import BucketWire.Checksum.Access
import BucketWire.Checksum.Algorithm
import BucketWire.Decode.Bucket
import BucketWire.Decode.Decoder
import BucketWire.Decode.Deletion
import BucketWire.Decode.Error
import BucketWire.Decode.Field
import BucketWire.Decode.Object
import BucketWire.Decode.Reader
import BucketWire.Decode.Scalar
import BucketWire.Decode.Session
import BucketWire.Decode.Shared
import BucketWire.Decode.Upload
import BucketWire.Decode.Version
import BucketWire.Dictionary
import BucketWire.Environment
import BucketWire.Json.Codec
import BucketWire.Json.Value
import BucketWire.Markup.Ascii
import BucketWire.Markup.Cursor
import BucketWire.Markup.Escape
import BucketWire.Markup.Fault
import BucketWire.Markup.Reference
import BucketWire.Markup.Scan
import BucketWire.Markup.Tape
import BucketWire.Markup.Token
import BucketWire.Markup.Writer
import BucketWire.Proofs.Markup.Boundary
import BucketWire.Record.Bucket
import BucketWire.Record.Deletion
import BucketWire.Record.Object
import BucketWire.Record.Shared
import BucketWire.Record.Upload
import BucketWire.Record.Version
import BucketWire.Request.Body
import BucketWire.Request.Encode
import BucketWire.Settings
import BucketWire.Text.Base64
import BucketWire.Text.Blank
import BucketWire.Text.Numeral
import BucketWire.Text.Query
import BucketWire.Text.Utf8
import BucketWire.Time.Calendar
import BucketWire.Time.Digits
import BucketWire.Time.Lenient
import BucketWire.Time.Rfc3339
import BucketWire.Time.Timestamp
import BucketWire.Proofs.Markup.Walk
import BucketWire.Proofs.Decode.Extent
import BucketWire.Proofs.Decode.Truncation
import BucketWire.Proofs.Markup.Document
import BucketWire.Proofs.Markup.Layout
import BucketWire.Proofs.Decode.Layout
import BucketWire.Proofs.Decode.Table
import BucketWire.Proofs.Decode.History
import BucketWire.Proofs.Markup.Name
import BucketWire.Proofs.Markup.Reference
import BucketWire.Proofs.Markup.Remark
import BucketWire.Proofs.Markup.Tag
import BucketWire.Proofs.Markup.Printed
import BucketWire.Proofs.Markup.Segment
import BucketWire.Proofs.Markup.Spelling
import BucketWire.Proofs.Decode.Element
import BucketWire.Proofs.Text.Numeral
import BucketWire.Proofs.Decode.Scalar
import BucketWire.Proofs.Request.Completion
import BucketWire.Proofs.Time.Calendar
import BucketWire.Proofs.Time.Rfc3339
import BucketWire.Proofs.Text.Query
import BucketWire.Proofs.Decode.Dictionary
import BucketWire.Proofs.Record.Bucket
import BucketWire.Proofs.Record.Upload
import BucketWire.Proofs.Record.Object
import BucketWire.Proofs.Record.Version
import BucketWire.Proofs.Record.Kind
import BucketWire.Proofs.Markup.Root
import BucketWire.Proofs.Markup.Restyle
import BucketWire.Proofs.Decode.Text
import BucketWire.Proofs.Decode.Tree
import BucketWire.Proofs.Decode.Trim
import BucketWire.Proofs.Request.Resubmission
import BucketWire.Proofs.Request.Shape
import BucketWire.Proofs.Record.Trim
import BucketWire.Proofs.Decode.Order
import BucketWire.Proofs.Record.Order
import BucketWire.Proofs.Decode.Session
import BucketWire.Proofs.Decode.Classification
import BucketWire.Proofs.Record.Classification
import BucketWire.Proofs.Decode.Slot
import BucketWire.Proofs.Record.Container
import BucketWire.Proofs.Decode.Restyle
import BucketWire.Proofs.Record.Presentation
import BucketWire.Proofs.Markup.Mismatch
import BucketWire.Proofs.Decode.Mismatch
import BucketWire.Proofs.Text.Base64
import BucketWire.Proofs.Checksum.Access
import BucketWire.Proofs.Decode.Sibling
import BucketWire.Proofs.Record.Sibling
import BucketWire.Proofs.Record.History
import BucketWire.Proofs.Time.Agreement
import BucketWire.Proofs.Time.Denotation
import BucketWire.Proofs.Decode.Collision
import BucketWire.Proofs.Decode.Integer
import BucketWire.Proofs.Markup.Line
import BucketWire.Proofs.Decode.Exact
import BucketWire.Proofs.Decode.Halting
import BucketWire.Proofs.Environment

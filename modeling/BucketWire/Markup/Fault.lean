import BucketWire.Text.Utf8

/-!
# Faults of markup

What can be wrong with a document before anyone asks what it says.

## Main definitions

* `Construct` — the kinds of markup that have an end sign
* `Markup.Fault` — why a byte sequence cannot be read on
* `Markup.Fault.message` — its wording
-/

namespace BucketWire

namespace Markup

/-- A kind of markup that the document has to close. -/
inductive Construct where
  /-- A start tag or an end tag, `<…>`. -/
  | tag
  /-- Text in a tag between apostrophes. -/
  | apostrophes
  /-- Text in a tag between quotation marks. -/
  | quotationMarks
  /-- A comment, `<!--…-->`. -/
  | comment
  /-- A section of literal text, `<![CDATA[…]]>`. -/
  | literal
  /-- A document type, `<!DOCTYPE…>`. -/
  | documentType
  /-- A processing instruction, `<?…?>`. -/
  | instruction
  /-- The XML declaration, `<?xml…?>`. -/
  | declaration
  deriving DecidableEq, Repr

/-- How a kind of markup is called. -/
def Construct.name : Construct → String
  | .tag => "tag"
  | .apostrophes => "attribute value"
  | .quotationMarks => "attribute value"
  | .comment => "comment"
  | .literal => "CDATA"
  | .documentType => "DOCTYPE"
  | .instruction => "processing instruction"
  | .declaration => "XML declaration"

/-- The sign that closes a kind of markup. -/
def Construct.closer : Construct → String
  | .tag => ">"
  | .apostrophes => "'"
  | .quotationMarks => "\""
  | .comment => "-->"
  | .literal => "]]>"
  | .documentType => ">"
  | .instruction => "?>"
  | .declaration => "?>"

/-- Why a byte sequence cannot be read on as markup. -/
inductive Fault where
  /-- A piece of markup does not end, or starts like one kind and is none. -/
  | unclosed (construct : Construct)
  /-- After `<!` comes nothing that markup can start with. -/
  | unknownMarkup
  /-- A reference has no semicolon. -/
  | danglingReference
  /-- A document type has no name. -/
  | namelessDocumentType
  /-- An end tag names another element than the innermost open one. -/
  | mismatchedEnd (expected found : Bytes)
  /-- An end tag stands where no element is open. -/
  | unmatchedEnd (found : Bytes)
  deriving DecidableEq, Repr

/-- A name as it is shown: nothing if it is not UTF-8. -/
def shown (name : Bytes) : String :=
  match Utf8.decode name with
  | .ok text => text
  | .error _ => ""

/-- The wording of a fault. -/
def Fault.message : Fault → String
  | .unclosed construct =>
    "syntax error: " ++ construct.name ++ " not closed: `" ++ construct.closer ++
      "` not found before end of input"
  | .unknownMarkup => "syntax error: unknown or missed symbol in markup"
  | .danglingReference =>
    "ill-formed document: entity or character reference not closed: `;` not found before end of " ++
      "input"
  | .namelessDocumentType =>
    "ill-formed document: `<!DOCTYPE>` declaration does not contain a name of a document type"
  | .mismatchedEnd expected found =>
    "ill-formed document: expected `</" ++ shown expected ++ ">`, but `</" ++ shown found ++
      ">` was found"
  | .unmatchedEnd found =>
    "ill-formed document: close tag `</" ++ shown found ++ ">` does not match any open tag"

end Markup

end BucketWire

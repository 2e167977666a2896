import BucketWire.Markup.Escape
import BucketWire.Settings

/-!
# Writing elements

A writer writes one tag or text after the other. If it indents, it starts a new line before a tag
unless the tag directly follows a text, and never before the very first thing that it writes. An
empty text is a text too. So no blank ever comes to stand between the tags of a leaf, where it would
be read back as part of its text.

## Main definitions

* `Element` — an element to be written, with a text or with elements in it
* `Writer` — what has been written and how it goes on
* `Writer.declaration`, `Writer.startTag`, `Writer.text`, `Writer.endTag` — write one piece
* `Writer.element` — write an element
-/

namespace BucketWire

/-- An element to be written. -/
inductive Element where
  /-- An element with a text in it, which may be empty. -/
  | leaf (name text : String)
  /-- An element with elements in it. -/
  | node (name : String) (children : List Element)

/-- What has been written and how it goes on. -/
structure Writer where
  /-- Blanks per level; none writes everything on one line. -/
  indent : Nat
  output : String := ""
  /-- How many elements are open. -/
  depth : Nat := 0
  /-- Whether the next tag starts a new line, if there are new lines at all. -/
  breakNext : Bool := false

namespace Writer

/-- A line break and the blanks in front of a tag at `depth`. -/
def lineStart (indent depth : Nat) : String :=
  String.ofList ('\n' :: List.replicate (indent * depth) ' ')

/-- Write a tag, on a new line if one is due. -/
def tag (w : Writer) (s : String) : Writer :=
  { w with
    output :=
      if 0 < w.indent ∧ w.breakNext then w.output ++ lineStart w.indent w.depth ++ s
      else w.output ++ s
    breakNext := true }

/-- Write the XML declaration. -/
def declaration (w : Writer) : Writer := w.tag "<?xml version=\"1.0\" encoding=\"UTF-8\"?>"

/-- Write a start tag; `attributes` follow the name as they are. -/
def startTag (w : Writer) (name : String) (attributes : String) : Writer :=
  let w := w.tag ("<" ++ name ++ attributes ++ ">")
  { w with depth := w.depth + 1 }

/-- Write an end tag. -/
def endTag (w : Writer) (name : String) : Writer :=
  { w with depth := w.depth - 1 }.tag ("</" ++ name ++ ">")

/-- Write a text, which keeps the next tag on its line even if it is empty. -/
def text (w : Writer) (s : String) : Writer :=
  { w with output := w.output ++ Escape.text s, breakNext := false }

mutual

/-- Write an element. -/
def element (w : Writer) : Element → Writer
  | .leaf name text => ((w.startTag name "").text text).endTag name
  | .node name children => ((w.startTag name "").elements children).endTag name

/-- Write elements, one after the other. -/
def elements (w : Writer) : List Element → Writer
  | [] => w
  | e :: es => (w.element e).elements es

end

end Writer

end BucketWire

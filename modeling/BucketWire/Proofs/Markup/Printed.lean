import BucketWire.Request.Encode

/-!
# What a writer writes

A writer goes from one piece to the next and remembers whether a line break is due. What it writes
for an element can be said without the writer: the tags, the escaped text or the elements in
between, and a line break with blanks in front of each tag within a node. No line break stands
between the tags of a leaf.

## Main definitions

* `Element.printed`, `Element.printedAll` — what is written for elements
* `Settings.prologue` — what is written in front of the root element

## Main results

* `Writer.element_eq` — a writer writes what is printed for an element
* `encodeAs_eq` — the document of a value
-/

namespace BucketWire

/-- The line break in front of a tag at `depth`, if tags stand on lines of their own. -/
def lineBreak (indent depth : Nat) : String :=
  if 0 < indent then Writer.lineStart indent depth else ""

namespace Element

mutual

/-- What is written for an element at `depth`. -/
def printed (indent depth : Nat) : Element → String
  | .leaf name text => "<" ++ name ++ ">" ++ Escape.text text ++ ("</" ++ name ++ ">")
  | .node name children =>
    "<" ++ name ++ ">" ++ printedAll indent (depth + 1) children ++ lineBreak indent depth ++
      ("</" ++ name ++ ">")

/-- What is written for elements at `depth`, each after a line break. -/
def printedAll (indent depth : Nat) : List Element → String
  | [] => ""
  | e :: es => lineBreak indent depth ++ printed indent depth e ++ printedAll indent depth es

end

end Element

namespace Writer

/-- What is due in front of the next tag. -/
def pending (w : Writer) : String := if w.breakNext then lineBreak w.indent w.depth else ""

theorem tag_eq (w : Writer) (s : String) :
    w.tag s = { w with output := w.output ++ w.pending ++ s, breakNext := true } := by
  rw [tag, pending, lineBreak]
  by_cases hbreak : w.breakNext <;> by_cases hindent : 0 < w.indent <;> simp [hbreak, hindent]

theorem startTag_eq (w : Writer) (name attributes : String) :
    w.startTag name attributes =
      { w with
        output := w.output ++ w.pending ++ ("<" ++ name ++ attributes ++ ">")
        depth := w.depth + 1
        breakNext := true } := by
  rw [startTag, tag_eq]

theorem endTag_eq (w : Writer) (name : String) :
    w.endTag name =
      { w with
        output := w.output ++ { w with depth := w.depth - 1 }.pending ++ ("</" ++ name ++ ">")
        depth := w.depth - 1
        breakNext := true } := by
  rw [endTag, tag_eq]

mutual

/-- A writer writes what is printed for an element, after what is due in front of its first tag. -/
theorem element_eq (w : Writer) : (e : Element) →
    w.element e =
      { w with
        output := w.output ++ w.pending ++ e.printed w.indent w.depth
        breakNext := true }
  | .leaf name text => by
    rw [element, startTag_eq, Writer.text, endTag_eq, Element.printed]
    simp [pending, String.append_assoc]
  | .node name children => by
    rw [element, startTag_eq, elements_eq _ rfl children, endTag_eq, Element.printed]
    simp [pending, String.append_assoc]

/-- After a tag, a writer writes what is printed for elements. -/
theorem elements_eq (w : Writer) (h : w.breakNext = true) : (es : List Element) →
    w.elements es = { w with output := w.output ++ Element.printedAll w.indent w.depth es }
  | [] => by
    rw [elements, Element.printedAll, String.append_empty]
  | e :: es => by
    rw [elements, element_eq w e, elements_eq _ rfl es, Element.printedAll]
    simp [pending, h, String.append_assoc]

end

end Writer

/-! ### Documents -/

/-- What is written in front of the root element. -/
def Settings.prologue (settings : Settings) : String :=
  if settings.writeDeclaration then
    "<?xml version=\"1.0\" encoding=\"UTF-8\"?>" ++ lineBreak settings.indent.toNat 0
  else ""

/-- The document of a value: a root element with the elements of the value, each printed. -/
theorem encodeAs_eq {α : Type} [Body α] (settings : Settings) (root : String) (value : α) :
    encodeAs settings root value =
      settings.prologue ++ ("<" ++ root ++ namespaceAttribute ++ ">") ++
        Element.printedAll settings.indent.toNat 1 (Body.elements value) ++
        lineBreak settings.indent.toNat 0 ++ ("</" ++ root ++ ">") := by
  rw [encodeAs, Settings.prologue]
  by_cases hdeclaration : settings.writeDeclaration
  · simp only [hdeclaration, if_true, Writer.declaration, Writer.tag_eq, Writer.startTag_eq]
    rw [Writer.elements_eq _ rfl, Writer.endTag_eq]
    simp [Writer.pending, String.append_assoc]
  · simp only [hdeclaration, Writer.startTag_eq]
    rw [Writer.elements_eq _ rfl, Writer.endTag_eq]
    simp [Writer.pending, String.append_assoc]

end BucketWire

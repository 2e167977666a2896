import BucketWire.Proofs.Markup.Printed

/-!
# Documents line by line

The document of a value consists of lines: the declaration, the start tag and the end tag of every
node, and every leaf from its start tag to its end tag. Which lines they are depends on the value
alone. An indented document has a line break and blanks in front of every line but the first; a
compact one has nothing there. So it is the indented document without these breaks and blanks, and
none of them stands within a leaf.

## Main definitions

* `Line` — what is written at one depth without a break
* `Line.write` — lines, one after the other
* `Element.lines`, `Element.linesAll` — the lines of elements
* `documentLines` — the lines of a document

## Main results

* `Element.lineBreak_append_printed` — an element is printed line by line
* `encodeAs_eq_write` — the document of a value is written line by line
-/

namespace BucketWire

/-- What is written at one depth without a break in it, but for those of the text of a leaf. -/
structure Line where
  depth : Nat
  content : String
  deriving DecidableEq, Repr

namespace Line

/-- A line behind others: if lines are indented, it starts with a line break and blanks. -/
def broken (indent : Nat) (line : Line) : String :=
  if 0 < indent then
    "\n" ++ String.ofList (List.replicate (indent * line.depth) ' ') ++ line.content
  else line.content

/-- Lines, one after the other. Nothing is put in front of the first. -/
def write (indent : Nat) : List Line → String
  | [] => ""
  | first :: rest => first.content ++ String.join (rest.map (broken indent))

theorem broken_eq (indent depth : Nat) (content : String) :
    broken indent ⟨depth, content⟩ = lineBreak indent depth ++ content := by
  simp only [broken, lineBreak, Writer.lineStart]
  split
  · rw [String.ofList_cons]
    rfl
  · rw [String.empty_append]

/-- Without indentation the contents of lines follow each other. -/
theorem write_zero (lines : List Line) : write 0 lines = String.join (lines.map content) := by
  have hbroken : broken 0 = content := funext fun line => if_neg (Nat.lt_irrefl 0)
  cases lines with
  | nil => rfl
  | cons first rest => rw [write, hbroken, List.map_cons, String.join_cons]

end Line

/-! ### Lines of elements -/

namespace Element

mutual

/-- The lines of an element at `depth`. A leaf is on one line, even if its text is empty; the
elements of a node are one level deeper than its tags. -/
def lines (depth : Nat) : Element → List Line
  | .leaf name text => [⟨depth, "<" ++ name ++ ">" ++ Escape.text text ++ ("</" ++ name ++ ">")⟩]
  | .node name children =>
    ⟨depth, "<" ++ name ++ ">"⟩ ::
      (linesAll (depth + 1) children ++ [⟨depth, "</" ++ name ++ ">"⟩])

/-- The lines of elements at `depth`. -/
def linesAll (depth : Nat) : List Element → List Line
  | [] => []
  | e :: es => lines depth e ++ linesAll depth es

end

/-- A node whose text looks like a line break still has one line for each of its leaves. -/
example : lines 1 (.node "Object" [.leaf "Key" "a\n  b", .leaf "VersionId" ""]) =
    [⟨1, "<Object>"⟩, ⟨2, "<Key>a\n  b</Key>"⟩, ⟨2, "<VersionId></VersionId>"⟩,
      ⟨1, "</Object>"⟩] := by decide

mutual

/-- What is printed for an element behind others are its lines. -/
theorem lineBreak_append_printed (indent depth : Nat) : (e : Element) →
    lineBreak indent depth ++ e.printed indent depth =
      String.join ((e.lines depth).map (Line.broken indent))
  | .leaf name text => by
    simp only [printed, lines, List.map_cons, List.map_nil, Line.broken_eq, String.join_cons,
      String.join_nil, String.append_empty]
  | .node name children => by
    simp only [printed, lines, printedAll_eq_join indent (depth + 1) children, List.map_cons,
      List.map_append, List.map_nil, Line.broken_eq, String.join_cons, String.join_append,
      String.join_nil, String.append_empty, String.append_assoc]

/-- What is printed for elements are their lines. -/
theorem printedAll_eq_join (indent depth : Nat) : (es : List Element) →
    printedAll indent depth es = String.join ((linesAll depth es).map (Line.broken indent))
  | [] => rfl
  | e :: es => by
    rw [printedAll, linesAll, lineBreak_append_printed indent depth e,
      printedAll_eq_join indent depth es, List.map_append, String.join_append]

end

end Element

/-! ### Lines of documents -/

/-- The lines of a document with the root element `root`: the declaration, if there is one, and the
root with `elements` in it. The root alone has an attribute. -/
def documentLines (declaration : Bool) (root : String) (elements : List Element) : List Line :=
  (if declaration then [⟨0, "<?xml version=\"1.0\" encoding=\"UTF-8\"?>"⟩] else []) ++
    ⟨0, "<" ++ root ++ namespaceAttribute ++ ">"⟩ ::
      (Element.linesAll 1 elements ++ [⟨0, "</" ++ root ++ ">"⟩])

/-- The document of a value is written line by line. Its lines do not depend on the indentation, and
a compact document is made up of their contents alone: it is an indented one without the line breaks
and blanks in front of the lines. -/
theorem encodeAs_eq_write {α : Type} [Body α] (settings : Settings) (root : String) (value : α) :
    encodeAs settings root value =
        Line.write settings.indent.toNat
          (documentLines settings.writeDeclaration root (Body.elements value)) ∧
      encodeAs { settings with indent := 0 } root value =
        String.join
          ((documentLines settings.writeDeclaration root (Body.elements value)).map
            Line.content) := by
  have hwrite : ∀ settings : Settings, encodeAs settings root value =
      Line.write settings.indent.toNat
        (documentLines settings.writeDeclaration root (Body.elements value)) := by
    intro settings
    rw [encodeAs_eq, Settings.prologue, documentLines, Element.printedAll_eq_join]
    cases settings.writeDeclaration <;>
      simp [Line.write, Line.broken_eq, String.append_assoc]
  refine ⟨hwrite settings, ?_⟩
  rw [hwrite, ← Line.write_zero]
  rfl

end BucketWire

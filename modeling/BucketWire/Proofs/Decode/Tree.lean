import BucketWire.Proofs.Decode.Element
import BucketWire.Proofs.Markup.Root
import Mathlib.Data.List.Forall2

/-!
# The elements of what was written

What is printed for an element is one complete element, which holds nothing but what was to be
written: a leaf its text and no element, a node the elements of its children in order. Whatever the
texts are, no other element comes to stand among them. Each of the elements decodes alone.

## Main definitions

* `Child.IsLeaf` — an element holds a text and no element
* `Element.Shows` — an element holds what was to be written

## Main results

* `Element.exists_shows` — a printed element holds what was to be written
* `Decoder.decode_printed` — a printed element decodes alone
* `encodeAs_shows` — the elements of a document
-/

namespace BucketWire

open Markup (IsName IsAttributes)
open Tape (prepend)

variable {checkNames : Bool}

/-! ### What an element holds -/

/-- The element is called `name` and holds no element. Its text, read where the element stands, is
`text`, and all of the element is read with it. -/
structure Child.IsLeaf (child : Child checkNames) (name text : String) : Prop where
  name_eq : child.name = Utf8.encode name
  exists_content : ∃ pieces, child.content = pieces ++ [.close (Utf8.encode name)] ∧
    ∀ e ∈ pieces, ¬ e.IsTag
  run_text : ∀ tape, Reader.text.run false (prepend child.content tape) = .ok (text, tape)

namespace Element

mutual

/-- `child` is the element `e`, with its name, its text or the elements in it, and no others. -/
def Shows : Element → Child checkNames → Prop
  | .leaf name text, child => child.IsLeaf name text
  | .node name children, child => ∃ layout : Layout checkNames,
    layout.child = child ∧ layout.rootName = Utf8.encode name ∧ AllShow children layout.elements

/-- `shown` are the elements `es`, in the same order. -/
def AllShow : List Element → List (Child checkNames) → Prop
  | [], shown => shown = []
  | e :: es, shown => ∃ child shown', shown = child :: shown' ∧ Shows e child ∧ AllShow es shown'

end

theorem allShow_iff {es : List Element} {shown : List (Child checkNames)} :
    AllShow es shown ↔ List.Forall₂ Shows es shown := by
  induction es generalizing shown with
  | nil => rw [AllShow, List.forall₂_nil_left_iff]
  | cons e es ih =>
    rw [AllShow, List.forall₂_cons_left_iff]
    constructor
    · rintro ⟨child, shown', rfl, hchild, hshown'⟩
      exact ⟨child, shown', hchild, ih.mp hshown', rfl⟩
    · rintro ⟨child, shown', hchild, hshown', rfl⟩
      exact ⟨child, shown', rfl, hchild, ih.mpr hshown'⟩

end Element

/-! ### Printed elements -/

section Printed

variable (indent : Nat)

/-- A line break, as a stretch without a tag. -/
theorem exists_gap_lineBreak (checkNames : Bool) (depth : Nat) :
    ∃ gap : Gap checkNames, gap.bytes = Utf8.encode (lineBreak indent depth) := by
  obtain ⟨es, hwalk, hes⟩ :=
    @Cursor.exists_walk_lineBreak [] checkNames [] indent depth Token.endsText_nil
  rw [List.append_nil] at hwalk
  refine ⟨{ bytes := Utf8.encode (lineBreak indent depth), events := es
            not_isTag := hes.not_isTag, tape_eq := ?_ }, rfl⟩
  rw [hwalk.tape_eq, Cursor.tape_eq_finished rfl rfl]

/-- A printed leaf holds its text alone. -/
theorem Element.exists_isLeaf {name : String} (hname : IsName name) (text : String) (depth : Nat) :
    ∃ child : Child checkNames,
      child.bytes = Utf8.encode ((Element.leaf name text).printed indent depth) ∧
        child.IsLeaf name text := by
  have hnamed : (Element.leaf name text).Named := hname
  obtain ⟨es, hwalk, hes⟩ := @exists_walk_printed checkNames indent _ hnamed depth [] []
  rw [List.append_nil] at hwalk
  refine ⟨{ bytes := Utf8.encode ((Element.leaf name text).printed indent depth)
            name := Utf8.encode name
            content := es
            closes := hes.closes
            tape_eq := ?_ }, rfl, rfl, ?_, ?_⟩
  · rw [hwalk.tape_eq, Cursor.tape_eq_finished rfl rfl]
    rfl
  · cases hes with
    | leaf hpieces => exact ⟨_, rfl, hpieces.not_isTag⟩
  · intro tape
    exact Decoder.text.run_of_spells hnamed hes rfl tape

/-- The elements between the tags of a node, as what stands in it. -/
theorem Layout.exists_of_pieces {name attributes : String} (hname : IsName name)
    (hattributes : IsAttributes (Utf8.encode attributes)) (front : Gap checkNames)
    (pieces : List (Child checkNames × Gap checkNames)) :
    ∃ layout : Layout checkNames, layout.rootName = Utf8.encode name ∧
      layout.elements = pieces.map Prod.fst ∧
      layout.document = Utf8.encode ("<" ++ name ++ attributes ++ ">") ++
        ((front.bytes ++ pieces.flatMap fun piece => piece.1.bytes ++ piece.2.bytes) ++
          Utf8.encode ("</" ++ name ++ ">")) := by
  have hstart : Utf8.encode ("<" ++ name ++ attributes ++ ">") =
      Markup.startTag (Utf8.encode name) (Utf8.encode attributes) := by
    simp only [Utf8.encode_append, List.append_assoc]
    rfl
  have hend : Utf8.encode ("</" ++ name ++ ">") = Markup.endTag (Utf8.encode name) [] := by
    simp only [Utf8.encode_append, List.append_assoc]
    rfl
  refine ⟨{ rootTag := Utf8.encode ("<" ++ name ++ attributes ++ ">")
            rootName := Utf8.encode name
            scan_rootTag := ?_
            front
            pieces
            endTag := Utf8.encode ("</" ++ name ++ ">")
            endName := Utf8.encode name
            scan_endTag := ?_
            endName_eq := fun _ => rfl }, rfl, rfl, ?_⟩
  · have hscan := Token.scan_startTag hname.isTagName hattributes []
    rwa [List.append_nil, ← hstart] at hscan
  · have hscan := Token.scan_endTag hname.isTagName Markup.isBlanks_nil []
    rwa [List.append_nil, ← hend] at hscan
  · rw [Layout.document, List.append_assoc]

namespace Element

/-- `child` is what is printed for `e` at `depth`, and holds what was to be written. -/
def PrintedAs (depth : Nat) (e : Element) (child : Child checkNames) : Prop :=
  child.bytes = Utf8.encode (e.printed indent depth) ∧ e.Shows child

theorem allShow_of_printedAs {depth : Nat} {es : List Element} {shown : List (Child checkNames)}
    (h : List.Forall₂ (PrintedAs indent depth) es shown) : AllShow es shown :=
  allShow_iff.mpr (List.Forall₂.imp (fun _ _ h => h.2) h)

mutual

/-- A printed element holds what was to be written. -/
theorem exists_shows : (e : Element) → e.Named → ∀ depth,
    ∃ child : Child checkNames, PrintedAs indent depth e child
  | .leaf name text, hname, depth => exists_isLeaf indent hname text depth
  | .node name children, ⟨hname, hchildren⟩, depth => by
    obtain ⟨front, pieces, hbytes, hshown⟩ := exists_pieces children hchildren (depth + 1) depth
    obtain ⟨layout, hroot, helements, hdocument⟩ :=
      Layout.exists_of_pieces hname Markup.isAttributes_empty front pieces
    refine ⟨layout.child, ?_, layout, rfl, hroot, ?_⟩
    · have hprinted := encode_printed_node indent depth name children []
      rw [List.append_nil, List.append_nil] at hprinted
      rw [Layout.bytes_child, hdocument, hbytes, hprinted]
    · rw [helements]
      exact allShow_of_printedAs indent hshown

/-- Printed elements hold what was to be written, with line breaks between them. -/
theorem exists_pieces : (es : List Element) → AllNamed es → ∀ depth depth',
    ∃ (front : Gap checkNames) (pieces : List (Child checkNames × Gap checkNames)),
      (front.bytes ++ pieces.flatMap fun piece => piece.1.bytes ++ piece.2.bytes) =
          Utf8.encode (printedAll indent depth es ++ lineBreak indent depth') ∧
        List.Forall₂ (PrintedAs indent depth) es (pieces.map Prod.fst)
  | [], _, depth, depth' => by
    obtain ⟨gap, hgap⟩ := exists_gap_lineBreak indent checkNames depth'
    refine ⟨gap, [], ?_, .nil⟩
    rw [List.flatMap_nil, List.append_nil, hgap, printedAll, String.empty_append]
  | e :: es, ⟨he, hes⟩, depth, depth' => by
    obtain ⟨gap, hgap⟩ := exists_gap_lineBreak indent checkNames depth
    obtain ⟨child, hchild⟩ := exists_shows e he depth
    obtain ⟨front, pieces, hbytes, hshown⟩ := exists_pieces es hes depth depth'
    refine ⟨gap, (child, front) :: pieces, ?_, .cons hchild hshown⟩
    rw [List.flatMap_cons, List.append_assoc, hbytes, hgap, hchild.1, printedAll]
    simp only [Utf8.encode_append, List.append_assoc]

end

end Element

/-- A printed element decodes alone. -/
theorem Decoder.decode_printed {α : Type} (d : Decoder α) {settings : Settings} {e : Element}
    {a : α} (htrim : settings.trimText = false) (he : e.Named) (h : d.ofElement e = some a)
    (depth : Nat) : d.decode settings (Utf8.encode (e.printed indent depth)) = .ok a := by
  obtain ⟨es, hwalk, hes⟩ :=
    @Element.exists_walk_printed settings.checkEndNames indent e he depth [] []
  have hhead := Element.head?_printed indent depth e []
  rw [List.append_nil] at hwalk hhead
  have hbefore : ∀ e ∈ ([] : List Event), ¬ e.IsTag := by simp
  rw [← List.nil_append (Event.start _ :: es)] at hwalk
  exact d.decode_of_walk htrim hhead hwalk hbefore he hes h

end Printed

/-! ### Documents -/

/-- `document` is `root` after a prolog. It is read to its end without a fault, and there is no tag
in it but those of `root`. -/
def Layout.IsRootOf (root : Layout checkNames) (document : Bytes) : Prop :=
  ∃ prolog : Prolog checkNames, document = prolog.bytes ++ root.document ∧
    Tape.ofDocument checkNames document =
      prepend prolog.events (.event (.start root.rootName) (prepend root.content .finished))

/-- The declaration in front of a document, with the line break behind it. -/
theorem Settings.exists_prolog (settings : Settings) (checkNames : Bool) :
    ∃ prolog : Prolog checkNames, prolog.bytes = Utf8.encode settings.prologue := by
  obtain ⟨es, hwalk, hes⟩ :=
    Decoder.exists_walk_prologue settings checkNames Token.endsText_nil
  rw [List.append_nil] at hwalk
  refine ⟨{ bytes := Utf8.encode settings.prologue, events := es, not_isTag := hes
            tape_eq := ?_ }, rfl⟩
  have hunmarked : ¬ Cursor.mark <+: Utf8.encode settings.prologue := by
    have hhead := @Decoder.head?_prologue settings [Ascii.lessThan] rfl
    rintro ⟨rest, hrest⟩
    rw [← hrest, Cursor.mark, List.cons_append, List.cons_append, List.head?_cons] at hhead
    exact absurd hhead (by decide)
  rw [Tape.ofDocument, Cursor.ofDocument_of_unmarked hunmarked, hwalk.tape_eq,
    Cursor.tape_eq_finished rfl rfl]

/-- The document of a value holds the elements of the value under its root element, and nothing
else. -/
theorem encodeAs_shows {α : Type} [Body α] (settings : Settings) {root : String} (value : α)
    (hnamed : (Element.node root (Body.elements value)).Named) :
    ∃ layout : Layout checkNames, layout.rootName = Utf8.encode root ∧
      layout.IsRootOf (Utf8.encode (encodeAs settings root value)) ∧
      List.Forall₂ (Element.PrintedAs settings.indent.toNat 1) (Body.elements value)
        layout.elements := by
  obtain ⟨hroot, helements⟩ := hnamed
  obtain ⟨prolog, hprolog⟩ := settings.exists_prolog checkNames
  obtain ⟨front, pieces, hbytes, hshown⟩ :=
    @Element.exists_pieces checkNames settings.indent.toNat (Body.elements value) helements 1 0
  obtain ⟨layout, hname, hchildren, hdocument⟩ :=
    Layout.exists_of_pieces hroot Decoder.isAttributes_namespace front pieces
  have hencode : Utf8.encode (encodeAs settings root value) = prolog.bytes ++ layout.document := by
    rw [hdocument, hbytes, hprolog, encodeAs_eq]
    simp only [Utf8.encode_append, List.append_assoc]
  refine ⟨layout, hname, ⟨prolog, hencode, ?_⟩, ?_⟩
  · have htape := prolog.tape_append layout.child []
    rwa [List.append_nil, Layout.bytes_child, ← hencode, Cursor.tape_eq_finished rfl rfl] at htape
  · rwa [hchildren]

end BucketWire

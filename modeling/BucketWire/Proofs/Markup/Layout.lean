import BucketWire.Proofs.Markup.Document
import BucketWire.Proofs.Markup.Extent

/-!
# Documents laid out by their children

A document is often given by its parts: the start tag of the root element, the children of the root
with what stands between them, and the end tag. Each part is known by how it reads when it stands
alone. Put together, the parts read one after the other.

## Main definitions

* `Gap` — a stretch of a document without a tag
* `Child` — a complete element
* `Layout` — a document by its parts
* `Layout.body` — what follows the start tag of the root element
* `Layout.content` — the events of the root element

## Main results

* `Layout.tape_eq` — a document reads as its parts do, one after the other
-/

namespace BucketWire

open Event (Closes)
open Tape (prepend)

/-- A stretch of a document that holds no tag: text, literal text, references and what is no
content. -/
structure Gap (checkNames : Bool) where
  bytes : Bytes
  events : List Event
  not_isTag : ∀ e ∈ events, ¬ e.IsTag
  /-- Read alone, the stretch has these events and no fault. -/
  tape_eq : Cursor.tape { rest := bytes, checkNames } = prepend events .finished

/-- A complete element. -/
structure Child (checkNames : Bool) where
  bytes : Bytes
  /-- The full name. -/
  name : Bytes
  /-- The events after the start. -/
  content : List Event
  closes : Closes 0 content
  /-- Read alone, the element has these events and no fault. -/
  tape_eq : Cursor.tape { rest := bytes, checkNames } =
    .event (.start name) (prepend content .finished)

/-- A document that consists of a root element with children. -/
structure Layout (checkNames : Bool) where
  rootTag : Bytes
  rootName : Bytes
  scan_rootTag : Token.scan rootTag = .ok (some (.startTag rootName false, []))
  /-- What stands before the first child. -/
  front : Gap checkNames
  /-- The children, each with what stands after it. -/
  pieces : List (Child checkNames × Gap checkNames)
  endTag : Bytes
  endName : Bytes
  scan_endTag : Token.scan endTag = .ok (some (.endTag endName, []))
  endName_eq : checkNames → endName = rootName

variable {checkNames : Bool} {es : List Event} {bytes : Bytes}

namespace Cursor

/-- A stretch that leaves no element open, read within other elements and before other bytes. -/
theorem walk_of_tape_eq_finished
    (h : Cursor.tape { rest := bytes, checkNames } = prepend es .finished)
    (hpath : ∀ c', Walk { rest := bytes, checkNames } es c' → c'.path = []) (outer : List Bytes)
    {more : Bytes} (hmore : (∃ raw, es.getLast? = some (.text raw)) → Token.EndsText more) :
    Walk { rest := bytes ++ more, opened := outer, checkNames } es
      { rest := more, opened := outer, checkNames } := by
  obtain ⟨c', hwalk, hend⟩ := exists_walk_of_tape_eq h
  obtain ⟨howed, hrest⟩ := eq_nil_of_tape_eq_finished hend
  have hopened : c'.opened = [] := by simpa [path, howed] using hpath c' hwalk
  have hcheck : c'.checkNames = checkNames := hwalk.checkNames_eq
  obtain rfl : c' = { rest := [], checkNames } := by
    cases c'
    simp_all
  obtain ⟨taken, htaken, hembed⟩ := hwalk.exists_taken
  obtain rfl : bytes = taken := by simpa using htaken
  exact hembed outer more hmore

end Cursor

/-! ### Parts -/

theorem Gap.walk (gap : Gap checkNames) (outer : List Bytes) {more : Bytes}
    (hmore : Token.EndsText more) :
    Cursor.Walk { rest := gap.bytes ++ more, opened := outer, checkNames } gap.events
      { rest := more, opened := outer, checkNames } :=
  Cursor.walk_of_tape_eq_finished gap.tape_eq
    (fun _ hwalk => hwalk.path_of_not_isTag gap.not_isTag) outer fun _ => hmore

namespace Child

/-- All events of an element. -/
def events (child : Child checkNames) : List Event := .start child.name :: child.content

theorem walk (child : Child checkNames) (outer : List Bytes) (more : Bytes) :
    Cursor.Walk { rest := child.bytes ++ more, opened := outer, checkNames } child.events
      { rest := more, opened := outer, checkNames } := by
  refine Cursor.walk_of_tape_eq_finished child.tape_eq (fun c' hwalk => ?_) outer ?_
  · obtain _ | ⟨hnext, hwalk⟩ := hwalk
    rw [(hwalk.path_of_closes child.closes).1, Cursor.path_of_next_start hnext]
    rfl
  · rintro ⟨raw, hraw⟩
    obtain ⟨name, hname⟩ := child.closes.exists_getLast?
    rw [events, List.getLast?_cons, hname] at hraw
    cases hraw

/-- An element starts with a token that is no text. -/
theorem exists_scan (child : Child checkNames) : ∃ name selfClosing rest,
    Token.scan child.bytes = .ok (some (.startTag name selfClosing, rest)) := by
  have htape : Cursor.tape { rest := child.bytes, checkNames } =
      prepend [.start child.name] (prepend child.content .finished) := child.tape_eq
  obtain ⟨c', hwalk, -⟩ := Cursor.exists_walk_of_tape_eq htape
  obtain _ | ⟨hnext, -⟩ := hwalk
  obtain ⟨_, howed, -⟩ | ⟨rest, token, -, hscan, hr⟩ := Cursor.next_cases hnext
  · cases howed
  · obtain ⟨selfClosing, rfl⟩ := Cursor.eq_startTag_of_report hr
    exact ⟨_, _, _, hscan⟩

theorem bytes_ne_nil (child : Child checkNames) : child.bytes ≠ [] := by
  obtain ⟨name, selfClosing, rest, hscan⟩ := child.exists_scan
  intro h
  simp [h, Token.scan] at hscan

theorem endsText (child : Child checkNames) : Token.EndsText child.bytes := by
  obtain ⟨name, selfClosing, rest, hscan⟩ := child.exists_scan
  exact Token.endsText_of_scan hscan (by simp)

/-- An element that is a document of its own. -/
theorem ofDocument_bytes (child : Child checkNames) :
    Tape.ofDocument checkNames child.bytes =
      .event (.start child.name) (prepend child.content .finished) := by
  obtain ⟨name, selfClosing, rest, hscan⟩ := child.exists_scan
  rw [Tape.ofDocument, Cursor.ofDocument_of_lessThan (Token.head?_of_scan_startTag hscan),
    child.tape_eq]

end Child

/-! ### Documents -/

namespace Layout

variable (layout : Layout checkNames)

/-- The children of the root element. -/
def elements : List (Child checkNames) := layout.pieces.map Prod.fst

/-- The bytes of the document. -/
def document : Bytes :=
  layout.rootTag ++ (layout.front.bytes ++
    ((layout.pieces.flatMap fun piece => piece.1.bytes ++ piece.2.bytes) ++ layout.endTag))

/-- What follows the start tag: the children with what stands between them, and the end tag. -/
def body : Bytes :=
  layout.front.bytes ++
    ((layout.pieces.flatMap fun piece => piece.1.bytes ++ piece.2.bytes) ++ layout.endTag)

theorem document_eq : layout.document = layout.rootTag ++ layout.body := rfl

/-- The events of the root element after its start. -/
def content : List Event :=
  layout.front.events ++
    ((layout.pieces.flatMap fun piece => piece.1.events ++ piece.2.events) ++
      [.close layout.endName])

theorem endsText_endTag : Token.EndsText layout.endTag :=
  Token.endsText_of_scan layout.scan_endTag (by simp)

/-- What follows a gap starts with a tag. -/
theorem endsText_pieces (pieces : List (Child checkNames × Gap checkNames)) {more : Bytes}
    (hmore : Token.EndsText more) :
    Token.EndsText ((pieces.flatMap fun piece => piece.1.bytes ++ piece.2.bytes) ++ more) := by
  cases pieces with
  | nil => exact hmore
  | cons piece pieces =>
    rw [List.flatMap_cons, List.append_assoc, List.append_assoc]
    exact piece.1.endsText.append piece.1.bytes_ne_nil _

theorem walk_pieces (pieces : List (Child checkNames × Gap checkNames)) (outer : List Bytes)
    {more : Bytes} (hmore : Token.EndsText more) :
    Cursor.Walk
      { rest := (pieces.flatMap fun piece => piece.1.bytes ++ piece.2.bytes) ++ more,
        opened := outer, checkNames }
      (pieces.flatMap fun piece => piece.1.events ++ piece.2.events)
      { rest := more, opened := outer, checkNames } := by
  induction pieces with
  | nil => exact .refl _
  | cons piece pieces ih =>
    have htail := endsText_pieces pieces hmore
    rw [List.flatMap_cons, List.flatMap_cons, List.append_assoc, List.append_assoc,
      List.append_assoc]
    exact (piece.1.walk outer _).trans ((piece.2.walk outer htail).trans ih)

theorem head?_document : layout.document.head? = some Ascii.lessThan := by
  have hhead := Token.head?_of_scan_startTag layout.scan_rootTag
  rw [document, List.head?_append, hhead]
  rfl

/-- After the start tag the root element is open, in whatever elements it stands. -/
theorem next_document (outer : List Bytes) (more : Bytes) :
    ({ rest := layout.document ++ more, opened := outer, checkNames } : Cursor).next =
      .ok (some (.start layout.rootName,
        { rest := layout.body ++ more, opened := layout.rootName :: outer, checkNames })) := by
  obtain ⟨rootTag, heq, hscan⟩ := Token.stopsAt_scan layout.scan_rootTag (by simp)
  obtain rfl : layout.rootTag = rootTag := by simpa using heq
  rw [document_eq, List.append_assoc, Cursor.next_of_scan rfl (hscan _)]
  rfl

/-- The end tag closes the root element. -/
theorem next_endTag :
    ({ rest := layout.endTag, opened := [layout.rootName], checkNames } : Cursor).next =
      .ok (some (.close layout.endName, { rest := [], checkNames })) := by
  rw [Cursor.next_of_scan rfl layout.scan_endTag, Cursor.report,
    Cursor.close_of_opened rfl layout.endName_eq]
  rfl

/-- A document reads as its parts do, one after the other. -/
theorem tape_eq : Tape.ofDocument checkNames layout.document =
    .event (.start layout.rootName) (prepend layout.content .finished) := by
  have hroot : Cursor.Walk { rest := layout.document, checkNames } [.start layout.rootName]
      { rest := layout.body, opened := [layout.rootName], checkNames } := by
    have hnext := layout.next_document [] []
    rw [List.append_nil, List.append_nil] at hnext
    exact .single hnext
  have hfront := layout.front.walk [layout.rootName]
    (endsText_pieces layout.pieces layout.endsText_endTag)
  have hpieces := walk_pieces layout.pieces [layout.rootName] layout.endsText_endTag
  have hend : Cursor.Walk _ [.close layout.endName] _ := .single layout.next_endTag
  have hwalk := hroot.trans (hfront.trans (hpieces.trans hend))
  rw [Tape.ofDocument, Cursor.ofDocument_of_lessThan layout.head?_document, hwalk.tape_eq,
    Cursor.tape_eq_finished rfl rfl]
  rfl

/-- A root element with two children, the second one without content, and a remark between them. -/
example : ∃ layout : Layout true,
    layout.document = Utf8.encode "<A><B><C>x</C></B><!-- --><D/></A>" ∧
      layout.elements.map Child.name = [Utf8.encode "B", Utf8.encode "D"] := by
  let first : Child true :=
    { bytes := Utf8.encode "<B><C>x</C></B>"
      name := Utf8.encode "B"
      content := [.start (Utf8.encode "C"), .text (Utf8.encode "x"), .close (Utf8.encode "C"),
        .close (Utf8.encode "B")]
      closes := .enter _ (.stay id (.leave _ (.last _)))
      tape_eq := by decide +kernel }
  let second : Child true :=
    { bytes := Utf8.encode "<D/>"
      name := Utf8.encode "D"
      content := [.close (Utf8.encode "D")]
      closes := .last _
      tape_eq := by decide +kernel }
  let remark : Gap true :=
    { bytes := Utf8.encode "<!-- -->"
      events := [.remark]
      not_isTag := by simp [Event.IsTag]
      tape_eq := by decide +kernel }
  let nothing : Gap true :=
    { bytes := [], events := [], not_isTag := by simp, tape_eq := by decide +kernel }
  let layout : Layout true :=
    { rootTag := Utf8.encode "<A>"
      rootName := Utf8.encode "A"
      scan_rootTag := by decide +kernel
      front := nothing
      pieces := [(first, remark), (second, nothing)]
      endTag := Utf8.encode "</A>"
      endName := Utf8.encode "A"
      scan_endTag := by decide +kernel
      endName_eq := fun _ => rfl }
  exact ⟨layout, by decide +kernel, rfl⟩

end Layout

end BucketWire

import BucketWire.Proofs.Markup.Layout

/-!
# The root element of a document

Before the root element of a document stands what holds no tag, perhaps after a byte order mark, and
anything may stand behind it. The root element reads as it does alone.

## Main definitions

* `Prolog` — what stands before the root element
* `Layout.child` — a document that is laid out by its children, as an element

## Main results

* `Prolog.tape_append` — a document reads as its prolog, its root element and the rest
* `Layout.tape_body` — the body of an element reads as its parts do, wherever the element stands
-/

namespace BucketWire

open Event (Closes)
open Tape (prepend)

/-- What stands before the root element of a document: no tag, and perhaps a byte order mark in
front. -/
structure Prolog (checkNames : Bool) where
  bytes : Bytes
  events : List Event
  not_isTag : ∀ e ∈ events, ¬ e.IsTag
  /-- Read alone, the prolog has these events and no fault. -/
  tape_eq : Tape.ofDocument checkNames bytes = prepend events .finished

variable {checkNames : Bool}

/-! ### Documents by their root element -/

/-- A sign of markup behind some bytes does not make them start with a mark. -/
theorem Cursor.not_mark_prefix_append {bytes more : Bytes} (h : ¬ mark <+: bytes)
    (hmore : more.head? = some Ascii.lessThan) : ¬ mark <+: bytes ++ more := by
  intro hmark
  rcases List.prefix_or_prefix_of_prefix hmark (List.prefix_append bytes more) with hle | ⟨t, ht⟩
  · exact h hle
  · cases t with
    | nil => exact h ⟨[], by rw [List.append_nil, ← ht, List.append_nil]⟩
    | cons b t =>
      -- The sign would be part of the mark.
      rw [← ht, List.prefix_append_right_inj] at hmark
      obtain ⟨rest, rfl⟩ := hmark
      obtain rfl : b = Ascii.lessThan := by simpa using hmore
      have hmem : Ascii.lessThan ∈ mark := by simp [← ht]
      exact absurd hmem (by decide)

namespace Prolog

variable (prolog : Prolog checkNames)

/-- A prolog is read in front of a sign of markup. -/
theorem walk {more : Bytes} (hmore : more.head? = some Ascii.lessThan) :
    Cursor.Walk (Cursor.ofDocument checkNames (prolog.bytes ++ more)) prolog.events
      { rest := more, checkNames } := by
  have htape := prolog.tape_eq
  by_cases hmark : Cursor.mark <+: prolog.bytes
  · obtain ⟨rest, hrest⟩ := hmark
    rw [Tape.ofDocument, ← hrest, Cursor.ofDocument_mark_append] at htape
    rw [← hrest, List.append_assoc, Cursor.ofDocument_mark_append]
    exact Cursor.walk_of_tape_eq_finished htape
      (fun _ hwalk => hwalk.path_of_not_isTag prolog.not_isTag) []
      fun _ => Token.endsText_of_lessThan hmore
  · rw [Tape.ofDocument, Cursor.ofDocument_of_unmarked hmark] at htape
    rw [Cursor.ofDocument_of_unmarked (Cursor.not_mark_prefix_append hmark hmore)]
    exact Cursor.walk_of_tape_eq_finished htape
      (fun _ hwalk => hwalk.path_of_not_isTag prolog.not_isTag) []
      fun _ => Token.endsText_of_lessThan hmore

/-- A document reads as its prolog, its root element and the rest. -/
theorem tape_append (root : Child checkNames) (epilog : Bytes) :
    Tape.ofDocument checkNames (prolog.bytes ++ (root.bytes ++ epilog)) =
      prepend prolog.events (.event (.start root.name) (prepend root.content
        (Cursor.tape { rest := epilog, checkNames }))) := by
  obtain ⟨name, selfClosing, rest, hscan⟩ := root.exists_scan
  have hhead : (root.bytes ++ epilog).head? = some Ascii.lessThan := by
    rw [List.head?_append, Token.head?_of_scan_startTag hscan]
    rfl
  rw [Tape.ofDocument, ((prolog.walk hhead).trans (root.walk [] epilog)).tape_eq,
    Tape.prepend_append]
  rfl

end Prolog

/-! ### Elements by their children -/

namespace Layout

variable (layout : Layout checkNames)

theorem closes_pieces (pieces : List (Child checkNames × Gap checkNames)) :
    Closes 0 ((pieces.flatMap fun piece => piece.1.events ++ piece.2.events) ++
      [.close layout.endName]) := by
  induction pieces with
  | nil => exact .last _
  | cons piece pieces ih =>
    have hinner := piece.1.closes.append (Closes.gap_append piece.2.not_isTag ih)
    rw [List.flatMap_cons, List.append_assoc, List.append_assoc]
    exact .enter _ hinner

theorem closes_content : Closes 0 layout.content :=
  Closes.gap_append layout.front.not_isTag (layout.closes_pieces layout.pieces)

/-- An element by its children, as a complete element. -/
def child : Child checkNames where
  bytes := layout.document
  name := layout.rootName
  content := layout.content
  closes := layout.closes_content
  tape_eq := by
    rw [← layout.tape_eq, Tape.ofDocument, Cursor.ofDocument_of_lessThan layout.head?_document]

@[simp] theorem bytes_child : layout.child.bytes = layout.document := rfl

/-- The body of an element reads as its parts do, wherever the element stands. -/
theorem tape_body (outer : List Bytes) (more : Bytes) :
    Cursor.tape
        { rest := layout.body ++ more, opened := layout.rootName :: outer, checkNames } =
      prepend layout.content (Cursor.tape { rest := more, opened := outer, checkNames }) := by
  have hstart : Cursor.Walk { rest := layout.document ++ more, opened := outer, checkNames }
      [.start layout.rootName] _ := .single (layout.next_document outer more)
  have helement : Cursor.Walk { rest := layout.document ++ more, opened := outer, checkNames }
      (.start layout.rootName :: layout.content) { rest := more, opened := outer, checkNames } :=
    layout.child.walk outer more
  have htape := hstart.tape_eq.symm.trans helement.tape_eq
  simpa using htape

end Layout

end BucketWire

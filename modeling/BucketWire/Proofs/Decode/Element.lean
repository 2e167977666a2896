import BucketWire.Proofs.Decode.Layout
import BucketWire.Proofs.Markup.Spelling

/-!
# Decoding elements that were written

What a decoder makes of an element that was written can be said without events: a text is the text
of a leaf, and a record is changed by the elements of a node, one after the other. So to show that a
record is read back from its document it is enough to look at its elements.

## Main definitions

* `Decoder.ofElement` — what a decoder makes of an element

## Main results

* `Decoder.run_of_spells` — a decoder makes the same of the events of an element
* `Decoder.decode_encodeAs` — decoding what was written
-/

namespace BucketWire

open Event (Closes Pieces)
open Markup (IsName)
open Tape (prepend)

namespace Decoder

variable {α β σ : Type}

/-- What a decoder that does not trim makes of an element. Nothing is said of the text of a node,
which depends on line breaks. -/
def ofElement : {α : Type} → Decoder α → Element → Option α
  | _, .text, .leaf _ s => some s
  | _, .text, .node _ _ => none
  | _, .skip, _ => some ()
  | _, .unrecognized _, _ => none
  | _, .refine f d, e => (d.ofElement e).bind fun a => (f a).toOption
  | _, .children _ _ zero, .leaf _ _ => some zero
  | _, .children _ child zero, .node _ es =>
    es.foldlM (fun acc e => ((child e.name).ofElement e).map fun change => change acc) zero

end Decoder

/-! ### Events of elements -/

namespace Reader

variable {depth : Nat} {es : List Event} {s : String}

theorem readText_pieces (h : Pieces es s) (before : String) (depth : Nat) (tape : Tape) :
    readText before depth (prepend es tape) = readText (before ++ s) depth tape := by
  induction h generalizing before with
  | nil => rw [Tape.prepend_nil, String.append_empty]
  | @cons e es s t he hpiece _ ih =>
    rw [Tape.prepend_cons, readText_of_not_isTag he, hpiece, ← String.append_assoc]
    exact ih (before ++ t)

end Reader

namespace Element

theorem Named.isName {e : Element} (h : e.Named) : IsName e.name := by
  cases e with
  | leaf name s => exact h
  | node name children => exact h.1

mutual

/-- The events that stand for the rest of an element close it. -/
theorem Spells.closes : {e : Element} → {es : List Event} → e.Spells es → Closes 0 es
  | _, _, .leaf hes => Closes.gap_append hes.not_isTag (.last _)
  | _, _, .node hes => hes.closes_append (.last _)

/-- After the events that stand for elements, the element around them is still open. -/
theorem SpellsAll.closes_append : {children : List Element} → {es : List Event} →
    SpellsAll children es → ∀ {es' : List Event}, Closes 0 es' → Closes 0 (es ++ es')
  | _, _, .nil hgap, es', h => Closes.gap_append hgap.not_isTag h
  | _, _, .cons hgap he hes, es', h => by
    have hinner := he.closes.append (hes.closes_append h)
    rw [List.append_assoc, List.cons_append, List.append_assoc]
    exact Closes.gap_append hgap.not_isTag (.enter _ hinner)

end

end Element

namespace Decoder

variable {α σ : Type} {a : α} {e : Element} {es : List Event}

/-! ### Decoding elements -/

/-- Elements between the start and the end of another are read one after the other. -/
theorem foldChildren_of_spellsAll {context : String} {child : String → Decoder (σ → σ)}
    (hchild : ∀ (name : String) {e : Element} {es : List Event} {change : σ → σ}, e.Named →
      e.Spells es → (child name).ofElement e = some change → ∀ tape,
        (child name).run false (prepend es tape) = .ok (change, tape))
    {children : List Element} {acc b : σ} (hes : Element.SpellsAll children es)
    (hnamed : Element.AllNamed children)
    (h : children.foldlM
      (fun acc e => ((child e.name).ofElement e).map fun change => change acc) acc = some b)
    (tape : Tape) :
    Reader.foldChildren context (fun name => (child name).reader) false acc (prepend es tape) =
      Reader.foldChildren context (fun name => (child name).reader) false b tape := by
  induction children generalizing acc es with
  | nil =>
    cases hes with
    | nil hgap =>
      obtain rfl : acc = b := by simpa using h
      rw [Reader.foldChildren_gap hgap.not_isTag]
  | cons e children ih =>
    cases hes with
    | @cons _ _ gap es es' _ hgap he hes =>
      rw [List.foldlM_cons] at h
      obtain ⟨acc', hacc', hrest⟩ := Option.bind_eq_some_iff.mp h
      obtain ⟨change, hchange, rfl⟩ := Option.map_eq_some_iff.mp hacc'
      have hrun : (Reader.ofChild (fun name => (child name).reader) (Utf8.encode e.name)).run false
          (prepend es (prepend es' tape)) = .ok (change, prepend es' tape) := by
        rw [Reader.ofChild, hnamed.1.isName.decode_localName]
        exact hchild e.name hnamed.1 he hchange _
      rw [Tape.prepend_append, Reader.foldChildren_gap hgap.not_isTag, Tape.prepend_cons,
        Tape.prepend_append, Reader.foldChildren_start, hrun]
      exact ih hes hnamed.2 hrest

/-- A decoder makes of the events of an element what it makes of the element. -/
theorem run_of_spells (d : Decoder α) (he : e.Named) (hes : e.Spells es)
    (h : d.ofElement e = some a) (tape : Tape) : d.run false (prepend es tape) = .ok (a, tape) := by
  induction d generalizing e es tape with
  | text =>
    cases hes with
    | @leaf name s es htext =>
      obtain rfl : s = a := by simpa [ofElement] using h
      show (Reader.readText "" 0 (prepend (es ++ [.close (Utf8.encode name)]) tape)).map _ = _
      rw [Tape.prepend_append, Reader.readText_pieces htext, String.empty_append]
      rfl
    | node => simp [ofElement] at h
  | skip =>
    show (Reader.skipElement 0 (prepend es tape)).map _ = _
    rw [Reader.skipElement_prepend hes.closes]
    rfl
  | unrecognized name => simp [ofElement] at h
  | refine f d ih =>
    rw [ofElement, Option.bind_eq_some_iff] at h
    obtain ⟨b, hb, hf⟩ := h
    have hrun : d.reader.run false (prepend es tape) = .ok (b, tape) := ih he hes hb tape
    rw [run, reader, Reader.refine]
    simp only [hrun]
    cases hfb : f b with
    | error fault => simp [hfb, Except.toOption] at hf
    | ok c =>
      obtain rfl : c = a := by simpa [hfb, Except.toOption] using hf
      rfl
  | children context child zero ih =>
    show Reader.foldChildren context (fun name => (child name).reader) false zero
      (prepend es tape) = _
    cases hes with
    | leaf htext =>
      obtain rfl : zero = a := by simpa [ofElement] using h
      rw [Tape.prepend_append, Reader.foldChildren_gap htext.not_isTag]
      exact Reader.foldChildren_close
    | node hes =>
      rw [ofElement] at h
      rw [Tape.prepend_append, foldChildren_of_spellsAll
        (fun name _ _ _ he hes h tape => ih name he hes h tape) hes he.2 h]
      exact Reader.foldChildren_close

/-! ### Documents -/

/-- A document whose first events are no start, and whose next ones are those of an element. -/
theorem decode_of_walk (d : Decoder α) {settings : Settings} {document : Bytes}
    {before : List Event} {name : Bytes} {c' : Cursor} (htrim : settings.trimText = false)
    (hdocument : document.head? = some Ascii.lessThan)
    (hwalk : Cursor.Walk { rest := document, checkNames := settings.checkEndNames }
      (before ++ .start name :: es) c')
    (hbefore : ∀ e ∈ before, ¬ e.IsTag) (he : e.Named) (hes : e.Spells es)
    (h : d.ofElement e = some a) : d.decode settings document = .ok a := by
  have hstart : ∀ e ∈ before, ∀ name, e ≠ .start name := by
    rintro e he name rfl
    exact hbefore _ he trivial
  have htape : Tape.ofDocument settings.checkEndNames document =
      prepend before (.event (.start name) (prepend es c'.tape)) := by
    rw [Tape.ofDocument, Cursor.ofDocument_of_lessThan hdocument, hwalk.tape_eq,
      Tape.prepend_append, Tape.prepend_cons]
  rw [decode_of_tape hstart hes.closes htape, outcome, htrim, d.run_of_spells he hes h]
  rfl

theorem isAttributes_namespace : Markup.IsAttributes (Utf8.encode namespaceAttribute) := by
  decide +kernel

theorem head?_prologue (settings : Settings) {more : Bytes}
    (hmore : more.head? = some Ascii.lessThan) :
    (Utf8.encode settings.prologue ++ more).head? = some Ascii.lessThan := by
  rw [Settings.prologue]
  split
  · rw [Utf8.encode_append, List.append_assoc]
    rfl
  · exact hmore

/-- The declaration in front of a document is no content. -/
theorem exists_walk_prologue (settings : Settings) (checkNames : Bool) {more : Bytes}
    (hmore : Token.EndsText more) :
    ∃ es, Cursor.Walk { rest := Utf8.encode settings.prologue ++ more, checkNames } es
        { rest := more, checkNames } ∧ ∀ e ∈ es, ¬ e.IsTag := by
  rw [Settings.prologue]
  split
  · have hscan : Token.scan (Utf8.encode "<?xml version=\"1.0\" encoding=\"UTF-8\"?>") =
        .ok (some (.remark, [])) := by decide
    obtain ⟨taken, heq, htaken⟩ := Token.stopsAt_scan hscan (by simp)
    obtain ⟨es, hwalk, hes⟩ :=
      @Cursor.exists_walk_lineBreak [] checkNames more settings.indent.toNat 0 hmore
    rw [List.append_nil] at heq
    have hremark : Cursor.Walk
        { rest := taken ++ (Utf8.encode (lineBreak settings.indent.toNat 0) ++ more), checkNames }
        [.remark]
        { rest := Utf8.encode (lineBreak settings.indent.toNat 0) ++ more, checkNames } := by
      refine .single ?_
      rw [Cursor.next_of_scan rfl (htaken _)]
      rfl
    rw [Utf8.encode_append, heq, List.append_assoc]
    refine ⟨_, hremark.trans hwalk, ?_⟩
    intro e he
    rcases List.mem_append.mp he with he | he
    · rw [List.mem_singleton.mp he]
      exact id
    · exact hes.not_isTag e he
  · exact ⟨[], .refl _, by simp⟩

/-- The document of a value decodes to what the decoder makes of its elements. -/
theorem decode_encodeAs {β : Type} [Body β] (d : Decoder α) {decoding : Settings}
    (htrim : decoding.trimText = false) (encoding : Settings) {root : String} {value : β}
    (he : (Element.node root (Body.elements value)).Named)
    (h : d.ofElement (.node root (Body.elements value)) = some a) :
    d.decode decoding (Utf8.encode (encodeAs encoding root value)) = .ok a := by
  have hbytes : Utf8.encode (encodeAs encoding root value) =
      Utf8.encode encoding.prologue ++ (Utf8.encode ("<" ++ root ++ namespaceAttribute ++ ">") ++
        (Utf8.encode (Element.printedAll encoding.indent.toNat 1 (Body.elements value) ++
            lineBreak encoding.indent.toNat 0) ++
          (Utf8.encode ("</" ++ root ++ ">") ++ []))) := by
    rw [encodeAs_eq]
    simp only [Utf8.encode_append, List.append_assoc, List.append_nil]
  have hroot := he.1
  have hstart := Cursor.walk_startTag [] decoding.checkEndNames hroot isAttributes_namespace
    (Utf8.encode (Element.printedAll encoding.indent.toNat 1 (Body.elements value) ++
      lineBreak encoding.indent.toNat 0) ++ (Utf8.encode ("</" ++ root ++ ">") ++ []))
  obtain ⟨es, hall, hes⟩ := @Element.exists_walk_printedAll decoding.checkEndNames
    encoding.indent.toNat (Body.elements value) he.2 1 0 [Utf8.encode root] _
    (Token.endsText_of_lessThan (Element.head?_endTag root []))
  have hend := Cursor.walk_endTag [] decoding.checkEndNames hroot []
  have hhead := Element.head?_startTag root namespaceAttribute
    (Utf8.encode (Element.printedAll encoding.indent.toNat 1 (Body.elements value) ++
      lineBreak encoding.indent.toNat 0) ++ (Utf8.encode ("</" ++ root ++ ">") ++ []))
  obtain ⟨before, hprologue, hbefore⟩ := exists_walk_prologue encoding decoding.checkEndNames
    (Token.endsText_of_lessThan hhead)
  rw [hbytes]
  exact d.decode_of_walk htrim (head?_prologue encoding hhead)
    (hprologue.trans (hstart.trans (hall.trans hend))) hbefore he (.node hes) h

end Decoder

end BucketWire

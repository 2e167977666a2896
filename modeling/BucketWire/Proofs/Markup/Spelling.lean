import BucketWire.Proofs.Markup.Extent
import BucketWire.Proofs.Markup.Tag
import BucketWire.Proofs.Markup.Printed

/-!
# Reading what was written

What is printed for an element is read as the element again: its start, the pieces of its text or
the elements in it, and its end. The pieces of a text are runs of text and references, and they add
up to the text that was escaped. Line breaks between tags are read as text between elements.

## Main definitions

* `Event.Pieces` — events that add up to a text
* `Element.Spells`, `Element.SpellsAll` — events that stand for elements

## Main results

* `Cursor.exists_walk_escaped` — an escaped text is read as pieces of the text
* `Element.exists_walk_printed` — a printed element is read as the element
-/

namespace BucketWire

open Markup (IsName)

variable {e : Event} {es es' : List Event} {s t : String}

/-! ### Pieces of text -/

namespace Event

/-- The events add up to a text. None of them is a tag. -/
inductive Pieces : List Event → String → Prop where
  | nil : Pieces [] ""
  | cons {e : Event} {es : List Event} {s t : String} :
    ¬ e.IsTag → Reader.piece e = .ok t → Pieces es s → Pieces (e :: es) (t ++ s)

theorem Pieces.single (he : ¬ e.IsTag) (h : Reader.piece e = .ok s) : Pieces [e] s := by
  have := Pieces.cons he h .nil
  rwa [String.append_empty] at this

theorem Pieces.append (h : Pieces es s) (h' : Pieces es' t) : Pieces (es ++ es') (s ++ t) := by
  induction h with
  | nil => rwa [List.nil_append, String.empty_append]
  | cons he hpiece _ ih =>
    rw [List.cons_append, String.append_assoc]
    exact .cons he hpiece ih

theorem Pieces.not_isTag (h : Pieces es s) : ∀ e ∈ es, ¬ e.IsTag := by
  induction h with
  | nil => simp
  | cons he _ _ ih =>
    intro e h
    rcases List.mem_cons.mp h with rfl | h
    · exact he
    · exact ih e h

end Event

open Event (Pieces)

/-! ### Escaped texts -/

/-- A character is written as it is, or as a reference that names it. -/
theorem Escape.char_cases (c : Char) :
    (Escape.char c = [c] ∧ c ≠ '<' ∧ c ≠ '&') ∨
      ∃ name, Escape.char c = ("&" ++ name ++ ";").toList ∧
        Token.scan (Utf8.encode ("&" ++ name ++ ";")) =
          .ok (some (.reference (Utf8.encode name), [])) ∧
        Reference.ofName name = .ok c := by
  by_cases h₁ : c = '&'
  · exact .inr ⟨"amp", by subst h₁; decide, by decide, by subst h₁; decide⟩
  by_cases h₂ : c = '<'
  · exact .inr ⟨"lt", by subst h₂; decide, by decide, by subst h₂; decide⟩
  by_cases h₃ : c = '>'
  · exact .inr ⟨"gt", by subst h₃; decide, by decide, by subst h₃; decide⟩
  by_cases h₄ : c = '\''
  · exact .inr ⟨"apos", by subst h₄; decide, by decide, by subst h₄; decide⟩
  by_cases h₅ : c = '"'
  · exact .inr ⟨"quot", by subst h₅; decide, by decide, by subst h₅; decide⟩
  · refine .inl ⟨?_, h₂, h₁⟩
    rw [Escape.char, if_neg h₁, if_neg h₂, if_neg h₃, if_neg h₄, if_neg h₅]

namespace Cursor

variable {opened : List Bytes} {checkNames : Bool} {more : Bytes}

theorem not_endsText_of_mem {cs : List Char} (hcs : ∀ c ∈ cs, c ≠ '<' ∧ c ≠ '&') {b : UInt8}
    (hb : b ∈ Utf8.encode (String.ofList cs)) : ¬ Token.endsText b := by
  intro hends
  simp only [Token.endsText, Bool.or_eq_true, decide_eq_true_eq] at hends
  rcases hends with rfl | rfl
  · have hmem := Utf8.mem_of_mem_encode hb (by decide)
    rw [String.toList_ofList] at hmem
    exact (hcs _ hmem).1 rfl
  · have hmem := Utf8.mem_of_mem_encode hb (by decide)
    rw [String.toList_ofList] at hmem
    exact (hcs _ hmem).2 rfl

/-- What is scanned as a token that is no tag is read as one event. -/
theorem walk_of_scan {bytes : Bytes} {token : Token}
    (hscan : Token.scan bytes = .ok (some (token, more)))
    (hreport : ∀ c : Cursor, c.report more token = .ok (e, { c with rest := more })) :
    Walk { rest := bytes, opened, checkNames } [e] { rest := more, opened, checkNames } := by
  refine .single ?_
  rw [next_of_scan rfl hscan, hreport]
  rfl

/-- A text without signs of markup is read as one run of text, or not at all if it is empty. -/
theorem exists_walk_text (hs : ∀ b ∈ Utf8.encode s, ¬ Token.endsText b)
    (hmore : Token.EndsText more) :
    ∃ es, Walk { rest := Utf8.encode s ++ more, opened, checkNames } es
        { rest := more, opened, checkNames } ∧ Pieces es s := by
  by_cases hempty : Utf8.encode s = []
  · obtain rfl : s = "" := Utf8.encode_inj.mp hempty
    exact ⟨[], .refl _, .nil⟩
  · have hscan : Token.scan (Utf8.encode s ++ more) = .ok (some (.text (Utf8.encode s), more)) :=
      Token.scan_eq_text_iff.mpr ⟨rfl, hempty, hs, hmore⟩
    have hpiece : Reader.piece (.text (Utf8.encode s)) = .ok s := by
      rw [Reader.piece, Utf8.decode_encode]
      rfl
    exact ⟨_, walk_of_scan hscan fun c => rfl, .single id hpiece⟩

theorem exists_walk_plain {cs : List Char} (hcs : ∀ c ∈ cs, c ≠ '<' ∧ c ≠ '&')
    (hmore : Token.EndsText more) :
    ∃ es, Walk { rest := Utf8.encode (String.ofList cs) ++ more, opened, checkNames } es
        { rest := more, opened, checkNames } ∧ Pieces es (String.ofList cs) :=
  exists_walk_text (fun _ hb => not_endsText_of_mem hcs hb) hmore

/-- A reference is read as the character that it names. -/
theorem exists_walk_reference {name : String} {c : Char}
    (hscan : Token.scan (Utf8.encode ("&" ++ name ++ ";")) =
      .ok (some (.reference (Utf8.encode name), [])))
    (hname : Reference.ofName name = .ok c) (more : Bytes) :
    ∃ es, Walk { rest := Utf8.encode ("&" ++ name ++ ";") ++ more, opened, checkNames } es
        { rest := more, opened, checkNames } ∧ Pieces es (String.singleton c) := by
  obtain ⟨taken, heq, htaken⟩ := Token.stopsAt_scan hscan (by simp)
  rw [List.append_nil] at heq
  have hpiece : Reader.piece (.reference (Utf8.encode name)) = .ok (String.singleton c) := by
    rw [Reader.piece, Reference.resolve, Utf8.decode_encode]
    simp only
    rw [hname]
    rfl
  rw [heq]
  exact ⟨_, walk_of_scan (htaken more) fun c => rfl, .single id hpiece⟩

/-- Characters that were not escaped, and characters after them that were, are read as what they
were. -/
theorem exists_walk_plain_escaped (cs : List Char) {plain : List Char}
    (hplain : ∀ c ∈ plain, c ≠ '<' ∧ c ≠ '&') (hmore : Token.EndsText more) :
    ∃ es, Walk
        { rest := Utf8.encode (String.ofList (plain ++ cs.flatMap Escape.char)) ++ more, opened,
          checkNames } es
        { rest := more, opened, checkNames } ∧ Pieces es (String.ofList (plain ++ cs)) := by
  induction cs generalizing plain with
  | nil =>
    rw [List.flatMap_nil, List.append_nil]
    exact exists_walk_plain hplain hmore
  | cons c cs ih =>
    rw [List.flatMap_cons]
    obtain ⟨hchar, hc⟩ | ⟨name, hchar, hscan, hname⟩ := Escape.char_cases c
    · -- The character goes on with the run of text before it.
      have hplain' : ∀ c' ∈ plain ++ [c], c' ≠ '<' ∧ c' ≠ '&' := by
        intro c' hc'
        rcases List.mem_append.mp hc' with hc' | hc'
        · exact hplain c' hc'
        · rw [List.mem_singleton.mp hc']
          exact hc
      have := ih hplain'
      rw [List.append_assoc, List.append_assoc, List.singleton_append] at this
      rwa [hchar]
    · -- The run of text ends before the reference.
      have hlt := Token.length_lt_of_scan hscan
      have hne : Utf8.encode ("&" ++ name ++ ";") ≠ [] := fun hnil => by simp [hnil] at hlt
      have hends : Token.EndsText (Utf8.encode ("&" ++ name ++ ";") ++
          (Utf8.encode (String.ofList (cs.flatMap Escape.char)) ++ more)) :=
        (Token.endsText_of_scan hscan (by simp)).append hne _
      obtain ⟨es₁, hwalk₁, hes₁⟩ :=
        @exists_walk_plain opened checkNames _ plain hplain hends
      obtain ⟨es₂, hwalk₂, hes₂⟩ := @exists_walk_reference opened checkNames _ _ hscan hname
        (Utf8.encode (String.ofList (cs.flatMap Escape.char)) ++ more)
      obtain ⟨es₃, hwalk₃, hes₃⟩ := @ih [] (by simp)
      have hbytes : Utf8.encode (String.ofList
            (plain ++ (("&" ++ name ++ ";").toList ++ cs.flatMap Escape.char))) ++ more =
          Utf8.encode (String.ofList plain) ++ (Utf8.encode ("&" ++ name ++ ";") ++
            (Utf8.encode (String.ofList (cs.flatMap Escape.char)) ++ more)) := by
        simp only [Utf8.encode, String.toList_ofList, List.flatMap_append, List.append_assoc]
      have htext : String.ofList (plain ++ c :: cs) =
          String.ofList plain ++ (String.singleton c ++ String.ofList cs) := by
        rw [String.singleton_eq_ofList, ← String.ofList_append, ← String.ofList_append]
        rfl
      rw [hchar, hbytes, htext]
      exact ⟨_, hwalk₁.trans (hwalk₂.trans hwalk₃), hes₁.append (hes₂.append hes₃)⟩

/-- An escaped text is read as pieces of the text. -/
theorem exists_walk_escaped (s : String) (hmore : Token.EndsText more) :
    ∃ es, Walk { rest := Utf8.encode (Escape.text s) ++ more, opened, checkNames } es
        { rest := more, opened, checkNames } ∧ Pieces es s := by
  obtain ⟨es, hwalk, hes⟩ :=
    @exists_walk_plain_escaped opened checkNames more s.toList [] (by simp) hmore
  rw [List.nil_append, String.ofList_toList] at hes
  exact ⟨es, hwalk, hes⟩

/-- A line break is read as text. -/
theorem exists_walk_lineBreak (indent depth : Nat) (hmore : Token.EndsText more) :
    ∃ es, Walk { rest := Utf8.encode (lineBreak indent depth) ++ more, opened, checkNames } es
        { rest := more, opened, checkNames } ∧ Pieces es (lineBreak indent depth) := by
  have hplain : ∀ c ∈ (lineBreak indent depth).toList, c ≠ '<' ∧ c ≠ '&' := by
    intro c hc
    rw [lineBreak] at hc
    split at hc
    · rw [Writer.lineStart, String.toList_ofList, List.mem_cons] at hc
      rcases hc with rfl | hc
      · decide
      · rw [(List.mem_replicate.mp hc).2]
        decide
    · simp at hc
  have := @exists_walk_plain opened checkNames more _ hplain hmore
  rwa [String.ofList_toList] at this

/-! ### Tags -/

theorem walk_startTag (opened : List Bytes) (checkNames : Bool) {name attributes : String}
    (hname : IsName name) (hattributes : Markup.IsAttributes (Utf8.encode attributes))
    (more : Bytes) :
    Walk { rest := Utf8.encode ("<" ++ name ++ attributes ++ ">") ++ more, opened, checkNames }
      [.start (Utf8.encode name)]
      { rest := more, opened := Utf8.encode name :: opened, checkNames } := by
  have hbytes : Utf8.encode ("<" ++ name ++ attributes ++ ">") =
      Markup.startTag (Utf8.encode name) (Utf8.encode attributes) := by
    simp only [Utf8.encode_append, List.append_assoc]
    rfl
  rw [hbytes]
  exact .single (next_startTag hname.isTagName hattributes more)

theorem walk_endTag (opened : List Bytes) (checkNames : Bool) {name : String}
    (hname : IsName name) (more : Bytes) :
    Walk { rest := Utf8.encode ("</" ++ name ++ ">") ++ more,
           opened := Utf8.encode name :: opened, checkNames }
      [.close (Utf8.encode name)] { rest := more, opened, checkNames } := by
  have hbytes : Utf8.encode ("</" ++ name ++ ">") = Markup.endTag (Utf8.encode name) [] := by
    simp only [Utf8.encode_append, List.append_assoc]
    rfl
  rw [hbytes]
  exact .single (next_endTag hname.isTagName Markup.isBlanks_nil more)

end Cursor

/-! ### Elements -/

namespace Element

/-- The name of an element. -/
def name : Element → String
  | .leaf name _ => name
  | .node name _ => name

@[simp] theorem name_leaf (name text : String) : (leaf name text).name = name := rfl

@[simp] theorem name_node (name : String) (children : List Element) :
    (node name children).name = name := rfl

mutual

/-- The element and all elements in it have proper names. -/
def Named : Element → Prop
  | .leaf name _ => IsName name
  | .node name children => IsName name ∧ AllNamed children

/-- All of the elements, and all elements in them, have proper names. -/
def AllNamed : List Element → Prop
  | [] => True
  | e :: es => e.Named ∧ AllNamed es

end

@[simp] theorem named_leaf (name text : String) : (leaf name text).Named ↔ IsName name := Iff.rfl

@[simp] theorem named_node (name : String) (children : List Element) :
    (node name children).Named ↔ IsName name ∧ AllNamed children := Iff.rfl

@[simp] theorem allNamed_nil : AllNamed [] := trivial

@[simp] theorem allNamed_cons (e : Element) (es : List Element) :
    AllNamed (e :: es) ↔ e.Named ∧ AllNamed es := Iff.rfl

@[simp] theorem allNamed_append (es es' : List Element) :
    AllNamed (es ++ es') ↔ AllNamed es ∧ AllNamed es' := by
  induction es with
  | nil => simp
  | cons e es ih => simp [ih, and_assoc]

@[simp] theorem allNamed_map {τ : Type} (element : τ → Element) (xs : List τ) :
    AllNamed (xs.map element) ↔ ∀ x ∈ xs, (element x).Named := by
  induction xs with
  | nil => simp
  | cons x xs ih => simp [ih]

mutual

/-- The events after a start stand for the rest of an element. -/
inductive Spells : Element → List Event → Prop where
  | leaf {name text : String} {es : List Event} :
    Pieces es text → Spells (.leaf name text) (es ++ [.close (Utf8.encode name)])
  | node {name : String} {children : List Element} {es : List Event} :
    SpellsAll children es → Spells (.node name children) (es ++ [.close (Utf8.encode name)])

/-- The events stand for elements, perhaps with text between them. -/
inductive SpellsAll : List Element → List Event → Prop where
  | nil {gap : List Event} {s : String} : Pieces gap s → SpellsAll [] gap
  | cons {e : Element} {children : List Element} {gap es es' : List Event} {s : String} :
    Pieces gap s → Spells e es → SpellsAll children es' →
      SpellsAll (e :: children) (gap ++ .start (Utf8.encode e.name) :: (es ++ es'))

end

section Printed

variable {checkNames : Bool} (indent : Nat)

theorem head?_startTag (name attributes : String) (more : Bytes) :
    (Utf8.encode ("<" ++ name ++ attributes ++ ">") ++ more).head? = some Ascii.lessThan := by
  simp only [Utf8.encode_append, List.append_assoc]
  rfl

theorem head?_endTag (name : String) (more : Bytes) :
    (Utf8.encode ("</" ++ name ++ ">") ++ more).head? = some Ascii.lessThan := by
  simp only [Utf8.encode_append, List.append_assoc]
  rfl

theorem encode_printed_leaf (depth : Nat) (name text : String) (more : Bytes) :
    Utf8.encode (printed indent depth (.leaf name text)) ++ more =
      Utf8.encode ("<" ++ name ++ "" ++ ">") ++
        (Utf8.encode (Escape.text text) ++ (Utf8.encode ("</" ++ name ++ ">") ++ more)) := by
  simp only [printed, String.append_empty, Utf8.encode_append, List.append_assoc]

theorem encode_printed_node (depth : Nat) (name : String) (children : List Element)
    (more : Bytes) :
    Utf8.encode (printed indent depth (.node name children)) ++ more =
      Utf8.encode ("<" ++ name ++ "" ++ ">") ++
        (Utf8.encode (printedAll indent (depth + 1) children ++ lineBreak indent depth) ++
          (Utf8.encode ("</" ++ name ++ ">") ++ more)) := by
  simp only [printed, String.append_empty, Utf8.encode_append, List.append_assoc]

/-- What is printed for an element starts with a tag. -/
theorem head?_printed (depth : Nat) (e : Element) (more : Bytes) :
    (Utf8.encode (e.printed indent depth) ++ more).head? = some Ascii.lessThan := by
  cases e with
  | leaf name text =>
    rw [encode_printed_leaf]
    exact head?_startTag name "" _
  | node name children =>
    rw [encode_printed_node]
    exact head?_startTag name "" _

mutual

/-- A printed element is read as the element. -/
theorem exists_walk_printed : (e : Element) → e.Named → ∀ (depth : Nat) (opened : List Bytes)
    (more : Bytes), ∃ es,
      Cursor.Walk { rest := Utf8.encode (e.printed indent depth) ++ more, opened, checkNames }
        (.start (Utf8.encode e.name) :: es) { rest := more, opened, checkNames } ∧ e.Spells es
  | .leaf name text, hname, depth, opened, more => by
    rw [encode_printed_leaf]
    have hstart := Cursor.walk_startTag opened checkNames hname Markup.isAttributes_empty
      (Utf8.encode (Escape.text text) ++ (Utf8.encode ("</" ++ name ++ ">") ++ more))
    obtain ⟨es, htext, hes⟩ := @Cursor.exists_walk_escaped (Utf8.encode name :: opened) checkNames _
      text (Token.endsText_of_lessThan (head?_endTag name more))
    have hend := Cursor.walk_endTag opened checkNames hname more
    exact ⟨_, hstart.trans (htext.trans hend), .leaf hes⟩
  | .node name children, ⟨hname, hchildren⟩, depth, opened, more => by
    rw [encode_printed_node]
    have hstart := Cursor.walk_startTag opened checkNames hname Markup.isAttributes_empty
      (Utf8.encode (printedAll indent (depth + 1) children ++ lineBreak indent depth) ++
          (Utf8.encode ("</" ++ name ++ ">") ++ more))
    obtain ⟨es, hall, hes⟩ := exists_walk_printedAll children hchildren (depth + 1) depth
      (Utf8.encode name :: opened) _ (Token.endsText_of_lessThan (head?_endTag name more))
    have hend := Cursor.walk_endTag opened checkNames hname more
    exact ⟨_, hstart.trans (hall.trans hend), .node hes⟩

/-- Printed elements are read as the elements, with the line breaks between them as text. -/
theorem exists_walk_printedAll : (children : List Element) → AllNamed children →
    ∀ (depth depth' : Nat) (opened : List Bytes) (more : Bytes), Token.EndsText more → ∃ es,
      Cursor.Walk
        { rest := Utf8.encode (printedAll indent depth children ++ lineBreak indent depth') ++ more,
          opened, checkNames } es
        { rest := more, opened, checkNames } ∧ SpellsAll children es
  | [], _, depth, depth', opened, more, hmore => by
    rw [printedAll, String.empty_append]
    obtain ⟨gap, hwalk, hgap⟩ :=
      @Cursor.exists_walk_lineBreak opened checkNames more indent depth' hmore
    exact ⟨gap, hwalk, .nil hgap⟩
  | e :: children, ⟨he, hchildren⟩, depth, depth', opened, more, hmore => by
    have hbytes :
        Utf8.encode (printedAll indent depth (e :: children) ++ lineBreak indent depth') ++ more =
        Utf8.encode (lineBreak indent depth) ++ (Utf8.encode (e.printed indent depth) ++
          (Utf8.encode (printedAll indent depth children ++ lineBreak indent depth') ++ more)) := by
      rw [printedAll]
      simp only [Utf8.encode_append, List.append_assoc]
    rw [hbytes]
    obtain ⟨gap, hbreak, hgap⟩ := @Cursor.exists_walk_lineBreak opened checkNames _ indent depth
      (Token.endsText_of_lessThan (head?_printed indent depth e _))
    obtain ⟨es, helement, hes⟩ := exists_walk_printed e he depth opened
      (Utf8.encode (printedAll indent depth children ++ lineBreak indent depth') ++ more)
    obtain ⟨es', hrest, hes'⟩ :=
      exists_walk_printedAll children hchildren depth depth' opened more hmore
    exact ⟨_, hbreak.trans (helement.trans hrest), .cons hgap hes hes'⟩

end

end Printed

end Element

end BucketWire

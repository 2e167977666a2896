import BucketWire.Proofs.Markup.Parts
import BucketWire.Proofs.Markup.Remark
import BucketWire.Proofs.Markup.Tag

/-!
# The presentation of a document

The same document can be written in different ways. A name may have another prefix, a start tag may
hold further attributes, an element without content may have one tag or two, an end tag may hold
blanks, and a remark may stand between any two events and within any text. The document is then read
as the same events, up to prefixes, remarks and the places where a text is broken.

## Main definitions

* `Tape.Restyled` — tapes that say the same
* `Content` — what stands between the tags of an element
* `Markup.Respells` — part of a document, written in another way
* `Markup.Rewrites` — a document with one of its parts written in another way

## Main results

* `Child.exists_written` — every element with the same name in both tags, as it is written
* `Markup.tape_expand_slash` — two tags do not stand for one that has a further slash
* `Markup.Respells.restyled` — a part that is written in another way says the same in its place
* `Markup.restyled_of_respells`, `Markup.restyled_of_broken` — and so does the document
-/

namespace BucketWire

open Tape (prepend)

/-! ### Tapes -/

/-- The second tape says what the first one says, with other prefixes, with further remarks, and
with texts that are broken by remarks. -/
inductive Tape.Restyled : Tape → Tape → Prop where
  | finished : Restyled .finished .finished
  | broken (fault : Markup.Fault) : Restyled (.broken fault) (.broken fault)
  | start {name name' : Bytes} {tape tape' : Tape} :
    Reader.localName name = Reader.localName name' → Restyled tape tape' →
      Restyled (.event (.start name) tape) (.event (.start name') tape')
  | close (name name' : Bytes) {tape tape' : Tape} : Restyled tape tape' →
    Restyled (.event (.close name) tape) (.event (.close name') tape')
  | keep {e : Event} {tape tape' : Tape} : ¬ e.IsTag → Restyled tape tape' →
    Restyled (.event e tape) (.event e tape')
  /-- There is a remark. -/
  | remark {tape tape' : Tape} : Restyled tape tape' → Restyled tape (.event .remark tape')
  /-- A text is broken by a remark between two characters. -/
  | split {raw raw' : Bytes} {tape tape' : Tape} :
    (∀ b ∈ raw'.head?, Utf8.isContinuation b = false) → Restyled tape tape' →
      Restyled (.event (.text (raw ++ raw')) tape)
        (.event (.text raw) (.event .remark (.event (.text raw') tape')))

namespace Tape

variable {tape tape' : Tape}

theorem Restyled.event (e : Event) (h : Restyled tape tape') :
    Restyled (.event e tape) (.event e tape') := by
  cases e with
  | start name => exact .start rfl h
  | close name => exact .close name name h
  | _ => exact .keep id h

theorem Restyled.refl (tape : Tape) : Restyled tape tape := by
  induction tape with
  | finished => exact .finished
  | broken fault => exact .broken fault
  | event e tape ih => exact ih.event e

theorem Restyled.prepend (es : List Event) (h : Restyled tape tape') :
    Restyled (Tape.prepend es tape) (Tape.prepend es tape') := by
  induction es with
  | nil => exact h
  | cons e es ih => exact ih.event e

end Tape

/-! ### Parts -/

variable {checkNames : Bool}

/-- What stands between the tags of an element: its children, with what stands between them. -/
structure Content (checkNames : Bool) where
  /-- What stands before the first child. -/
  front : Gap checkNames
  /-- The children, each with what stands after it. -/
  pieces : List (Child checkNames × Gap checkNames)

namespace Content

open Markup (IsTagName IsAttributes IsBlanks startTag endTag)

variable (content : Content checkNames)

def bytes : Bytes :=
  content.front.bytes ++ content.pieces.flatMap fun piece => piece.1.bytes ++ piece.2.bytes

def events : List Event :=
  content.front.events ++ content.pieces.flatMap fun piece => piece.1.events ++ piece.2.events

/-- The element with this content. -/
def inTags (name attributes blanks : Bytes) : Bytes :=
  startTag name attributes ++ (content.bytes ++ endTag name blanks)

/-- Between the tags of an element its content is read. -/
theorem walk (opened : List Bytes) {more : Bytes} (hmore : Token.EndsText more) :
    Cursor.Walk { rest := content.bytes ++ more, opened, checkNames } content.events
      { rest := more, opened, checkNames } := by
  rw [bytes, List.append_assoc]
  exact (content.front.walk opened (Layout.endsText_pieces content.pieces hmore)).trans
    (Layout.walk_pieces content.pieces opened hmore)

theorem walk_inTags {name attributes blanks : Bytes} (hname : IsTagName name)
    (hattributes : IsAttributes attributes) (hblanks : IsBlanks blanks) (opened : List Bytes)
    (more : Bytes) :
    Cursor.Walk { rest := content.inTags name attributes blanks ++ more, opened, checkNames }
      (.start name :: (content.events ++ [.close name])) { rest := more, opened, checkNames } := by
  rw [inTags, List.append_assoc, List.append_assoc]
  exact .step (Cursor.next_startTag hname hattributes _)
    ((content.walk (name :: opened) (Token.endsText_of_lessThan rfl)).trans
      (.single (Cursor.next_endTag hname hblanks more)))

end Content

/-- Every element whose start and end have the same name is a single tag, or it has content between
a start tag and an end tag. -/
theorem Child.exists_written (child : Child checkNames) (hname : Markup.IsTagName child.name)
    (hend : child.content.getLast? = some (.close child.name)) :
    (∃ attributes, Markup.FollowsName attributes ∧
      child.bytes = Markup.singleTag child.name attributes) ∨
    ∃ (content : Content checkNames) (attributes blanks : Bytes),
      Markup.IsAttributes attributes ∧ Markup.IsBlanks blanks ∧
        child.bytes = content.inTags child.name attributes blanks := by
  obtain hsingle | ⟨layout, rfl⟩ := child.isSelfClosing_or_exists_layout
  · obtain ⟨attributes, hattributes, hbytes⟩ := Token.exists_singleTag_of_scan hname hsingle
    exact .inl ⟨attributes, hattributes, by rw [hbytes, List.append_nil]⟩
  · have hlast : layout.endName = layout.rootName := by
      have hcontent : layout.child.content.getLast? = some (.close layout.endName) := by
        simp [Layout.child, Layout.content]
      exact Event.close.inj (Option.some.inj (hcontent.symm.trans hend))
    have hscan := layout.scan_endTag
    rw [hlast] at hscan
    obtain ⟨attributes, hattributes, hroot⟩ :=
      Token.exists_startTag_of_scan hname layout.scan_rootTag
    obtain ⟨blanks, hblanks, htag⟩ := Token.exists_endTag_of_scan hname hscan
    refine .inr ⟨⟨layout.front, layout.pieces⟩, attributes, blanks, hattributes, hblanks, ?_⟩
    rw [List.append_nil] at hroot htag
    rw [Layout.bytes_child, Layout.document, hroot, htag, Content.inTags, Content.bytes,
      List.append_assoc]

namespace Cursor

open Markup (IsTagName IsAttributes IsBlanks startTag endTag)

variable {opened : List Bytes} {rest rest' more : Bytes} {token : Token}

/-- What is read next depends on the token alone. -/
theorem tape_congr (h : Token.scan rest = .ok (some (token, more)))
    (h' : Token.scan rest' = .ok (some (token, more))) :
    Cursor.tape { rest, opened, checkNames } =
      Cursor.tape { rest := rest', opened, checkNames } := by
  have hreport : ({ rest, opened, checkNames } : Cursor).report more token =
      ({ rest := rest', opened, checkNames } : Cursor).report more token := by
    cases token with
    | startTag name selfClosing => cases selfClosing <;> rfl
    | _ => rfl
  rw [tape_eq, next_of_scan rfl h, hreport, tape_eq { rest := rest', opened, checkNames },
    next_of_scan rfl h']

/-- A walk does not end within a run of text. -/
theorem Walk.endsText {c c' : Cursor} {es : List Event} {raw : Bytes} (h : Walk c es c')
    (hlast : es.getLast? = some (.text raw)) : Token.EndsText c'.rest := by
  induction h with
  | refl c => simp at hlast
  | @step c c₁ c' e es hnext hwalk ih =>
    cases es with
    | nil =>
      obtain rfl : e = .text raw := by simpa using hlast
      cases hwalk
      exact endsText_of_next_text hnext
    | cons e' es => exact ih (by rwa [List.getLast?_cons_cons] at hlast)

/-- An element without content is read as its start and its end. -/
theorem walk_emptyElement {name attributes blanks : Bytes} (hname : IsTagName name)
    (hattributes : IsAttributes attributes) (hblanks : IsBlanks blanks) (more : Bytes) :
    Walk { rest := startTag name attributes ++ endTag name blanks ++ more, opened, checkNames }
      [.start name, .close name] { rest := more, opened, checkNames } := by
  rw [List.append_assoc]
  exact .step (next_startTag hname hattributes _) (.single (next_endTag hname hblanks more))

end Cursor

namespace Markup

/-- The second bytes can stand for the first ones in a document: an element with another prefix in
both tags; a tag with an attribute more; an element without content that has one tag in place of
two, or two in place of one; an end tag with further blanks; a remark where nothing stood.

What follows the name in a self-closing tag may end with a further slash, as in `<ID //>`, and
`renameSingle` and `addAttributeSingle` take such a tag like any other (`FollowsName`). In `expand`
the same bytes come to stand in a start tag, so they must not end with a slash (`IsAttributes`): of
`<ID /></ID>` the first tag is an element of its own, and the second one closes whatever is open
around it. -/
inductive Respells (checkNames : Bool) : Bytes → Bytes → Prop where
  | rename {localName name name' : String} {attributes blanks : Bytes}
    (content : Content checkNames) : Names localName name → Names localName name' →
    IsAttributes attributes → IsBlanks blanks →
      Respells checkNames (content.inTags (Utf8.encode name) attributes blanks)
        (content.inTags (Utf8.encode name') attributes blanks)
  | renameSingle {localName name name' : String} {attributes : Bytes} :
    Names localName name → Names localName name' → FollowsName attributes →
      Respells checkNames (singleTag (Utf8.encode name) attributes)
        (singleTag (Utf8.encode name') attributes)
  | addAttribute {name : String} {attr attributes : Bytes} :
    IsFullName name → IsAttribute attr → IsAttributes attributes →
      Respells checkNames (startTag (Utf8.encode name) attributes)
        (startTag (Utf8.encode name) (attr ++ attributes))
  | addAttributeSingle {name : String} {attr attributes : Bytes} :
    IsFullName name → IsAttribute attr → FollowsName attributes →
      Respells checkNames (singleTag (Utf8.encode name) attributes)
        (singleTag (Utf8.encode name) (attr ++ attributes))
  /-- Two tags for one, if what follows the name does not end with a slash. -/
  | expand {name : String} {attributes : Bytes} : IsFullName name → IsAttributes attributes →
    Respells checkNames (singleTag (Utf8.encode name) attributes)
      (startTag (Utf8.encode name) attributes ++ endTag (Utf8.encode name) [])
  | collapse {name : String} {attributes blanks : Bytes} : IsFullName name →
    IsAttributes attributes → IsBlanks blanks →
      Respells checkNames
        (startTag (Utf8.encode name) attributes ++ endTag (Utf8.encode name) blanks)
        (singleTag (Utf8.encode name) attributes)
  | pad {name : String} {blanks blanks' : Bytes} : IsFullName name → IsBlanks blanks →
    IsBlanks blanks' →
      Respells checkNames (endTag (Utf8.encode name) blanks)
        (endTag (Utf8.encode name) (blanks ++ blanks'))
  | remark {remark : Bytes} : IsRemark remark → Respells checkNames [] remark

/-- Two tags in place of one that has a further slash: the first tag is the whole element, and the
second one does not match the element `outer` around it. -/
theorem tape_expand_slash {name attributes outer : Bytes} (hname : IsTagName name)
    (hattributes : FollowsName attributes) (houter : name ≠ outer) (opened : List Bytes)
    (more : Bytes) :
    Cursor.tape
        { rest := startTag name (attributes ++ [Ascii.slash]) ++ (endTag name [] ++ more)
          opened := outer :: opened } =
      .event (.start name) (.event (.close name) (.broken (.mismatchedEnd outer name))) := by
  have hend : ({ rest := endTag name [] ++ more, opened := outer :: opened } : Cursor).next =
      .error (.mismatchedEnd outer name) := by
    rw [Cursor.next_of_scan rfl (Token.scan_endTag hname isBlanks_nil more), Cursor.report,
      Cursor.close]
    simp [houter, Except.map]
  have hwalk : Cursor.Walk
      { rest := singleTag name attributes ++ (endTag name [] ++ more), opened := outer :: opened }
      [.start name, .close name] { rest := endTag name [] ++ more, opened := outer :: opened } :=
    Cursor.walk_singleTag hname hattributes _
  rw [startTag_append_slash, hwalk.tape_eq, Cursor.tape_eq, hend]
  rfl

example :
    Cursor.tape { rest := Utf8.encode "<ID //></Owner>", opened := [Utf8.encode "Owner"] } =
      .event (.start (Utf8.encode "ID")) (.event (.close (Utf8.encode "ID"))
        (.event (.close (Utf8.encode "Owner")) .finished)) ∧
    Cursor.tape { rest := Utf8.encode "<ID /></ID></Owner>", opened := [Utf8.encode "Owner"] } =
      .event (.start (Utf8.encode "ID")) (.event (.close (Utf8.encode "ID"))
        (.broken (.mismatchedEnd (Utf8.encode "Owner") (Utf8.encode "ID")))) := by
  decide +kernel

variable {part part' before after : Bytes}

namespace Respells

/-- What is written in place of something starts with a sign of markup. -/
theorem head?_eq (h : Respells checkNames part part') (more : Bytes) :
    (part' ++ more).head? = some Ascii.lessThan := by
  cases h with
  | remark hremark => exact hremark.head?_append more
  | _ => rfl

/-- A part that is written in another way says the same in its place. -/
theorem restyled (h : Respells checkNames part part') (opened : List Bytes) (more : Bytes) :
    Tape.Restyled (Cursor.tape { rest := part ++ more, opened, checkNames })
      (Cursor.tape { rest := part' ++ more, opened, checkNames }) := by
  cases h with
  | rename content hname hname' hattributes hblanks =>
    have hlocal := hname.localName_eq.trans hname'.localName_eq.symm
    have hwalk := content.walk_inTags hname.isFullName.isTagName hattributes hblanks opened more
    have hwalk' := content.walk_inTags hname'.isFullName.isTagName hattributes hblanks opened more
    rw [hwalk.tape_eq, hwalk'.tape_eq, Tape.prepend_cons, Tape.prepend_cons, Tape.prepend_append,
      Tape.prepend_append]
    exact .start hlocal (.prepend content.events (.close _ _ (.refl _)))
  | renameSingle hname hname' hattributes =>
    have hlocal := hname.localName_eq.trans hname'.localName_eq.symm
    rw [(Cursor.walk_singleTag hname.isFullName.isTagName hattributes more).tape_eq,
      (Cursor.walk_singleTag hname'.isFullName.isTagName hattributes more).tape_eq]
    exact .start hlocal (.close _ _ (.refl _))
  | addAttribute hname hattr hattributes =>
    rw [Cursor.tape_congr (Token.scan_startTag hname.isTagName hattributes more)
      (Token.scan_startTag hname.isTagName (hattr.isAttributes hattributes) more)]
    exact .refl _
  | addAttributeSingle hname hattr hattributes =>
    rw [Cursor.tape_congr (Token.scan_singleTag hname.isTagName hattributes more)
      (Token.scan_singleTag hname.isTagName (hattr.followsName hattributes) more)]
    exact .refl _
  | expand hname hattributes =>
    rw [(Cursor.walk_singleTag hname.isTagName hattributes.followsName more).tape_eq,
      (Cursor.walk_emptyElement hname.isTagName hattributes isBlanks_nil more).tape_eq]
    exact .refl _
  | collapse hname hattributes hblanks =>
    rw [(Cursor.walk_singleTag hname.isTagName hattributes.followsName more).tape_eq,
      (Cursor.walk_emptyElement hname.isTagName hattributes hblanks more).tape_eq]
    exact .refl _
  | pad hname hblanks hblanks' =>
    rw [Cursor.tape_congr (Token.scan_endTag hname.isTagName hblanks more)
      (Token.scan_endTag hname.isTagName (hblanks.append hblanks') more)]
    exact .refl _
  | remark hremark =>
    have hnext : ({ rest := part' ++ more, opened, checkNames } : Cursor).next =
        .ok (some (.remark, { rest := more, opened, checkNames })) := by
      rw [Cursor.next_of_scan rfl (hremark.scan more)]
      rfl
    rw [(Cursor.Walk.single hnext).tape_eq]
    exact .remark (.refl _)

end Respells

/-- Between `before` and `after` stands the end of one event and the start of another. -/
def IsPlace (checkNames : Bool) (before after : Bytes) : Prop :=
  ∃ es opened, Cursor.Walk (Cursor.ofDocument checkNames (before ++ after)) es
    { rest := after, opened, checkNames }

/-- The second document is the first one with a part that is written in another way, with a text
that is broken by a remark between two characters, or with something else in front of the root
element and behind it. -/
inductive Rewrites (checkNames : Bool) : Bytes → Bytes → Prop where
  | respell {before part part' after : Bytes} : IsPlace checkNames before (part ++ after) →
    Respells checkNames part part' →
      Rewrites checkNames (before ++ (part ++ after)) (before ++ (part' ++ after))
  | broken {before raw raw' after remark : Bytes} :
    IsPlace checkNames before (raw ++ raw' ++ after) →
    Token.scan (raw ++ raw' ++ after) = .ok (some (.text (raw ++ raw'), after)) →
    raw ≠ [] → raw' ≠ [] → (∀ b ∈ raw'.head?, Utf8.isContinuation b = false) → IsRemark remark →
      Rewrites checkNames (before ++ (raw ++ raw' ++ after))
        (before ++ (raw ++ (remark ++ (raw' ++ after))))
  | surround (prolog prolog' : Prolog checkNames) (root : Child checkNames)
    (epilog epilog' : Bytes) :
      Rewrites checkNames (prolog.bytes ++ (root.bytes ++ epilog))
        (prolog'.bytes ++ (root.bytes ++ epilog'))

/-! ### Documents -/

/-- What comes before a place reads the same before something else, unless this makes it start with
a byte order mark or end with a longer text. -/
theorem walk_of_place {es : List Event} {opened : List Bytes} {after' : Bytes}
    (h : Cursor.Walk (Cursor.ofDocument checkNames (before ++ after)) es
      { rest := after, opened, checkNames })
    (hmark : Cursor.mark <+: before ++ after' → Cursor.mark <+: before ++ after)
    (hends : (∃ raw, es.getLast? = some (.text raw)) → Token.EndsText after') :
    Cursor.Walk (Cursor.ofDocument checkNames (before ++ after')) es
      { rest := after', opened, checkNames } := by
  by_cases hmarked : Cursor.mark <+: before ++ after
  · obtain ⟨rest, hrest⟩ := hmarked
    rw [← hrest, Cursor.ofDocument_mark_append] at h
    obtain ⟨taken, htaken, hembed⟩ := h.exists_taken
    obtain rfl : rest = taken ++ after := htaken
    obtain rfl : before = Cursor.mark ++ taken := by
      rw [← List.append_assoc] at hrest
      exact (List.append_cancel_right hrest).symm
    have := hembed [] after' hends
    rwa [Cursor.embed_nil, Cursor.embed_nil, ← Cursor.ofDocument_mark_append,
      ← List.append_assoc] at this
  · rw [Cursor.ofDocument_of_unmarked hmarked] at h
    obtain ⟨taken, htaken, hembed⟩ := h.exists_taken
    obtain rfl : before = taken := List.append_cancel_right htaken
    have := hembed [] after' hends
    rwa [Cursor.embed_nil, Cursor.embed_nil,
      ← Cursor.ofDocument_of_unmarked (mt hmark hmarked)] at this

/-- A document with a part that is written in another way says the same. -/
theorem restyled_of_respells (hplace : IsPlace checkNames before (part ++ after))
    (h : Respells checkNames part part') :
    Tape.Restyled (Tape.ofDocument checkNames (before ++ (part ++ after)))
      (Tape.ofDocument checkNames (before ++ (part' ++ after))) := by
  obtain ⟨es, opened, hwalk⟩ := hplace
  have hhead := h.head?_eq after
  have hmark : Cursor.mark <+: before ++ (part' ++ after) →
      Cursor.mark <+: before ++ (part ++ after) := by
    intro hmark
    by_contra hnot
    have hbefore : ¬ Cursor.mark <+: before := fun h => hnot (h.trans (List.prefix_append _ _))
    exact Cursor.not_mark_prefix_append hbefore hhead hmark
  have hwalk' := walk_of_place hwalk hmark fun _ => Token.endsText_of_lessThan hhead
  rw [Tape.ofDocument, Tape.ofDocument, hwalk.tape_eq, hwalk'.tape_eq]
  exact (h.restyled opened after).prepend es

/-- A text that is broken by a remark between two characters says the same in its place. -/
theorem restyled_broken {raw raw' remark : Bytes}
    (hscan : Token.scan (raw ++ raw' ++ after) = .ok (some (.text (raw ++ raw'), after)))
    (hraw : raw ≠ []) (hraw' : raw' ≠ [])
    (hboundary : ∀ b ∈ raw'.head?, Utf8.isContinuation b = false) (hremark : IsRemark remark)
    (opened : List Bytes) :
    Tape.Restyled (Cursor.tape { rest := raw ++ raw' ++ after, opened, checkNames })
      (Cursor.tape { rest := raw ++ (remark ++ (raw' ++ after)), opened, checkNames }) := by
  obtain ⟨-, -, hplain, hends⟩ := Token.scan_eq_text_iff.mp hscan
  have hscan₁ : Token.scan (raw ++ (remark ++ (raw' ++ after))) =
      .ok (some (.text raw, remark ++ (raw' ++ after))) :=
    Token.scan_eq_text_iff.mpr ⟨rfl, hraw, fun b hb => hplain b (by simp [hb]),
      Token.endsText_of_lessThan (hremark.head?_append _)⟩
  have hscan₂ : Token.scan (raw' ++ after) = .ok (some (.text raw', after)) :=
    Token.scan_eq_text_iff.mpr ⟨rfl, hraw', fun b hb => hplain b (by simp [hb]), hends⟩
  have hwhole : Cursor.Walk { rest := raw ++ raw' ++ after, opened, checkNames }
      [.text (raw ++ raw')] { rest := after, opened, checkNames } :=
    .single (by rw [Cursor.next_of_scan rfl hscan]; rfl)
  have hbroken : Cursor.Walk { rest := raw ++ (remark ++ (raw' ++ after)), opened, checkNames }
      [.text raw, .remark, .text raw'] { rest := after, opened, checkNames } :=
    .step (by rw [Cursor.next_of_scan rfl hscan₁]; rfl)
      (.step (by rw [Cursor.next_of_scan rfl (hremark.scan _)]; rfl)
        (.single (by rw [Cursor.next_of_scan rfl hscan₂]; rfl)))
  rw [hwhole.tape_eq, hbroken.tape_eq]
  exact .split hboundary (.refl _)

/-- A document with a text that is broken by a remark between two characters says the same. -/
theorem restyled_of_broken {raw raw' remark : Bytes}
    (hplace : IsPlace checkNames before (raw ++ raw' ++ after))
    (hscan : Token.scan (raw ++ raw' ++ after) = .ok (some (.text (raw ++ raw'), after)))
    (hraw : raw ≠ []) (hraw' : raw' ≠ [])
    (hboundary : ∀ b ∈ raw'.head?, Utf8.isContinuation b = false) (hremark : IsRemark remark) :
    Tape.Restyled (Tape.ofDocument checkNames (before ++ (raw ++ raw' ++ after)))
      (Tape.ofDocument checkNames (before ++ (raw ++ (remark ++ (raw' ++ after))))) := by
  obtain ⟨es, opened, hwalk⟩ := hplace
  have hmark : Cursor.mark <+: before ++ (raw ++ (remark ++ (raw' ++ after))) →
      Cursor.mark <+: before ++ (raw ++ raw' ++ after) := by
    intro hmark
    by_contra hnot
    have hbefore : ¬ Cursor.mark <+: before ++ raw := by
      intro h
      refine hnot (h.trans ?_)
      rw [List.append_assoc raw, ← List.append_assoc before]
      exact List.prefix_append _ _
    rw [← List.append_assoc] at hmark
    exact Cursor.not_mark_prefix_append hbefore (hremark.head?_append _) hmark
  have hends : (∃ text, es.getLast? = some (.text text)) →
      Token.EndsText (raw ++ (remark ++ (raw' ++ after))) := by
    -- The text is a run of its own, so no text stands before it.
    rintro ⟨text, htext⟩
    obtain ⟨-, -, hplain, -⟩ := Token.scan_eq_text_iff.mp hscan
    obtain ⟨b, bytes, rfl⟩ := List.exists_cons_of_ne_nil hraw
    have hb : Token.endsText b := Token.endsText_cons_iff.mp (hwalk.endsText htext)
    exact absurd hb (hplain b (by simp))
  have hwalk' := walk_of_place hwalk hmark hends
  rw [Tape.ofDocument, Tape.ofDocument, hwalk.tape_eq, hwalk'.tape_eq]
  exact (restyled_broken hscan hraw hraw' hboundary hremark opened).prepend es

end Markup

end BucketWire

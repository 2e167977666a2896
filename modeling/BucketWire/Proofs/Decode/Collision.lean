import BucketWire.Proofs.Decode.Dictionary
import BucketWire.Proofs.Decode.Table
import BucketWire.Proofs.Decode.Text
import BucketWire.Proofs.Markup.Root

/-!
# Keys that collide

Tags and metadata are maps, but each is read from a list in which a key can stand several times.
Tags are a query, and the first pair with a key counts. Metadata are elements, and the last one with
a local name counts; elements collide even if their prefixes differ.

## Main definitions

* `Child.IsEntry` — an element that binds its local name to its text
* `Dictionary.Binds` — a map with exactly the values that keys have in a list

## Main results

* `Scalar.tags_of_isQuery` — the tags of pairs, in whichever way they are written
* `Child.foldlM_step_of_isEntry` — the metadata of elements
* `Decoder.first_of_tags_and_last_of_metadata` — the value of a key in either map
-/

namespace BucketWire

open Markup (IsTagName IsBlanks HasLocalName endTag)
open Markup.Segment (AllProper AllSay allBytes)

variable {settings : Settings}

/-! ### Tags -/

namespace Scalar

variable {text query : String} {front back : List Char} {pairs : List (String × String)}

/-- The pairs of a query between blanks are bound from front to back, each if its key is new. -/
theorem tags_of_isQuery (hquery : Query.IsQuery pairs query)
    (htext : text.toList = front ++ (query.toList ++ back)) (hfront : ∀ c ∈ front, Text.isBlank c)
    (hback : ∀ c ∈ back, Text.isBlank c) :
    tags text = pairs.foldl (fun d e => d.insertIfNew e.1 e.2) .empty := by
  have htrim : Text.trim text = query := by
    rw [Text.trim_append htext hfront hback
      (fun c hc => hquery.not_isBlank (List.mem_of_head? hc))
      (fun c hc => hquery.not_isBlank (List.mem_of_getLast? hc)), String.ofList_toList]
  rw [tags, htrim, hquery.parse_eq]

/-- It does not matter for tags whether texts are trimmed. -/
theorem tags_ite_trim (trim : Bool) (text : String) :
    tags (if trim then Text.trim text else text) = tags text := by
  cases trim with
  | false => rfl
  | true => rw [if_pos rfl, tags, Text.trim_trim, tags]

end Scalar

/-! ### Metadata -/

/-- The element binds the key `e.1`, its local name, to `e.2`, the text it is read as by itself. -/
structure Child.IsEntry (child : Child settings.checkEndNames) (e : String × String) : Prop where
  hasLocalName : HasLocalName e.1 child.name
  decode_eq : Decoder.text.decode settings child.bytes = .ok e.2

namespace Child

variable {child : Child settings.checkEndNames} {e : String × String}
  {elements : List (Child settings.checkEndNames)} {entries : List (String × String)}

theorem IsEntry.step_eq (h : child.IsEntry e) (d : Dictionary) :
    child.step (fun name => Decoder.text.map fun value d => d.insert name value) d =
      .ok (d.insert e.1 e.2) := by
  have hname : child.localName = .ok e.1 := by
    rw [localName, h.hasLocalName.localName_eq, Utf8.decode_encode]
  rw [step, read, hname]
  simp only [Decoder.decode_map, h.decode_eq]
  rfl

/-- Elements that bind keys do so from front to back. -/
theorem foldlM_step_of_isEntry (h : List.Forall₂ IsEntry elements entries) (d : Dictionary) :
    elements.foldlM (step fun name => Decoder.text.map fun value d => d.insert name value) d =
      .ok (entries.foldl (fun d e => d.insert e.1 e.2) d) := by
  induction h generalizing d with
  | nil => rfl
  | cons hchild _ ih =>
    rw [List.foldlM_cons, hchild.step_eq, List.foldl_cons]
    exact ih _

end Child

/-! ### Either map -/

namespace Dictionary

variable {d : Dictionary} {es : List (String × String)}

/-- The keys of the map are those that stand in the list, and each has the value that is found first
in it. -/
def Binds (d : Dictionary) (es : List (String × String)) : Prop :=
  (∀ key, key ∈ d.keys ↔ key ∈ es.map Prod.fst) ∧ ∀ key, d.find? key = es.lookup key

theorem binds_of_find?_eq (h : ∀ key, d.find? key = es.lookup key) : d.Binds es :=
  ⟨fun key => by rw [mem_keys_iff, h, isSome_lookup_iff], h⟩

/-- Of several values for a new key the first one counts. -/
theorem binds_foldl_insertIfNew (es : List (String × String)) :
    (es.foldl (fun d e => d.insertIfNew e.1 e.2) empty).Binds es :=
  binds_of_find?_eq fun _ => (find?_foldl_insertIfNew es empty).trans Option.none_or

/-- Of several values for a key the last one counts. -/
theorem binds_foldl_insert (es : List (String × String)) :
    (es.foldl (fun d e => d.insert e.1 e.2) empty).Binds es.reverse :=
  binds_of_find?_eq fun _ => (find?_foldl_insert es empty).trans Option.or_none

end Dictionary

namespace Decoder

variable (settings : Settings) (outer : List Bytes) (more : Bytes)

/-- The tags of an element are those of what its content says. -/
theorem run_tags_of_allSay {name blanks : Bytes} {content : List Markup.Segment} {text : String}
    (hname : IsTagName name) (hblanks : IsBlanks blanks) (hcontent : AllProper content)
    (htext : AllSay content text) :
    tags.run settings.trimText (Cursor.tape
        { rest := allBytes content ++ (endTag name blanks ++ more)
          opened := name :: outer
          checkNames := settings.checkEndNames }) =
      .ok (Scalar.tags text,
        Cursor.tape { rest := more, opened := outer, checkNames := settings.checkEndNames }) := by
  rw [tags, map, run_refine,
    Markup.Segment.run_text_of_allSay _ hname hblanks hcontent htext settings.trimText]
  simp only [Scalar.tags_ite_trim]

/-- The metadata of an element are what its children bind. -/
theorem run_metadata_of_isEntry {layout : Layout settings.checkEndNames}
    {entries : List (String × String)} (h : List.Forall₂ Child.IsEntry layout.elements entries) :
    metadata.run settings.trimText (Cursor.tape
        { rest := layout.body ++ more
          opened := layout.rootName :: outer
          checkNames := settings.checkEndNames }) =
      .ok (entries.foldl (fun d e => d.insert e.1 e.2) .empty,
        Cursor.tape { rest := more, opened := outer, checkNames := settings.checkEndNames }) := by
  have houtcome : metadata.outcome settings.trimText layout.content =
      .ok (entries.foldl (fun d e => d.insert e.1 e.2) .empty) := by
    rw [← Child.foldlM_step_of_isEntry h, ← decode_children]
    exact (layout.child.decode_bytes metadata).symm
  rw [layout.tape_body, metadata.run_prepend _ layout.closes_content, houtcome]
  rfl

/-- Tags bind every key of their pairs to the value it has first, and metadata bind the local name
of every child to the text of the last child with it. -/
theorem first_of_tags_and_last_of_metadata :
    (∀ (name blanks : Bytes) (content : List Markup.Segment) (text query : String)
        (front back : List Char) (pairs : List (String × String)),
      IsTagName name → IsBlanks blanks → AllProper content → AllSay content text →
      text.toList = front ++ (query.toList ++ back) → (∀ c ∈ front, Text.isBlank c) →
      (∀ c ∈ back, Text.isBlank c) → Query.IsQuery pairs query →
      ∃ d : Dictionary, d.Binds pairs ∧
        tags.run settings.trimText (Cursor.tape
            { rest := allBytes content ++ (endTag name blanks ++ more)
              opened := name :: outer
              checkNames := settings.checkEndNames }) =
          .ok (d, Cursor.tape
            { rest := more, opened := outer, checkNames := settings.checkEndNames })) ∧
    (∀ (layout : Layout settings.checkEndNames) (entries : List (String × String)),
      List.Forall₂ Child.IsEntry layout.elements entries →
      ∃ d : Dictionary, d.Binds entries.reverse ∧
        metadata.run settings.trimText (Cursor.tape
            { rest := layout.body ++ more
              opened := layout.rootName :: outer
              checkNames := settings.checkEndNames }) =
          .ok (d, Cursor.tape
            { rest := more, opened := outer, checkNames := settings.checkEndNames })) := by
  constructor
  · intro name blanks content text query front back pairs hname hblanks hcontent hsay htext hfront
      hback hquery
    refine ⟨_, Dictionary.binds_foldl_insertIfNew pairs, ?_⟩
    rw [run_tags_of_allSay settings outer more hname hblanks hcontent hsay,
      Scalar.tags_of_isQuery hquery htext hfront hback]
  · intro layout entries h
    exact ⟨_, Dictionary.binds_foldl_insert entries, run_metadata_of_isEntry settings outer more h⟩

theorem first_of_repeated_tags_and_last_of_prefixed_metadata :
    (∃ d : Dictionary, d.find? "a" = some "1" ∧ d.find? " " = some "" ∧ d.find? "" = some "&" ∧
      tags.run false (Cursor.tape
          { rest := Utf8.encode " a=1&amp;%61=2<![CDATA[&+=]]>&#38;=%26\n</UserTags><Size>"
            opened := [Utf8.encode "UserTags"] }) =
        .ok (d, Cursor.tape { rest := Utf8.encode "<Size>" })) ∧
    ∃ d : Dictionary, d.find? "k" = some "2" ∧ d.find? "j" = some "" ∧
      metadata.run false (Cursor.tape
          { rest := Utf8.encode "<a:k>1</a:k><k>2</k><b:j/></UserMetadata><Size>"
            opened := [Utf8.encode "UserMetadata"] }) =
        .ok (d, Cursor.tape { rest := Utf8.encode "<Size>" }) := by
  obtain ⟨htags, hmetadata⟩ :=
    first_of_tags_and_last_of_metadata {} [] (Utf8.encode "<Size>")
  constructor
  · let content : List Markup.Segment :=
      [.text (Utf8.encode " a=1"), .reference (Utf8.encode "amp"), .text (Utf8.encode "%61=2"),
        .literal (Utf8.encode "&+="), .reference (Utf8.encode "#38"),
        .text (Utf8.encode "=%26\n")]
    have hname : IsTagName (Utf8.encode "UserTags") :=
      (show Markup.IsName "UserTags" from Markup.isName_ofList rfl).isTagName
    have hcontent : AllProper content := by
      simp only [content, AllProper, Markup.Segment.IsProper]
      decide +kernel
    have hcode : Reference.Names (Utf8.encode "#38") '&' :=
      @Reference.Names.decimal ['3', '8'] '&' (by decide) rfl (by decide)
    let said := " a=1" ++ ("&" ++ ("%61=2" ++ ("&+=" ++ ("&" ++ ("=%26\n" ++ "")))))
    have hsay : AllSay content said :=
      .cons rfl (.cons ⟨'&', .name (by decide), rfl⟩ (.cons rfl (.cons rfl
        (.cons ⟨'&', hcode, rfl⟩ (.cons rfl rfl)))))
    have hquery : Query.IsQuery [("a", "1"), ("a", "2"), (" ", ""), ("", "&")]
        "a=1&%61=2&+=&=%26" := by
      have ha : Query.Spells (Utf8.encode "a") [0x61] := .cons (.itself (by decide)) .nil
      have ha' : Query.Spells (Utf8.encode "a") [0x25, 0x36, 0x31] :=
        .cons (.escaped (by decide) (by decide)) .nil
      have hspace : Query.Spells (Utf8.encode " ") [0x2B] := .cons .space .nil
      have hampersand : Query.Spells (Utf8.encode "&") [0x25, 0x32, 0x36] :=
        .cons (.escaped (by decide) (by decide)) .nil
      have h1 : Query.Spells (Utf8.encode "1") [0x31] := .cons (.itself (by decide)) .nil
      have h2 : Query.Spells (Utf8.encode "2") [0x32] := .cons (.itself (by decide)) .nil
      exact ⟨_, .cons ⟨ha, h1⟩ (.cons ⟨ha', h2⟩ (.cons ⟨hspace, .nil⟩
        (.cons ⟨.nil, hampersand⟩ .nil))), by decide +kernel⟩
    obtain ⟨d, hd, hrun⟩ := htags (Utf8.encode "UserTags") [] content said "a=1&%61=2&+=&=%26"
      [' '] ['\n'] _ hname Markup.isBlanks_nil hcontent hsay (by decide +kernel)
      (List.all_eq_true.mp rfl) (List.all_eq_true.mp rfl) hquery
    refine ⟨d, hd.2 "a", hd.2 " ", hd.2 "", ?_⟩
    have hbytes : Utf8.encode
          " a=1&amp;%61=2<![CDATA[&+=]]>&#38;=%26\n</UserTags><Size>" =
        allBytes content ++ (endTag (Utf8.encode "UserTags") [] ++ Utf8.encode "<Size>") := by
      decide +kernel
    rw [hbytes]
    exact hrun
  · let first : Child true :=
      { bytes := Utf8.encode "<a:k>1</a:k>"
        name := Utf8.encode "a:k"
        content := [.text (Utf8.encode "1"), .close (Utf8.encode "a:k")]
        closes := .stay id (.last _)
        tape_eq := by decide +kernel }
    let second : Child true :=
      { bytes := Utf8.encode "<k>2</k>"
        name := Utf8.encode "k"
        content := [.text (Utf8.encode "2"), .close (Utf8.encode "k")]
        closes := .stay id (.last _)
        tape_eq := by decide +kernel }
    let third : Child true :=
      { bytes := Utf8.encode "<b:j/>"
        name := Utf8.encode "b:j"
        content := [.close (Utf8.encode "b:j")]
        closes := .last _
        tape_eq := by decide +kernel }
    let nothing : Gap true :=
      { bytes := [], events := [], not_isTag := by simp, tape_eq := by decide +kernel }
    let layout : Layout true :=
      { rootTag := Utf8.encode "<UserMetadata>"
        rootName := Utf8.encode "UserMetadata"
        scan_rootTag := by decide +kernel
        front := nothing
        pieces := [(first, nothing), (second, nothing), (third, nothing)]
        endTag := Utf8.encode "</UserMetadata>"
        endName := Utf8.encode "UserMetadata"
        scan_endTag := by decide +kernel
        endName_eq := fun _ => rfl }
    have hfirst : @Child.IsEntry {} first ("k", "1") :=
      ⟨@HasLocalName.prefixed "k" (Utf8.encode "a") (by decide), by decide +kernel⟩
    have hsecond : @Child.IsEntry {} second ("k", "2") :=
      ⟨.plain (by decide), by decide +kernel⟩
    have hthird : @Child.IsEntry {} third ("j", "") :=
      ⟨@HasLocalName.prefixed "j" (Utf8.encode "b") (by decide), by decide +kernel⟩
    obtain ⟨d, hd, hrun⟩ := hmetadata layout _ (.cons hfirst (.cons hsecond (.cons hthird .nil)))
    refine ⟨d, hd.2 "k", hd.2 "j", ?_⟩
    have hbytes : Utf8.encode "<a:k>1</a:k><k>2</k><b:j/></UserMetadata><Size>" =
        layout.body ++ Utf8.encode "<Size>" := by
      decide +kernel
    rw [hbytes]
    exact hrun

end Decoder

end BucketWire

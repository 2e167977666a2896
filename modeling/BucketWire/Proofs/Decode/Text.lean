import BucketWire.Proofs.Decode.Element
import BucketWire.Proofs.Markup.Segment

/-!
# The text of a content

Reading a content segment by segment gives what the segments say, one after the other. Two runs of
text side by side are one run for the reader, so the text before a segment is carried along until
something other than text follows it. A segment at fault ends the reading.

## Main definitions

* `Event.Adds` — events that add a text to the text before them
* `Event.Breaks` — events at which reading ends with a fault

## Main results

* `Markup.Segment.exists_walk_all` — a content adds what it says
* `Markup.Segment.exists_walk_anyFaulty` — reading ends at a segment that is at fault
* `Markup.Segment.text_of_content` — the text of an element
-/

namespace BucketWire

open Markup (IsTagName IsBlanks endTag)
open Tape (prepend)

/-! ### What events add -/

namespace Event

/-- Reading the events adds `s` to what was read before. -/
def Adds (es : List Event) (s : String) : Prop :=
  ∀ (before : String) (depth : Nat) (tape : Tape),
    Reader.readText before depth (prepend es tape) = Reader.readText (before ++ s) depth tape

/-- Reading does not get past the events: one of them has no text. -/
def Breaks (es : List Event) : Prop :=
  ∀ (before : String) (depth : Nat) (tape : Tape),
    ∃ fault, Reader.readText before depth (prepend es tape) = .error (.invalidValue fault)

variable {es es' : List Event} {s t : String} {e : Event}

theorem Pieces.adds (h : Pieces es s) : Adds es s :=
  fun before depth tape => Reader.readText_pieces h before depth tape

theorem Adds.append (h : Adds es s) (h' : Adds es' t) : Adds (es ++ es') (s ++ t) := by
  intro before depth tape
  rw [Tape.prepend_append, h, h', String.append_assoc]

/-- An element adds what its content adds. -/
theorem Adds.enclose (h : Adds es s) (name name' : Bytes) :
    Adds (.start name :: (es ++ [.close name'])) s := by
  intro before depth tape
  rw [Tape.prepend_cons, Tape.prepend_append]
  exact h before (depth + 1) _

theorem adds_of_piece (he : ¬ e.IsTag) (h : Reader.piece e = .ok s) : Adds [e] s :=
  (Pieces.single he h).adds

theorem adds_remark : Adds [.remark] "" := adds_of_piece id rfl

theorem adds_single (name name' : Bytes) : Adds [.start name, .close name'] "" :=
  Adds.enclose Pieces.nil.adds name name'

theorem breaks_of_piece {fault : ValueFault} (he : ¬ e.IsTag) (h : Reader.piece e = .error fault) :
    Breaks [e] := by
  intro before depth tape
  exact ⟨fault, by rw [Tape.prepend_cons, Reader.readText_of_not_isTag he, h]⟩

theorem Breaks.append (h : Breaks es) (es' : List Event) : Breaks (es ++ es') := by
  intro before depth tape
  rw [Tape.prepend_append]
  exact h before depth _

/-- What stands before events that cannot be read does not help. -/
theorem Adds.breaks (h : Adds es s) (h' : Breaks es') : Breaks (es ++ es') := by
  intro before depth tape
  rw [Tape.prepend_append, h]
  exact h' _ depth tape

theorem Breaks.enter (h : Breaks es) (name : Bytes) : Breaks (.start name :: es) := by
  intro before depth tape
  exact h before (depth + 1) tape

end Event

open Event (Pieces Adds Breaks)

/-! ### Single segments -/

namespace Reader

variable {raw : Bytes}

/-- What is no UTF-8 has no text. -/
theorem exists_decode_eq_error (h : ∀ s, raw ≠ Utf8.encode s) :
    ∃ fault, Utf8.decode raw = .error fault := by
  cases hdecode : Utf8.decode raw with
  | ok s => exact absurd (Utf8.decode_eq_ok_iff.mp hdecode) (h s)
  | error fault => exact ⟨fault, rfl⟩

/-- A run of text or a literal text that is no UTF-8 cannot be read. -/
theorem breaks_of_decode {e : Event} (he : ¬ e.IsTag)
    (hpiece : piece e = (Utf8.decode raw).mapError .encoding) (h : ∀ s, raw ≠ Utf8.encode s) :
    Breaks [e] := by
  obtain ⟨fault, hfault⟩ := exists_decode_eq_error h
  rw [hfault] at hpiece
  exact Event.breaks_of_piece he hpiece

theorem breaks_reference (h : ∀ c, ¬ Reference.Names raw c) : Breaks [.reference raw] := by
  cases hresolve : Reference.resolve raw with
  | ok c => exact absurd (Reference.resolve_eq_ok_iff.mp hresolve) (h c)
  | error fault =>
    have hpiece : piece (.reference raw) = .error (.reference fault) := by
      rw [piece, hresolve]
      rfl
    exact Event.breaks_of_piece id hpiece

theorem adds_literal (s : String) : Adds [.literal (Utf8.encode s)] s :=
  Event.adds_of_piece id (by rw [piece, Utf8.decode_encode]; rfl)

theorem adds_reference {c : Char} (h : Reference.Names raw c) :
    Adds [.reference raw] (String.singleton c) :=
  Event.adds_of_piece id (by rw [piece, Reference.resolve_eq_ok_iff.mpr h]; rfl)

end Reader

namespace Markup.Segment

variable (checkNames : Bool)

/-- Text without signs of markup is read as a run, or not at all if there is none. -/
theorem exists_walk_text {s : String} (h : ∀ b ∈ Utf8.encode s, ¬ Token.endsText b)
    (opened : List Bytes) {more : Bytes} (hmore : Token.EndsText more) : ∃ es,
      Cursor.Walk { rest := Utf8.encode s ++ more, opened, checkNames } es
        { rest := more, opened, checkNames } ∧ Adds es s := by
  obtain ⟨es, hwalk, hes⟩ := @Cursor.exists_walk_text s opened checkNames more h hmore
  exact ⟨es, hwalk, hes.adds⟩

/-! ### Contents without a fault -/

mutual

/-- A segment other than a run of text is read as what it says, whatever follows it. -/
theorem exists_walk : (x : Segment) → ¬ x.IsText → x.IsProper → ∀ {s : String}, x.Says s →
    ∀ (opened : List Bytes) (more : Bytes), ∃ es,
      Cursor.Walk { rest := x.bytes ++ more, opened, checkNames } es
        { rest := more, opened, checkNames } ∧ Adds es s
  | .text raw, hx, _, _, _, _, _ => absurd ⟨raw, rfl⟩ hx
  | .literal raw, _, hraw, s, hs, opened, more => by
    obtain rfl : raw = Utf8.encode s := hs
    exact ⟨_, Cursor.walk_of_scan (Token.scan_literal hraw more) fun c => rfl,
      Reader.adds_literal s⟩
  | .reference raw, _, hraw, s, hs, opened, more => by
    obtain ⟨c, hc, rfl⟩ := hs
    exact ⟨_, Cursor.walk_of_scan (Token.scan_reference hraw more) fun c => rfl,
      Reader.adds_reference hc⟩
  | .comment content, _, hcontent, s, hs, opened, more => by
    obtain rfl : s = "" := hs
    have hscan := Token.scan_comment
      (Scan.not_infix_append_dropLast rfl (by decide) hcontent) more
    exact ⟨_, Cursor.walk_of_scan hscan fun c => rfl, Event.adds_remark⟩
  | .instruction content, _, hcontent, s, hs, opened, more => by
    obtain rfl : s = "" := hs
    have hscan := Token.scan_instruction hcontent.1 hcontent.2 more
    exact ⟨_, Cursor.walk_of_scan hscan fun c => rfl, Event.adds_remark⟩
  | .single name attributes, _, hname, s, hs, opened, more => by
    obtain rfl : s = "" := hs
    exact ⟨_, Cursor.walk_singleTag hname.1 hname.2 more, Event.adds_single name name⟩
  | .element name attributes blanks content, _, hproper, s, hs, opened, more => by
    obtain ⟨hname, hattributes, hblanks, hcontent⟩ := hproper
    have hends : Token.EndsText (endTag name blanks ++ more) := Token.endsText_of_lessThan rfl
    obtain ⟨es, hwalk, hes⟩ :=
      exists_walk_all content hcontent hs "" (by rintro b ⟨⟩) (name :: opened) hends
    refine ⟨.start name :: (es ++ [.close name]), ?_, hes.enclose name name⟩
    rw [bytes, List.append_assoc, List.append_assoc]
    exact .step (Cursor.next_startTag hname hattributes _)
      (hwalk.trans (.single (Cursor.next_endTag hname hblanks more)))

/-- A content is read as what it says, together with the text before it. -/
theorem exists_walk_all : (xs : List Segment) → AllProper xs → ∀ {s : String}, AllSay xs s →
    ∀ (t : String), (∀ b ∈ Utf8.encode t, ¬ Token.endsText b) → ∀ (opened : List Bytes)
      {more : Bytes}, Token.EndsText more → ∃ es,
        Cursor.Walk { rest := Utf8.encode t ++ (allBytes xs ++ more), opened, checkNames } es
          { rest := more, opened, checkNames } ∧ Adds es (t ++ s)
  | [], _, s, hs, t, ht, opened, more, hmore => by
    obtain rfl : s = "" := hs
    rw [String.append_empty]
    exact exists_walk_text checkNames ht opened hmore
  | x :: xs, hxs, s, hs, t, ht, opened, more, hmore => by
    obtain ⟨u, v, hu, hv, rfl⟩ := hs
    rw [allBytes, List.append_assoc, ← String.append_assoc]
    by_cases hx : x.IsText
    · -- The run of text goes on with the text before it.
      obtain ⟨raw, rfl⟩ := hx
      obtain rfl : raw = Utf8.encode u := hu
      have htu : ∀ b ∈ Utf8.encode (t ++ u), ¬ Token.endsText b := by
        rw [Utf8.encode_append]
        exact List.forall_mem_append.mpr ⟨ht, hxs.1⟩
      have hwalk := exists_walk_all xs hxs.2 hv (t ++ u) htu opened hmore
      rwa [Utf8.encode_append, List.append_assoc] at hwalk
    · -- The text before the segment is a run of its own.
      obtain ⟨es₁, hwalk₁, hes₁⟩ := exists_walk_text checkNames ht opened
        (endsText_bytes hx (allBytes xs ++ more))
      obtain ⟨es₂, hwalk₂, hes₂⟩ := exists_walk x hx hxs.1 hu opened (allBytes xs ++ more)
      obtain ⟨es₃, hwalk₃, hes₃⟩ := exists_walk_all xs hxs.2 hv "" (by rintro b ⟨⟩) opened hmore
      rw [String.empty_append] at hes₃
      exact ⟨_, hwalk₁.trans (hwalk₂.trans hwalk₃), by
        rw [String.append_assoc]
        exact hes₁.append (hes₂.append hes₃)⟩

end

/-- A segment is read as what it says, before anything that does not go on with it. -/
theorem exists_walk_front (x : Segment) (hx : x.IsProper) {s : String} (hs : x.Says s)
    (opened : List Bytes) {more : Bytes} (hmore : x.IsText → Token.EndsText more) : ∃ es,
      Cursor.Walk { rest := x.bytes ++ more, opened, checkNames } es
        { rest := more, opened, checkNames } ∧ Adds es s := by
  by_cases htext : x.IsText
  · obtain ⟨raw, rfl⟩ := htext
    obtain rfl : raw = Utf8.encode s := hs
    exact exists_walk_text checkNames hx opened (hmore ⟨_, rfl⟩)
  · exact exists_walk checkNames x htext hx hs opened more

/-! ### Contents with a fault -/

mutual

/-- Reading ends within a segment that is at fault. -/
theorem exists_walk_isFaulty : (x : Segment) → x.IsProper → x.IsApart → x.IsFaulty →
    ∀ (opened : List Bytes) {more : Bytes}, (x.IsText → Token.EndsText more) → ∃ es c,
      Cursor.Walk { rest := x.bytes ++ more, opened, checkNames } es c ∧ Breaks es
  | .text raw, hraw, _, hfault, opened, more, hmore => by
    have hne : raw ≠ [] := fun hnil => hfault "" hnil
    have hscan : Token.scan (raw ++ more) = .ok (some (.text raw, more)) :=
      Token.scan_eq_text_iff.mpr ⟨rfl, hne, hraw, hmore ⟨raw, rfl⟩⟩
    exact ⟨_, _, Cursor.walk_of_scan hscan fun c => rfl, Reader.breaks_of_decode id rfl hfault⟩
  | .literal raw, hraw, _, hfault, opened, more, _ =>
    ⟨_, _, Cursor.walk_of_scan (Token.scan_literal hraw more) fun c => rfl,
      Reader.breaks_of_decode id rfl hfault⟩
  | .reference raw, hraw, _, hfault, opened, more, _ =>
    ⟨_, _, Cursor.walk_of_scan (Token.scan_reference hraw more) fun c => rfl,
      Reader.breaks_reference hfault⟩
  | .comment _, _, _, hfault, _, _, _ => hfault.elim
  | .instruction _, _, _, hfault, _, _, _ => hfault.elim
  | .single _ _, _, _, hfault, _, _, _ => hfault.elim
  | .element name attributes blanks content, hproper, hapart, hfault, opened, more, _ => by
    obtain ⟨hname, hattributes, -, hcontent⟩ := hproper
    have hends : Token.EndsText (endTag name blanks ++ more) := Token.endsText_of_lessThan rfl
    obtain ⟨es, c, hwalk, hes⟩ :=
      exists_walk_anyFaulty content hcontent hapart hfault (name :: opened) hends
    refine ⟨_, c, ?_, hes.enter name⟩
    rw [bytes, List.append_assoc, List.append_assoc]
    exact .step (Cursor.next_startTag hname hattributes _) hwalk

/-- Reading ends within a content in which a segment is at fault. -/
theorem exists_walk_anyFaulty : (xs : List Segment) → AllProper xs → AllApart xs → AnyFaulty xs →
    ∀ (opened : List Bytes) {more : Bytes}, Token.EndsText more → ∃ es c,
      Cursor.Walk { rest := allBytes xs ++ more, opened, checkNames } es c ∧ Breaks es
  | [], _, _, hfault, _, _, _ => hfault.elim
  | x :: xs, hxs, hapart, hfault, opened, more, hmore => by
    have hends : x.IsText → Token.EndsText (allBytes xs ++ more) := fun hx =>
      endsText_allBytes (hapart.2.1 hx) hmore
    rw [allBytes, List.append_assoc]
    by_cases hx : x.IsFaulty
    · exact exists_walk_isFaulty x hxs.1 hapart.1 hx opened hends
    · -- The first segment says a text, and the fault lies behind it.
      have hbehind := hfault.resolve_left hx
      obtain ⟨s, hs⟩ := (exists_says_or_isFaulty x).resolve_right hx
      obtain ⟨es₁, hwalk₁, hes₁⟩ := exists_walk_front checkNames x hxs.1 hs opened hends
      obtain ⟨es₂, c, hwalk₂, hes₂⟩ :=
        exists_walk_anyFaulty xs hxs.2 hapart.2.2 hbehind opened hmore
      exact ⟨_, c, hwalk₁.trans hwalk₂, hes₁.breaks hes₂⟩

end

/-! ### The text of an element -/

variable {name blanks more : Bytes} {outer : List Bytes} {content : List Segment}

/-- What the content of an element says is the text of the element, and all of the element is read
with it. -/
theorem run_text_of_allSay (hname : IsTagName name) (hblanks : IsBlanks blanks)
    (hcontent : AllProper content) {s : String} (hs : AllSay content s) (trim : Bool) :
    Decoder.text.run trim (Cursor.tape
        { rest := allBytes content ++ (endTag name blanks ++ more)
          opened := name :: outer
          checkNames }) =
      .ok (if trim then Text.trim s else s,
        Cursor.tape { rest := more, opened := outer, checkNames }) := by
  have hends : Token.EndsText (endTag name blanks ++ more) := Token.endsText_of_lessThan rfl
  obtain ⟨es, hwalk, hes⟩ :=
    exists_walk_all checkNames content hcontent hs "" (by rintro b ⟨⟩) (name :: outer) hends
  have htape : Cursor.tape
      { rest := allBytes content ++ (endTag name blanks ++ more)
        opened := name :: outer
        checkNames } =
      prepend (es ++ [.close name]) (Cursor.tape { rest := more, opened := outer, checkNames }) :=
    (hwalk.trans (.single (Cursor.next_endTag hname hblanks more))).tape_eq
  have hread : Reader.readText "" 0
      (prepend (es ++ [.close name]) (Cursor.tape { rest := more, opened := outer, checkNames })) =
        .ok (s, Cursor.tape { rest := more, opened := outer, checkNames }) := by
    rw [Tape.prepend_append, hes, String.empty_append, String.empty_append]
    rfl
  show (Reader.readText "" 0 _).map _ = _
  rw [htape, hread]
  rfl

/-- The text of an element is what its content says, in document order, read once and trimmed as a
whole if texts are. If a segment says nothing because it is at fault, the element has no value. -/
theorem text_of_content (hname : IsTagName name) (hblanks : IsBlanks blanks)
    (hcontent : AllProper content) (trim : Bool) :
    (∀ s, AllSay content s →
      Decoder.text.run trim (Cursor.tape
          { rest := allBytes content ++ (endTag name blanks ++ more)
            opened := name :: outer
            checkNames }) =
        .ok (if trim then Text.trim s else s,
          Cursor.tape { rest := more, opened := outer, checkNames })) ∧
    (AllApart content → AnyFaulty content → ∃ fault,
      Decoder.text.run trim (Cursor.tape
          { rest := allBytes content ++ (endTag name blanks ++ more)
            opened := name :: outer
            checkNames }) = .error (.invalidValue fault)) := by
  refine ⟨fun s hs => run_text_of_allSay checkNames hname hblanks hcontent hs trim, ?_⟩
  intro hapart hfault
  have hends : Token.EndsText (endTag name blanks ++ more) := Token.endsText_of_lessThan rfl
  obtain ⟨es, c, hwalk, hes⟩ := exists_walk_anyFaulty checkNames content hcontent hapart hfault
    (name :: outer) hends
  obtain ⟨fault, hfault⟩ := hes "" 0 c.tape
  refine ⟨fault, ?_⟩
  show (Reader.readText "" 0 _).map _ = _
  rw [hwalk.tape_eq, hfault]
  rfl

theorem text_of_mixed_content :
    Decoder.text.run true (Cursor.tape
        { rest := Utf8.encode
            " a &amp;<![CDATA[&lt;]]><!--b--><c>&#x41;<?d e?> &#48;</c\n> </Key><Size>1</Size>"
          opened := [Utf8.encode "Key"] }) =
      .ok ("a &&lt;A 0", Cursor.tape { rest := Utf8.encode "<Size>1</Size>" }) ∧
    ∃ fault, Decoder.text.run true (Cursor.tape
        { rest := Utf8.encode "a &amp; b<c>&nbsp;</c></Key>"
          opened := [Utf8.encode "Key"] }) = .error (.invalidValue fault) := by
  have hkey : IsTagName (Utf8.encode "Key") :=
    (show IsName "Key" from isName_ofList rfl).isTagName
  have hc : IsTagName (Utf8.encode "c") := (show IsName "c" from isName_ofList rfl).isTagName
  have hempty : IsAttributes [] := isAttributes_empty
  constructor
  · let inner : List Segment :=
      [.reference (Utf8.encode "#x41"), .instruction (Utf8.encode "d e"), .text (Utf8.encode " "),
        .reference (Utf8.encode "#48")]
    let content : List Segment :=
      [.text (Utf8.encode " a "), .reference (Utf8.encode "amp"), .literal (Utf8.encode "&lt;"),
        .comment (Utf8.encode "b"), .element (Utf8.encode "c") [] (Utf8.encode "\n") inner,
        .text (Utf8.encode " ")]
    have hinner : AllProper inner := by
      simp only [inner, AllProper, IsProper]
      decide +kernel
    have hcontent : AllProper content := by
      simp only [content, AllProper, IsProper, hinner]
      exact ⟨by decide +kernel, by decide +kernel, by decide +kernel, by decide +kernel,
        ⟨hc, hempty, by decide +kernel, trivial⟩, by decide +kernel, trivial⟩
    have hcodeA : Reference.Names (Utf8.encode "#x41") 'A' :=
      @Reference.Names.hexadecimal ['4', '1'] 'A' (by decide) rfl (by decide)
    have hcode0 : Reference.Names (Utf8.encode "#48") '0' :=
      @Reference.Names.decimal ['4', '8'] '0' (by decide) rfl (by decide)
    let saidInner := "A" ++ ("" ++ (" " ++ ("0" ++ "")))
    let said := " a " ++ ("&" ++ ("&lt;" ++ ("" ++ (saidInner ++ (" " ++ "")))))
    have hsayInner : AllSay inner saidInner :=
      .cons ⟨'A', hcodeA, rfl⟩ (.cons rfl (.cons rfl (.cons ⟨'0', hcode0, rfl⟩ rfl)))
    have hsay : AllSay content said :=
      .cons rfl (.cons ⟨'&', .name (by decide), rfl⟩ (.cons rfl (.cons rfl (.cons hsayInner
        (.cons rfl rfl)))))
    have hbytes : Utf8.encode
          " a &amp;<![CDATA[&lt;]]><!--b--><c>&#x41;<?d e?> &#48;</c\n> </Key><Size>1</Size>" =
        allBytes content ++ (endTag (Utf8.encode "Key") [] ++ Utf8.encode "<Size>1</Size>") := by
      decide +kernel
    have htrim : Text.trim said = "a &&lt;A 0" := by decide +kernel
    rw [hbytes, ← htrim]
    exact (text_of_content true hkey isBlanks_nil hcontent true).1 said hsay
  · let content : List Segment :=
      [.text (Utf8.encode "a "), .reference (Utf8.encode "amp"), .text (Utf8.encode " b"),
        .element (Utf8.encode "c") [] [] [.reference (Utf8.encode "nbsp")]]
    have hcontent : AllProper content := by
      simp only [content, AllProper, IsProper]
      exact ⟨by decide +kernel, by decide +kernel, by decide +kernel,
        ⟨hc, hempty, by decide +kernel, by decide +kernel, trivial⟩, trivial⟩
    have hapart : AllApart content := by
      simp [content, AllApart, IsApart, IsText]
    have hfault : AnyFaulty content := by
      refine .inr (.inr (.inr (.inl (.inl fun c hc => ?_))))
      have hread : Reference.ofName "nbsp" = .error (.unknown "nbsp") := by decide
      rw [Reference.ofName_eq_ok_iff.mpr hc] at hread
      cases hread
    exact (text_of_content true hkey isBlanks_nil hcontent true).2 hapart hfault

end Markup.Segment

end BucketWire

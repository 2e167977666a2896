import BucketWire.Proofs.Markup.Name
import BucketWire.Proofs.Markup.Walk

/-!
# Tags as they are written

A tag is a name between signs of markup. A start tag may hold attributes behind the name, an end tag
only blanks. What a tag says is its name, and for a start tag whether it is also its own end tag.

## Main definitions

* `Markup.startTag`, `Markup.singleTag`, `Markup.endTag` — tags with their bytes
* `Markup.IsAttributes` — what may follow the name in a start tag
* `Markup.FollowsName` — what may follow the name in a self-closing tag
* `Markup.IsAttribute` — an attribute with its value

## Main results

* `Markup.startTag_append_slash` — a start tag that ends with a slash closes itself
* `Token.scan_startTag`, `Token.scan_singleTag`, `Token.scan_endTag` — the tokens of tags
* `Markup.IsAttribute.isAttributes` — an attribute goes before any others
* `Token.exists_startTag_of_scan`, `Token.exists_singleTag_of_scan`, `Token.exists_endTag_of_scan` —
  every tag with a name is written in this way
* `Cursor.next_startTag`, `Cursor.next_endTag`, `Cursor.walk_singleTag` — the events of tags
-/

namespace BucketWire

namespace Markup

/-- A start tag. -/
def startTag (name attributes : Bytes) : Bytes :=
  Ascii.lessThan :: (name ++ (attributes ++ [Ascii.greaterThan]))

/-- A tag that is also its own end tag. -/
def singleTag (name attributes : Bytes) : Bytes :=
  Ascii.lessThan :: (name ++ (attributes ++ [Ascii.slash, Ascii.greaterThan]))

/-- An end tag, with blanks behind the name. -/
def endTag (name blanks : Bytes) : Bytes :=
  Ascii.lessThan :: Ascii.slash :: (name ++ (blanks ++ [Ascii.greaterThan]))

/-- What may follow the name in a start tag: nothing, or a blank and attributes that leave no
quotation mark open and do not end with a slash. -/
structure IsAttributes (attributes : Bytes) : Prop where
  scan_tag : Scan.tag none (attributes ++ [Ascii.greaterThan]) = .ok (attributes, [])
  isBlank_of_head? : ∀ b ∈ attributes.head?, Ascii.isBlank b
  getLast?_ne : attributes.getLast? ≠ some Ascii.slash

/-- What may follow the name in a self-closing tag before the slash: nothing, or a blank and
attributes that leave no quotation mark open. -/
structure FollowsName (attributes : Bytes) : Prop where
  scan_tag : Scan.tag none (attributes ++ [Ascii.greaterThan]) = .ok (attributes, [])
  isBlank_of_head? : ∀ b ∈ attributes.head?, Ascii.isBlank b

/-- Blanks of markup. -/
def IsBlanks (blanks : Bytes) : Prop := ∀ b ∈ blanks, Ascii.isBlank b

/-- An attribute with its value between quotation marks, and the blanks before it. -/
inductive IsAttribute : Bytes → Prop where
  | mk {blanks value : Bytes} {name : String} : IsBlanks blanks → blanks ≠ [] →
    IsFullName name → Ascii.quotation ∉ value →
      IsAttribute (blanks ++ (Utf8.encode name ++
        (Utf8.encode "=\"" ++ (value ++ [Ascii.quotation]))))

variable {name attr attributes blanks content : Bytes}

/-- A start tag that ends with a slash is the self-closing tag without it. -/
theorem startTag_append_slash (name attributes : Bytes) :
    startTag name (attributes ++ [Ascii.slash]) = singleTag name attributes := by
  simp [startTag, singleTag]

theorem IsAttributes.followsName (h : IsAttributes attributes) : FollowsName attributes :=
  ⟨h.scan_tag, h.isBlank_of_head?⟩

instance (attributes : Bytes) : Decidable (FollowsName attributes) :=
  decidable_of_iff
    (Scan.tag none (attributes ++ [Ascii.greaterThan]) = .ok (attributes, []) ∧
      attributes.head?.all Ascii.isBlank = true)
    ⟨fun h => ⟨h.1, (Option.all_eq_true _ _).mp h.2⟩,
      fun h => ⟨h.scan_tag, (Option.all_eq_true _ _).mpr h.isBlank_of_head?⟩⟩

instance (attributes : Bytes) : Decidable (IsAttributes attributes) :=
  decidable_of_iff (FollowsName attributes ∧ attributes.getLast? ≠ some Ascii.slash)
    ⟨fun h => ⟨h.1.scan_tag, h.1.isBlank_of_head?, h.2⟩, fun h => ⟨h.followsName, h.getLast?_ne⟩⟩

theorem isAttributes_empty : IsAttributes (Utf8.encode "") := by decide

instance (blanks : Bytes) : Decidable (IsBlanks blanks) :=
  decidable_of_iff (blanks.all Ascii.isBlank = true) List.all_eq_true

theorem isBlanks_nil : IsBlanks [] := by decide

theorem IsBlanks.append {more : Bytes} (h : IsBlanks blanks) (hmore : IsBlanks more) :
    IsBlanks (blanks ++ more) :=
  List.forall_mem_append.mpr ⟨h, hmore⟩

/-- Blanks do not end a tag. -/
theorem IsBlanks.not_closesTag (h : IsBlanks blanks) :
    ∀ b ∈ blanks, b ≠ Ascii.greaterThan ∧ ¬ Ascii.isQuote b := by
  intro b hb
  have hblank := h b hb
  constructor
  · rintro rfl
    exact absurd hblank (by decide)
  · intro hquote
    simp only [Ascii.isQuote, Bool.or_eq_true, decide_eq_true_eq] at hquote
    rcases hquote with rfl | rfl <;> exact absurd hblank (by decide)

end Markup

/-! ### The end of a tag -/

namespace Scan

variable {content bytes rest : Bytes}

/-- Content without `>` and quotation marks does not end a tag. -/
theorem tag_append (h : ∀ b ∈ content, b ≠ Ascii.greaterThan ∧ ¬ Ascii.isQuote b) (bytes : Bytes) :
    tag none (content ++ bytes) = (tag none bytes).map fun p => (content ++ p.1, p.2) := by
  induction content with
  | nil =>
    rw [List.nil_append]
    cases tag none bytes <;> rfl
  | cons b content ih =>
    obtain ⟨hb, hquote⟩ := h b (by simp)
    rw [List.cons_append, tag, if_neg (by simp [hb]), quoteAfter, if_neg hquote,
      ih fun b hb => h b (by simp [hb])]
    cases tag none bytes <;> rfl

/-- Content that leaves no quotation mark open is gone past. -/
theorem tag_append_of_tag {quote : Option UInt8}
    (h : tag quote (content ++ [Ascii.greaterThan]) = .ok (content, [])) (bytes : Bytes) :
    tag quote (content ++ bytes) = (tag none bytes).map fun p => (content ++ p.1, p.2) := by
  induction content generalizing quote with
  | nil =>
    cases quote with
    | none =>
      rw [List.nil_append]
      cases tag none bytes <;> rfl
    | some q =>
      rw [List.nil_append, tag, if_neg (by simp), tag] at h
      cases h
  | cons b content ih =>
    rw [List.cons_append, tag] at h
    rw [List.cons_append, tag]
    split at h
    · simp at h
    · rename_i hclose
      obtain ⟨⟨content', rest⟩, htag, hp⟩ := Outcome.exists_of_map_eq_ok h
      cases hp
      rw [if_neg hclose, ih htag]
      cases tag none bytes <;> rfl

/-- A quotation goes up to the next quotation mark of its kind. -/
theorem tag_quoted {quote : UInt8} {value : Bytes} (hvalue : quote ∉ value) (bytes : Bytes) :
    tag (some quote) (value ++ quote :: bytes) =
      (tag none bytes).map fun p => (value ++ quote :: p.1, p.2) := by
  induction value with
  | nil =>
    rw [List.nil_append, tag, if_neg (by simp), quoteAfter, if_pos rfl]
    rfl
  | cons b value ih =>
    have hb : b ≠ quote := fun hb => hvalue (by simp [hb])
    rw [List.cons_append, tag, if_neg (by simp), quoteAfter, if_neg hb,
      ih fun hmem => hvalue (by simp [hmem])]
    cases tag none bytes <;> rfl

theorem eq_of_tag {quote : Option UInt8} (h : tag quote bytes = .ok (content, rest)) :
    bytes = content ++ Ascii.greaterThan :: rest := by
  induction bytes generalizing quote content with
  | nil => simp [tag] at h
  | cons b bytes ih =>
    rw [tag] at h
    split at h
    · rename_i hclose
      simp only [Except.ok.injEq, Prod.mk.injEq] at h
      obtain ⟨rfl, rfl⟩ := h
      rw [hclose.2, List.nil_append]
    · obtain ⟨p, htag, hp⟩ := Outcome.exists_of_map_eq_ok h
      cases hp
      rw [ih htag, List.cons_append]

/-- The content of a tag leaves no quotation mark open. -/
theorem tag_content (h : tag none bytes = .ok (content, rest)) :
    tag none (content ++ [Ascii.greaterThan]) = .ok (content, []) := by
  obtain ⟨taken, hbytes, htaken⟩ := stopsAt_tag h
  obtain rfl : taken = content ++ [Ascii.greaterThan] := by
    rw [eq_of_tag h, ← List.singleton_append, ← List.append_assoc] at hbytes
    exact (List.append_cancel_right hbytes).symm
  simpa using htaken []

/-- What goes on in a tag behind content that does not end it. -/
theorem tag_of_tag_append (hplain : ∀ b ∈ content, b ≠ Ascii.greaterThan ∧ ¬ Ascii.isQuote b)
    {more : Bytes} (h : tag none (content ++ bytes) = .ok (content ++ more, rest)) :
    tag none bytes = .ok (more, rest) := by
  rw [tag_append hplain] at h
  obtain ⟨p, htag, hp⟩ := Outcome.exists_of_map_eq_ok h
  simp only [Prod.mk.injEq, List.append_cancel_left_eq] at hp
  rw [htag, ← hp.1, ← hp.2]

/-- A slash at the end of a tag stands outside quotation marks. -/
theorem tag_of_tag_slash {quote : Option UInt8} (hquote : ∀ q ∈ quote, Ascii.isQuote q)
    (h : tag quote (content ++ [Ascii.slash, Ascii.greaterThan]) =
      .ok (content ++ [Ascii.slash], [])) :
    tag quote (content ++ [Ascii.greaterThan]) = .ok (content, []) := by
  induction content generalizing quote with
  | nil =>
    cases quote with
    | none => rfl
    | some q =>
      have hq : Ascii.slash ≠ q := by
        rintro rfl
        exact absurd (hquote _ rfl) (by decide)
      rw [List.nil_append, tag, if_neg (by simp), quoteAfter, if_neg hq, tag, if_neg (by simp),
        tag] at h
      cases h
  | cons b content ih =>
    rw [List.cons_append, tag] at h
    rw [List.cons_append, tag]
    split at h
    · simp at h
    · rename_i hclose
      have hquote' : ∀ q ∈ quoteAfter quote b, Ascii.isQuote q := by
        intro q hq
        cases quote with
        | none =>
          rw [quoteAfter] at hq
          split at hq
          · cases hq
            assumption
          · cases hq
        | some q' =>
          rw [quoteAfter] at hq
          split at hq
          · cases hq
          · cases hq
            exact hquote q rfl
      obtain ⟨⟨content', rest⟩, htag, hp⟩ := Outcome.exists_of_map_eq_ok h
      cases hp
      rw [if_neg hclose, ih hquote' htag]
      rfl

end Scan

/-! ### Attributes -/

namespace Markup.IsAttribute

variable {attr attributes : Bytes}

/-- A tag does not end in an attribute, whatever its value holds. -/
theorem tag_append (h : IsAttribute attr) (bytes : Bytes) :
    Scan.tag none (attr ++ bytes) = (Scan.tag none bytes).map fun p => (attr ++ p.1, p.2) := by
  cases h with
  | @mk blanks value name hblanks _ hname hvalue =>
    have hquote : ∀ bytes, Scan.tag none (Utf8.encode "=\"" ++ bytes) =
        (Scan.tag (some Ascii.quotation) bytes).map fun p => (Utf8.encode "=\"" ++ p.1, p.2) := by
      intro bytes
      have hbytes : Utf8.encode "=\"" = [0x3D, Ascii.quotation] := rfl
      have hopen : Scan.quoteAfter (Scan.quoteAfter none 0x3D) Ascii.quotation =
          some Ascii.quotation := rfl
      rw [hbytes, List.cons_append, List.singleton_append, Scan.tag, if_neg (by decide), Scan.tag,
        if_neg (by decide), hopen]
      cases Scan.tag (some Ascii.quotation) bytes <;> rfl
    simp only [List.append_assoc, List.singleton_append]
    rw [Scan.tag_append hblanks.not_closesTag, Scan.tag_append hname.isTagName.not_closesTag,
      hquote, Scan.tag_quoted hvalue]
    cases Scan.tag none bytes <;> simp [Except.map]

theorem isBlank_of_head? (h : IsAttribute attr) (attributes : Bytes) :
    ∀ b ∈ (attr ++ attributes).head?, Ascii.isBlank b := by
  cases h with
  | mk hblanks hne _ _ =>
    obtain ⟨b, blanks, rfl⟩ := List.exists_cons_of_ne_nil hne
    intro b' hb'
    obtain rfl : b = b' := by simpa using hb'
    exact hblanks b (by simp)

/-- An attribute goes before what follows the name in a self-closing tag. -/
theorem followsName (h : IsAttribute attr) (hattributes : FollowsName attributes) :
    FollowsName (attr ++ attributes) where
  scan_tag := by
    rw [List.append_assoc, h.tag_append, hattributes.scan_tag]
    rfl
  isBlank_of_head? := h.isBlank_of_head? attributes

/-- An attribute goes before what follows the name in a start tag. -/
theorem isAttributes (h : IsAttribute attr) (hattributes : IsAttributes attributes) :
    IsAttributes (attr ++ attributes) where
  scan_tag := (h.followsName hattributes.followsName).scan_tag
  isBlank_of_head? := h.isBlank_of_head? attributes
  getLast?_ne := by
    intro hlast
    rw [List.getLast?_append] at hlast
    cases hattributes' : attributes.getLast? with
    | some b =>
      rw [hattributes', Option.some_or] at hlast
      exact hattributes.getLast?_ne (hattributes'.trans hlast)
    | none =>
      rw [hattributes', Option.none_or] at hlast
      -- The last byte is the closing quotation mark.
      cases h with
      | mk _ _ _ _ =>
        simp only [List.getLast?_append, List.getLast?_singleton, Option.some_or] at hlast
        cases hlast

end Markup.IsAttribute

/-! ### Tags as tokens -/

namespace Token

open Markup (IsTagName IsAttributes FollowsName IsBlanks)

variable {name attributes blanks content bytes rest : Bytes}

/-- The name of a tag goes up to the first blank. -/
theorem takeWhile_of_isTagName (hname : IsTagName name)
    (hblank : ∀ b ∈ attributes.head?, Ascii.isBlank b) :
    (name ++ attributes).takeWhile (!Ascii.isBlank ·) = name := by
  rw [List.takeWhile_append_of_pos fun b hb => by simpa using hname.not_isBlank hb]
  cases attributes with
  | nil => simp
  | cons b attributes =>
    have hb : Ascii.isBlank b := hblank b rfl
    rw [List.takeWhile_cons_of_neg (by simp [hb]), List.append_nil]

/-- The content of a start tag holds the name, and no slash that would close the tag. -/
theorem ofStartTag_of_isTagName (hname : IsTagName name) (hattributes : IsAttributes attributes) :
    ofStartTag (name ++ attributes) = .startTag name false := by
  have hslash : (name ++ attributes).getLast? ≠ some Ascii.slash := by
    rw [List.getLast?_append]
    intro h
    cases hlast : attributes.getLast? with
    | some b =>
      rw [hlast, Option.some_or] at h
      exact hattributes.getLast?_ne (hlast.trans h)
    | none =>
      rw [hlast, Option.none_or] at h
      exact hname.ne (List.mem_of_getLast? h) (by decide) rfl
  rw [ofStartTag, if_neg hslash, takeWhile_of_isTagName hname hattributes.isBlank_of_head?]

/-- A slash at the end of the content closes the tag. -/
theorem ofStartTag_append_slash (hname : IsTagName name) (hattributes : FollowsName attributes) :
    ofStartTag (name ++ (attributes ++ [Ascii.slash])) = .startTag name true := by
  rw [← List.append_assoc, ofStartTag, if_pos (by simp), List.dropLast_concat,
    takeWhile_of_isTagName hname hattributes.isBlank_of_head?]

/-- A tag with a name in front is the token that its content makes it. -/
theorem scan_of_isTagName (hname : IsTagName name)
    (hcontent : Scan.tag none (content ++ [Ascii.greaterThan]) = .ok (content, []))
    (more : Bytes) :
    scan (Markup.startTag name content ++ more) =
      .ok (some (ofStartTag (name ++ content), more)) := by
  have hbytes : Markup.startTag name content ++ more =
      Ascii.lessThan :: (name ++ (content ++ Ascii.greaterThan :: more)) := by
    simp [Markup.startTag]
  have htag : Scan.tag none (name ++ (content ++ Ascii.greaterThan :: more)) =
      .ok (name ++ content, more) := by
    rw [Scan.tag_append hname.not_closesTag, Scan.tag_append_of_tag hcontent, Scan.tag,
      if_pos ⟨rfl, rfl⟩]
    simp only [Except.map, List.append_nil]
  obtain ⟨b, bytes, hb⟩ := List.exists_cons_of_ne_nil hname.ne_nil
  have hmem : b ∈ name := by simp [hb]
  rw [hbytes, scan, if_pos rfl]
  rw [hb, List.cons_append] at htag ⊢
  rw [scanMarkup, if_neg (hname.ne hmem (by decide)), if_neg (hname.ne hmem (by decide)),
    if_neg (hname.ne hmem (by decide)), scanTag, htag]
  rfl

/-- A start tag is a token with its name. -/
theorem scan_startTag (hname : IsTagName name) (hattributes : IsAttributes attributes)
    (more : Bytes) :
    scan (Markup.startTag name attributes ++ more) = .ok (some (.startTag name false, more)) := by
  rw [scan_of_isTagName hname hattributes.scan_tag, ofStartTag_of_isTagName hname hattributes]

/-- A self-closing tag is a token with its name. -/
theorem scan_singleTag (hname : IsTagName name) (hattributes : FollowsName attributes)
    (more : Bytes) :
    scan (Markup.singleTag name attributes ++ more) = .ok (some (.startTag name true, more)) := by
  have hslash : Scan.tag none ((attributes ++ [Ascii.slash]) ++ [Ascii.greaterThan]) =
      .ok (attributes ++ [Ascii.slash], []) := by
    rw [List.append_assoc, Scan.tag_append_of_tag hattributes.scan_tag]
    rfl
  rw [← Markup.startTag_append_slash, scan_of_isTagName hname hslash,
    ofStartTag_append_slash hname hattributes]

/-- Blanks after the name of an end tag say nothing. -/
theorem endTagName_append (hname : IsTagName name) (hblanks : IsBlanks blanks) :
    endTagName (name ++ blanks) = name := by
  obtain ⟨b, bytes, hbytes⟩ := List.exists_cons_of_ne_nil hname.ne_nil
  have hall : (name ++ blanks).all Ascii.isBlank = false := by
    rw [List.all_eq_false]
    exact ⟨b, by simp [hbytes], hname.not_isBlank (by simp [hbytes])⟩
  have hdrop : name.reverse.dropWhile Ascii.isBlank = name.reverse := by
    rw [List.dropWhile_eq_self_iff]
    intro h
    exact hname.not_isBlank (List.mem_reverse.mp (List.getElem_mem h))
  rw [endTagName, if_neg (by simp [hall]), List.reverse_append, List.dropWhile_append_of_pos,
    hdrop, List.reverse_reverse]
  exact fun b hb => hblanks b (List.mem_reverse.mp hb)

/-- An end tag is a token with its name. -/
theorem scan_endTag (hname : IsTagName name) (hblanks : IsBlanks blanks) (more : Bytes) :
    scan (Markup.endTag name blanks ++ more) = .ok (some (.endTag name, more)) := by
  have hbytes : Markup.endTag name blanks ++ more =
      Ascii.lessThan :: Ascii.slash :: (name ++ (blanks ++ Ascii.greaterThan :: more)) := by
    simp [Markup.endTag]
  rw [hbytes, scan, if_pos rfl, scanMarkup, if_neg (by decide), if_pos rfl, scanTag,
    Scan.tag_append hname.not_closesTag, Scan.tag_append hblanks.not_closesTag, Scan.tag,
    if_pos ⟨rfl, rfl⟩]
  simp only [Except.map, List.append_nil]
  rw [endTagName_append hname hblanks]

/-! ### Every tag -/

theorem exists_of_closed {construct : Markup.Construct} {token : Bytes → Token} {t : Token}
    {split : Option (Bytes × Bytes)} (h : closed construct token split = .ok (t, rest)) :
    ∃ content, t = token content := by
  cases split with
  | none => simp [closed] at h
  | some p =>
    simp only [closed, Except.ok.injEq, Prod.mk.injEq] at h
    exact ⟨p.1, h.1.symm⟩

/-- What starts with `<!` is no tag. -/
theorem cases_of_scanBang {t : Token} (h : scanBang bytes = .ok (t, rest)) :
    t = .remark ∨ ∃ raw, t = .literal raw := by
  cases bytes with
  | nil => simp [scanBang] at h
  | cons b bytes =>
    rw [scanBang, scanLiteral, scanComment, scanDocumentType] at h
    split at h
    · split at h
      · exact .inr (exists_of_closed h)
      · cases h
    · split at h
      · split at h
        · obtain ⟨-, rfl⟩ := exists_of_closed h
          exact .inl rfl
        · cases h
      · split at h
        · split at h
          · split at h
            · cases h
            · split at h
              · cases h
              · simp only [Except.ok.injEq, Prod.mk.injEq] at h
                exact .inl h.1.symm
          · cases h
        · cases h

/-- What starts with `<?` is no tag. -/
theorem eq_remark_of_scanInstruction {t : Token} (h : scanInstruction bytes = .ok (t, rest)) :
    t = .remark := by
  rw [scanInstruction] at h
  split at h
  · cases h
  · obtain ⟨-, rfl⟩ := exists_of_closed h
    rfl

theorem exists_of_scanTag {token : Bytes → Token} {t : Token}
    (h : scanTag token bytes = .ok (t, rest)) :
    ∃ content, Scan.tag none bytes = .ok (content, rest) ∧ t = token content := by
  rw [scanTag] at h
  obtain ⟨p, htag, hp⟩ := Outcome.exists_of_map_eq_ok h
  cases hp
  exact ⟨p.1, htag, rfl⟩

theorem exists_ofStartTag (content : Bytes) :
    ∃ name selfClosing, ofStartTag content = .startTag name selfClosing := by
  rw [ofStartTag]
  split <;> exact ⟨_, _, rfl⟩

theorem eq_reference_of_scanReference {t : Token} (h : scanReference bytes = .ok (t, rest)) :
    ∃ raw, t = .reference raw := by
  rw [scanReference] at h
  split at h
  · cases h
  · split at h
    · simp only [Except.ok.injEq, Prod.mk.injEq] at h
      exact ⟨_, h.1.symm⟩
    · cases h

/-- Tags are what starts with `<` and neither `!` nor `?`. -/
theorem exists_tag_of_scan {t : Token} (h : scan bytes = .ok (some (t, rest)))
    (ht : (∃ name selfClosing, t = .startTag name selfClosing) ∨ ∃ name, t = .endTag name) :
    (∃ content, bytes = Ascii.lessThan :: (content ++ Ascii.greaterThan :: rest) ∧
      Scan.tag none (content ++ [Ascii.greaterThan]) = .ok (content, []) ∧
      t = ofStartTag content) ∨
    ∃ content, bytes = Ascii.lessThan :: Ascii.slash :: (content ++ Ascii.greaterThan :: rest) ∧
      t = .endTag (endTagName content) := by
  cases bytes with
  | nil => simp [scan] at h
  | cons b bytes =>
    rw [scan] at h
    split at h
    · rename_i hb
      subst hb
      obtain ⟨p, hm, hp⟩ := Outcome.exists_of_map_eq_ok h
      cases hp
      cases bytes with
      | nil => simp [scanMarkup] at hm
      | cons b bytes =>
        rw [scanMarkup] at hm
        split at hm
        · obtain rfl | ⟨raw, rfl⟩ := cases_of_scanBang hm <;> simp at ht
        · split at hm
          · rename_i hb
            obtain ⟨content, htag, rfl⟩ := exists_of_scanTag hm
            exact .inr ⟨content, by rw [hb, Scan.eq_of_tag htag], rfl⟩
          · split at hm
            · obtain rfl := eq_remark_of_scanInstruction hm
              simp at ht
            · obtain ⟨content, htag, rfl⟩ := exists_of_scanTag hm
              exact .inl ⟨content, by rw [Scan.eq_of_tag htag], Scan.tag_content htag, rfl⟩
    · split at h
      · obtain ⟨p, hr, hp⟩ := Outcome.exists_of_map_eq_ok h
        cases hp
        obtain ⟨raw, rfl⟩ := eq_reference_of_scanReference hr
        simp at ht
      · simp only [Except.ok.injEq, Option.some.injEq, Prod.mk.injEq] at h
        simp [← h.1] at ht

/-- What follows the name of a tag starts with a blank. -/
theorem exists_append_of_takeWhile (content : Bytes) : ∃ attributes,
    content = content.takeWhile (!Ascii.isBlank ·) ++ attributes ∧
      ∀ b ∈ attributes.head?, Ascii.isBlank b := by
  refine ⟨content.dropWhile (!Ascii.isBlank ·), List.takeWhile_append_dropWhile.symm, ?_⟩
  intro b hb
  have hhead := List.head?_dropWhile_not (!Ascii.isBlank ·) content
  rw [Option.mem_def.mp hb] at hhead
  simpa using hhead

/-- A start tag is written as one. -/
theorem exists_startTag_of_scan (hname : IsTagName name)
    (h : scan bytes = .ok (some (.startTag name false, rest))) :
    ∃ attributes, IsAttributes attributes ∧ bytes = Markup.startTag name attributes ++ rest := by
  obtain ⟨content, rfl, htag, htoken⟩ | ⟨content, -, htoken⟩ := exists_tag_of_scan h (by simp)
  · rw [ofStartTag] at htoken
    split at htoken
    · simp at htoken
    · rename_i hslash
      simp only [startTag.injEq, and_true] at htoken
      obtain ⟨attributes, hcontent, hblank⟩ := exists_append_of_takeWhile content
      rw [← htoken] at hcontent
      subst hcontent
      rw [List.append_assoc] at htag
      refine ⟨attributes, ⟨Scan.tag_of_tag_append hname.not_closesTag htag, hblank, ?_⟩, ?_⟩
      · intro hlast
        rw [List.getLast?_append, hlast] at hslash
        exact hslash rfl
      · simp [Markup.startTag]
  · cases htoken

/-- A self-closing tag is written as one. -/
theorem exists_singleTag_of_scan (hname : IsTagName name)
    (h : scan bytes = .ok (some (.startTag name true, rest))) :
    ∃ attributes, FollowsName attributes ∧ bytes = Markup.singleTag name attributes ++ rest := by
  obtain ⟨content, rfl, htag, htoken⟩ | ⟨content, -, htoken⟩ := exists_tag_of_scan h (by simp)
  · rw [ofStartTag] at htoken
    split at htoken
    · rename_i hslash
      simp only [startTag.injEq, and_true] at htoken
      obtain ⟨inner, rfl⟩ := List.getLast?_eq_some_iff.mp hslash
      rw [List.dropLast_concat] at htoken
      obtain ⟨attributes, hcontent, hblank⟩ := exists_append_of_takeWhile inner
      rw [← htoken] at hcontent
      subst hcontent
      simp only [List.append_assoc, List.singleton_append] at htag
      have hslash' := Scan.tag_of_tag_append hname.not_closesTag htag
      refine ⟨attributes, ⟨Scan.tag_of_tag_slash (by simp) hslash', hblank⟩, ?_⟩
      simp [Markup.singleTag]
    · simp at htoken
  · cases htoken

/-- An end tag is written as one. -/
theorem exists_endTag_of_scan (hname : IsTagName name)
    (h : scan bytes = .ok (some (.endTag name, rest))) :
    ∃ blanks, IsBlanks blanks ∧ bytes = Markup.endTag name blanks ++ rest := by
  obtain ⟨content, -, -, htoken⟩ | ⟨content, rfl, htoken⟩ := exists_tag_of_scan h (by simp)
  · obtain ⟨name', selfClosing, hstart⟩ := exists_ofStartTag content
    rw [hstart] at htoken
    cases htoken
  · simp only [endTag.injEq] at htoken
    rw [endTagName] at htoken
    split at htoken
    · rename_i hall
      obtain ⟨b, bytes, hb⟩ := List.exists_cons_of_ne_nil hname.ne_nil
      have hmem : b ∈ name := by simp [hb]
      exact absurd (List.all_eq_true.mp hall b (htoken ▸ hmem)) (hname.not_isBlank hmem)
    · refine ⟨(content.reverse.takeWhile Ascii.isBlank).reverse, ?_, ?_⟩
      · intro b hb
        exact List.mem_takeWhile_imp (List.mem_reverse.mp hb)
      · have hcontent : content = name ++ (content.reverse.takeWhile Ascii.isBlank).reverse := by
          rw [htoken, ← List.reverse_append, List.takeWhile_append_dropWhile, List.reverse_reverse]
        simp only [Markup.endTag, List.cons_append, List.append_assoc, List.nil_append]
        rw [← List.append_assoc name, ← hcontent]

end Token

/-! ### Tags as events -/

namespace Cursor

open Markup (IsTagName IsAttributes FollowsName IsBlanks startTag singleTag endTag)

variable {name attributes blanks : Bytes} {opened : List Bytes} {checkNames : Bool}

theorem next_startTag (hname : IsTagName name) (hattributes : IsAttributes attributes)
    (more : Bytes) :
    ({ rest := startTag name attributes ++ more, opened, checkNames } : Cursor).next =
      .ok (some (.start name, { rest := more, opened := name :: opened, checkNames })) := by
  rw [next_of_scan rfl (Token.scan_startTag hname hattributes more)]
  rfl

theorem next_endTag (hname : IsTagName name) (hblanks : IsBlanks blanks) (more : Bytes) :
    ({ rest := endTag name blanks ++ more, opened := name :: opened, checkNames } : Cursor).next =
      .ok (some (.close name, { rest := more, opened, checkNames })) := by
  rw [next_of_scan rfl (Token.scan_endTag hname hblanks more), report,
    close_of_opened rfl fun _ => rfl]
  rfl

theorem walk_singleTag (hname : IsTagName name) (hattributes : FollowsName attributes)
    (more : Bytes) :
    Walk { rest := singleTag name attributes ++ more, opened, checkNames }
      [.start name, .close name] { rest := more, opened, checkNames } := by
  have hnext : ({ rest := singleTag name attributes ++ more, opened, checkNames } : Cursor).next =
      .ok (some (.start name, { rest := more, opened, owed := some name, checkNames })) := by
    rw [next_of_scan rfl (Token.scan_singleTag hname hattributes more)]
    rfl
  exact .step hnext (.single (next_of_owed rfl))

end Cursor

end BucketWire

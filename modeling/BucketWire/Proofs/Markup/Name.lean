import BucketWire.Proofs.Text.Utf8
import BucketWire.Decode.Reader
import Mathlib.Data.List.TakeWhile

/-!
# Names of elements

A name is made up of letters, digits and a few other signs, none of which means anything in a tag.
The first colon parts a prefix from the local name; names without one are their own local names.

## Main definitions

* `Markup.IsName` — names without a colon
* `Markup.IsFullName` — names in which colons may stand
* `Markup.IsTagName` — bytes that a tag can hold as its name
* `Markup.Names` — the full names that have a local name
* `Markup.HasLocalName` — the bytes that have a local name

## Main results

* `Markup.isName_ofList` — names can be told by their characters
* `Markup.IsName.decode_localName` — a name is its own local name
* `Markup.HasLocalName.localName_eq` — the first colon ends the prefix, which is no part of the
  local name
-/

namespace BucketWire

namespace Markup

/-- The characters that a name can start with, the colon apart. -/
def isNameStart (c : Char) : Bool :=
  let n := c.toNat
  (0x41 ≤ n && n ≤ 0x5A) || n == 0x5F || (0x61 ≤ n && n ≤ 0x7A) || (0xC0 ≤ n && n ≤ 0xD6) ||
    (0xD8 ≤ n && n ≤ 0xF6) || (0xF8 ≤ n && n ≤ 0x2FF) || (0x370 ≤ n && n ≤ 0x37D) ||
    (0x37F ≤ n && n ≤ 0x1FFF) || (0x200C ≤ n && n ≤ 0x200D) || (0x2070 ≤ n && n ≤ 0x218F) ||
    (0x2C00 ≤ n && n ≤ 0x2FEF) || (0x3001 ≤ n && n ≤ 0xD7FF) || (0xF900 ≤ n && n ≤ 0xFDCF) ||
    (0xFDF0 ≤ n && n ≤ 0xFFFD) || (0x10000 ≤ n && n ≤ 0xEFFFF)

/-- The characters that a name can go on with, the colon apart. -/
def isNameChar (c : Char) : Bool :=
  let n := c.toNat
  isNameStart c || n == 0x2D || n == 0x2E || (0x30 ≤ n && n ≤ 0x39) || n == 0xB7 ||
    (0x300 ≤ n && n ≤ 0x36F) || (0x203F ≤ n && n ≤ 0x2040)

/-- Names of elements, without a colon. -/
structure IsName (name : String) : Prop where
  start : ∃ c ∈ name.toList.head?, isNameStart c
  chars : ∀ c ∈ name.toList, isNameChar c

/-- Names of elements in which colons may stand. -/
structure IsFullName (name : String) : Prop where
  start : ∃ c ∈ name.toList.head?, isNameStart c ∨ c = ':'
  chars : ∀ c ∈ name.toList, isNameChar c ∨ c = ':'

/-- The full names that have the local name `localName`: itself if it has no colon, and what a
prefix and a colon make of it. -/
inductive Names (localName : String) : String → Prop where
  | plain : IsName localName → Names localName localName
  | prefixed {space : String} : IsName space → IsFullName localName →
    Names localName (space ++ ":" ++ localName)

/-- Whether a byte means nothing in a tag. -/
def isPlain (b : UInt8) : Bool :=
  !(Ascii.isBlank b || Ascii.isQuote b || b = Ascii.greaterThan || b = Ascii.slash ||
    b = Ascii.bang || b = Ascii.question)

/-- Bytes that a tag can hold as its name. -/
structure IsTagName (name : Bytes) : Prop where
  ne_nil : name ≠ []
  plain : ∀ b ∈ name, isPlain b

/-- Whether these are the characters of a name. -/
def spellsName : List Char → Bool
  | [] => false
  | c :: cs => isNameStart c && cs.all isNameChar

/-- A name is known by its characters. Those of a literal are at hand, so nothing is decoded. -/
theorem isName_ofList {cs : List Char} (h : spellsName cs = true) : IsName (String.ofList cs) := by
  cases cs with
  | nil => cases h
  | cons c cs =>
    rw [spellsName, Bool.and_eq_true, List.all_eq_true] at h
    obtain ⟨hstart, hchars⟩ := h
    constructor
    · rw [String.toList_ofList]
      exact ⟨c, rfl, hstart⟩
    · rw [String.toList_ofList]
      intro c' hc'
      rcases List.mem_cons.mp hc' with rfl | hc'
      · simp [isNameChar, hstart]
      · exact hchars c' hc'

end Markup

/-! ### Local names -/

namespace Reader

variable {name before : Bytes}

/-- Bytes without a colon are all part of the local name. -/
theorem localName_eq_self (h : Ascii.colon ∉ name) : localName name = name := by
  have hdrop : name.dropWhile (· ≠ Ascii.colon) = [] := by
    rw [List.dropWhile_eq_nil_iff]
    intro b hb
    simp only [ne_eq, decide_not, Bool.not_eq_eq_eq_not, Bool.not_true, decide_eq_false_iff_not]
    rintro rfl
    exact h hb
  rw [localName, hdrop]

/-- The first colon ends the prefix. -/
theorem localName_append (h : Ascii.colon ∉ before) (name : Bytes) :
    localName (before ++ Ascii.colon :: name) = name := by
  have hdrop : (before ++ Ascii.colon :: name).dropWhile (· ≠ Ascii.colon) =
      Ascii.colon :: name := by
    rw [List.dropWhile_append_of_pos]
    · rfl
    · intro b hb
      simp only [ne_eq, decide_not, Bool.not_eq_eq_eq_not, Bool.not_true, decide_eq_false_iff_not]
      rintro rfl
      exact h hb
  rw [localName, hdrop]

end Reader

namespace Markup

/-- The bytes that have the local name `localName`: itself if it has no colon, and what a colon
makes of it and of a prefix without one. -/
inductive HasLocalName (localName : String) : Bytes → Prop where
  | plain : Ascii.colon ∉ Utf8.encode localName → HasLocalName localName (Utf8.encode localName)
  | prefixed {space : Bytes} : Ascii.colon ∉ space →
    HasLocalName localName (space ++ Ascii.colon :: Utf8.encode localName)

theorem HasLocalName.localName_eq {localName : String} {name : Bytes}
    (h : HasLocalName localName name) : Reader.localName name = Utf8.encode localName := by
  cases h with
  | plain h => exact Reader.localName_eq_self h
  | prefixed h => exact Reader.localName_append h _

variable {name localName : String} {b : UInt8}

/-! ### Bytes of names -/

theorem isPlain_iff : isPlain b ↔ ¬ Ascii.isBlank b ∧ ¬ Ascii.isQuote b ∧
    b ≠ Ascii.greaterThan ∧ b ≠ Ascii.slash ∧ b ≠ Ascii.bang ∧ b ≠ Ascii.question := by
  simp [isPlain, and_assoc]

/-- Whatever means something in a tag is an ASCII character, and not one for names. -/
theorem not_isNameChar_of_not_isPlain (h : ¬ isPlain b) : b < 0x80 ∧
    ¬ (isNameChar (Char.ofNat b.toNat) ∨ Char.ofNat b.toNat = ':') := by
  simp only [isPlain, Ascii.isBlank, Ascii.isQuote, Bool.not_eq_true', Bool.not_eq_false,
    Bool.or_eq_true, decide_eq_true_eq] at h
  rcases h with ((((((((rfl | rfl) | rfl) | rfl) | rfl | rfl) | rfl) | rfl) | rfl) | rfl) <;> decide

namespace IsName

theorem isFullName (h : IsName name) : IsFullName name where
  start := by
    obtain ⟨c, hc, hstart⟩ := h.start
    exact ⟨c, hc, .inl hstart⟩
  chars c hc := .inl (h.chars c hc)

theorem colon_not_mem (h : IsName name) : Ascii.colon ∉ Utf8.encode name := by
  intro hmem
  have hchar := h.chars _ (Utf8.mem_of_mem_encode hmem (by decide))
  exact absurd hchar (by decide)

/-- A name has no prefix. -/
theorem localName_eq (h : IsName name) : Reader.localName (Utf8.encode name) = Utf8.encode name :=
  (HasLocalName.plain h.colon_not_mem).localName_eq

/-- A name without a colon is its own local name. -/
theorem decode_localName (h : IsName name) :
    Utf8.decode (Reader.localName (Utf8.encode name)) = .ok name := by
  rw [h.localName_eq, Utf8.decode_encode]

end IsName

theorem IsFullName.isTagName (h : IsFullName name) : IsTagName (Utf8.encode name) where
  ne_nil := by
    obtain ⟨⟨c, hc, -⟩, -⟩ := h
    intro hnil
    cases hname : name.toList with
    | nil => simp [hname] at hc
    | cons c' cs =>
      rw [Utf8.encode, hname, List.flatMap_cons, List.append_eq_nil_iff] at hnil
      exact String.utf8EncodeChar_ne_nil hnil.1
  plain b hb := by
    by_contra hplain
    obtain ⟨hlt, hchar⟩ := not_isNameChar_of_not_isPlain hplain
    exact hchar (h.chars _ (Utf8.mem_of_mem_encode hb hlt))

theorem IsName.isTagName (h : IsName name) : IsTagName (Utf8.encode name) :=
  h.isFullName.isTagName

namespace Names

theorem isFullName (h : Names localName name) : IsFullName name := by
  cases h with
  | plain h => exact h.isFullName
  | @prefixed space hspace h =>
    have hchars : (space ++ ":" ++ localName).toList =
        space.toList ++ ':' :: localName.toList := by
      simp
    constructor
    · obtain ⟨c, hc, hstart⟩ := hspace.start
      refine ⟨c, ?_, .inl hstart⟩
      rw [hchars, List.head?_append, hc]
      rfl
    · rw [hchars]
      intro c hc
      rcases List.mem_append.mp hc with hc | hc
      · exact .inl (hspace.chars c hc)
      · rcases List.mem_cons.mp hc with rfl | hc
        · exact .inr rfl
        · exact h.chars c hc

/-- A prefix is no part of the local name. -/
theorem localName_eq (h : Names localName name) :
    Reader.localName (Utf8.encode name) = Utf8.encode localName := by
  cases h with
  | plain h => exact h.localName_eq
  | @prefixed space hspace h =>
    have hbytes : Utf8.encode (space ++ ":" ++ localName) =
        Utf8.encode space ++ Ascii.colon :: Utf8.encode localName := by
      rw [Utf8.encode_append, Utf8.encode_append, List.append_assoc]
      rfl
    rw [hbytes]
    exact (HasLocalName.prefixed hspace.colon_not_mem).localName_eq

end Names

namespace IsTagName

variable {name : Bytes}

theorem not_isBlank (h : IsTagName name) (hb : b ∈ name) : ¬ Ascii.isBlank b :=
  (isPlain_iff.mp (h.plain b hb)).1

theorem ne (h : IsTagName name) (hb : b ∈ name) {sign : UInt8} (hsign : isPlain sign = false) :
    b ≠ sign := by
  rintro rfl
  rw [h.plain b hb] at hsign
  cases hsign

theorem not_closesTag (h : IsTagName name) :
    ∀ b ∈ name, b ≠ Ascii.greaterThan ∧ ¬ Ascii.isQuote b :=
  fun b hb => ⟨h.ne hb (by decide), (isPlain_iff.mp (h.plain b hb)).2.1⟩

end IsTagName

end Markup

end BucketWire

import BucketWire.Proofs.Text.Numeral
import BucketWire.Proofs.Text.Utf8
import BucketWire.Text.Query
import Mathlib.Data.List.Forall2

/-!
# Queries of pairs

Pairs are written as a query in which a letter, a digit, `-`, `.`, `_` or `~` may stand for itself,
and every other byte is escaped. There are several ways to write most pairs, and all of them keep
the separators out of keys and values, so the pairs are read back from each.

## Main definitions

* `Query.isUnreserved` — the bytes that stand for themselves
* `Query.Spells` — what may be written for a key or a value
* `Query.IsQuery` — what may be written for pairs
* `Query.render` — a query of pairs

## Main results

* `Query.component_of_spells` — a key or a value is read back
* `Query.IsQuery.parse_eq` — the pairs of a query are read back
* `Query.isQuery_render` — pairs can be written as a query
-/

namespace BucketWire

namespace Query

variable {b b' : UInt8}

/-! ### Escapes -/

/-- Whether a byte stands for itself in a query. -/
def isUnreserved (b : UInt8) : Bool :=
  (0x30 ≤ b && b ≤ 0x39) || (0x41 ≤ b && b ≤ 0x5A) || (0x61 ≤ b && b ≤ 0x7A) ||
    b ∈ [0x2D, 0x2E, 0x5F, 0x7E]

/-- The hexadecimal digit of `n`. -/
def hexDigit (n : Nat) : UInt8 := UInt8.ofNat (if n < 10 then 0x30 + n else 0x37 + n)

/-- What is written for a byte. -/
def escapeByte (b : UInt8) : Bytes :=
  if isUnreserved b then [b] else [0x25, hexDigit (b.toNat / 16), hexDigit (b.toNat % 16)]

/-- What is written for a key or a value. -/
def escape (text : String) : Bytes := (Utf8.encode text).flatMap escapeByte

theorem hexDigit?_hexDigit : ∀ n < 16, hexDigit? (hexDigit n) = some n := by decide

/-- Hexadecimal digits of either case stand for themselves. -/
theorem isUnreserved_of_hexDigit? {digit : UInt8} {n : Nat} (h : hexDigit? digit = some n) :
    isUnreserved digit = true := by
  have hall : ∀ n < 256, hexDigit? (UInt8.ofNat n) ≠ none →
      isUnreserved (UInt8.ofNat n) = true := by
    decide +kernel
  have hdigit := hall digit.toNat (UInt8.toNat_lt digit)
  rw [UInt8.ofNat_toNat] at hdigit
  exact hdigit (by simp [h])

/-! ### What may be written -/

/-- What may be written for a byte: the byte, if it stands for itself, a percent sign and its two
hexadecimal digits, or a plus sign for a space. -/
inductive SpellsByte : UInt8 → Bytes → Prop where
  | itself {b : UInt8} : isUnreserved b = true → SpellsByte b [b]
  | escaped {b high low : UInt8} : hexDigit? high = some (b.toNat / 16) →
    hexDigit? low = some (b.toNat % 16) → SpellsByte b [0x25, high, low]
  | space : SpellsByte 0x20 [0x2B]

/-- What may be written for bytes. -/
inductive Spells : Bytes → Bytes → Prop where
  | nil : Spells [] []
  | cons {b : UInt8} {bytes word written : Bytes} : SpellsByte b word → Spells bytes written →
    Spells (b :: bytes) (word ++ written)

/-- What may be written for a pair. -/
inductive SpellsPair : String × String → Bytes → Prop where
  | mk {p : String × String} {key value : Bytes} : Spells (Utf8.encode p.1) key →
    Spells (Utf8.encode p.2) value → SpellsPair p (key ++ 0x3D :: value)

/-- A text that may be written for pairs: one part for each of them, with `&` between the parts. -/
def IsQuery (pairs : List (String × String)) (text : String) : Prop :=
  ∃ parts, List.Forall₂ SpellsPair pairs parts ∧ Utf8.encode text = List.intercalate [0x26] parts

variable {bytes word written part : Bytes} {parts : List Bytes} {pairs : List (String × String)}
  {text : String} {c : Char}

theorem spellsByte_escapeByte (b : UInt8) : SpellsByte b (escapeByte b) := by
  have hlt := UInt8.toNat_lt b
  rw [escapeByte]
  split
  · rename_i hb
    exact .itself hb
  · exact .escaped (hexDigit?_hexDigit _ (by omega)) (hexDigit?_hexDigit _ (by omega))

theorem spells_escape (text : String) : Spells (Utf8.encode text) (escape text) := by
  rw [escape]
  generalize Utf8.encode text = bytes
  induction bytes with
  | nil => exact .nil
  | cons b bytes ih => exact .cons (spellsByte_escapeByte b) ih

theorem SpellsByte.mem (h : SpellsByte b word) (hb : b' ∈ word) :
    b' ∈ [0x25, 0x2B] ∨ isUnreserved b' = true := by
  cases h with
  | itself h =>
    rw [List.mem_singleton] at hb
    exact .inr (hb ▸ h)
  | escaped hhigh hlow =>
    simp only [List.mem_cons, List.not_mem_nil, or_false] at hb
    rcases hb with rfl | rfl | rfl
    · exact .inl (by decide)
    · exact .inr (isUnreserved_of_hexDigit? hhigh)
    · exact .inr (isUnreserved_of_hexDigit? hlow)
  | space =>
    rw [List.mem_singleton] at hb
    exact .inl (by simp [hb])

/-- Percent signs, plus signs and unreserved bytes are written, and no others. -/
theorem Spells.mem (h : Spells bytes written) (hb : b ∈ written) :
    b ∈ [0x25, 0x2B] ∨ isUnreserved b = true := by
  induction h with
  | nil => cases hb
  | cons hword _ ih =>
    rcases List.mem_append.mp hb with hb | hb
    · exact hword.mem hb
    · exact ih hb

/-- The separators of a query are not written for bytes. -/
theorem Spells.not_mem (h : Spells bytes written) : 0x26 ∉ written ∧ 0x3D ∉ written := by
  constructor <;>
    (intro hb
     rcases h.mem hb with hb | hb
     · exact absurd hb (by decide)
     · exact absurd hb (by decide))

theorem percentDecode_cons (h : b ≠ 0x25) (rest : Bytes) :
    percentDecode (b :: rest) = b :: percentDecode rest := by
  rw [percentDecode]
  rintro high low rest rfl
  exact absurd rfl h

theorem plusToSpace_cons (h : b ≠ 0x2B) (rest : Bytes) :
    plusToSpace (b :: rest) = b :: plusToSpace rest := by
  rw [plusToSpace, List.map_cons, if_neg h]
  rfl

/-- A byte is read back from what is written for it. -/
theorem SpellsByte.decode (h : SpellsByte b word) (rest : Bytes) :
    percentDecode (plusToSpace (word ++ rest)) = b :: percentDecode (plusToSpace rest) := by
  have hplain : ∀ {b : UInt8}, isUnreserved b = true → b ≠ 0x25 ∧ b ≠ 0x2B := by
    intro b hb
    constructor <;> (rintro rfl; exact absurd hb (by decide))
  cases h with
  | itself hb =>
    rw [List.singleton_append, plusToSpace_cons (hplain hb).2, percentDecode_cons (hplain hb).1]
  | @escaped _ high low hhigh hlow =>
    have hvalue : b.toNat / 16 * 16 + b.toNat % 16 = b.toNat := by omega
    rw [List.cons_append, List.cons_append, List.singleton_append, plusToSpace_cons (by decide),
      plusToSpace_cons (hplain (isUnreserved_of_hexDigit? hhigh)).2,
      plusToSpace_cons (hplain (isUnreserved_of_hexDigit? hlow)).2, percentDecode]
    simp only [hhigh, hlow, hvalue, UInt8.ofNat_toNat]
  | space => exact percentDecode_cons (by decide) _

/-- A key or a value is read back, in whichever way its bytes are written. -/
theorem component_of_spells (h : Spells (Utf8.encode text) written) :
    component written = text := by
  have hdecode : ∀ {bytes written : Bytes}, Spells bytes written →
      percentDecode (plusToSpace written) = bytes := by
    intro bytes written h
    induction h with
    | nil => rfl
    | cons hword _ ih => rw [hword.decode, ih]
  rw [component, hdecode h, Utf8.decodeLossy_encode]

/-! ### Pairs -/

/-- What is written for a pair. -/
def escapePair (pair : String × String) : Bytes := escape pair.1 ++ 0x3D :: escape pair.2

/-- The bytes of a query of pairs. -/
def joined (pairs : List (String × String)) : Bytes :=
  List.intercalate [0x26] (pairs.map escapePair)

/-- A query of pairs. -/
def render (pairs : List (String × String)) : String :=
  String.ofList ((joined pairs).map fun b => Char.ofNat b.toNat)

theorem pieces_eq_splitOn (separator : UInt8) (bytes : Bytes) :
    pieces separator bytes = bytes.splitOn separator := by
  induction bytes with
  | nil => rfl
  | cons b bytes ih =>
    rw [pieces, ih, List.splitOn_cons_eq_if_modifyHead]
    by_cases hb : b = separator
    · simp [hb]
    · have hne : (b == separator) = false := beq_false_of_ne hb
      have hnil := List.splitOn_ne_nil separator bytes
      cases hsplit : bytes.splitOn separator with
      | nil => exact absurd hsplit hnil
      | cons piece rest => simp [hb]

/-- A pair is read back from what is written for it. -/
theorem SpellsPair.pair_eq {p : String × String} (h : SpellsPair p part) : pair part = p := by
  obtain ⟨hkey, hvalue⟩ := h
  rename_i key value
  have hstop : ∀ b ∈ key, (b != 0x3D) = true := by
    intro b hb
    rw [bne_iff_ne]
    rintro rfl
    exact hkey.not_mem.2 hb
  rw [pair, List.takeWhile_append_of_pos hstop, List.dropWhile_append_of_pos hstop]
  simp [component_of_spells hkey, component_of_spells hvalue]

theorem SpellsPair.mem {p : String × String} (h : SpellsPair p part) (hb : b ∈ part) :
    b ∈ [0x3D, 0x25, 0x2B] ∨ isUnreserved b = true := by
  obtain ⟨hkey, hvalue⟩ := h
  simp only [List.mem_append, List.mem_cons] at hb
  rcases hb with hb | rfl | hb
  · exact (hkey.mem hb).imp (List.mem_cons_of_mem _) id
  · exact .inl (by decide)
  · exact (hvalue.mem hb).imp (List.mem_cons_of_mem _) id

theorem SpellsPair.ne_nil {p : String × String} (h : SpellsPair p part) : part ≠ [] := by
  obtain ⟨-, -⟩ := h
  exact List.append_ne_nil_of_right_ne_nil _ (List.cons_ne_nil _ _)

theorem spellsPair_escapePair (p : String × String) : SpellsPair p (escapePair p) :=
  ⟨spells_escape p.1, spells_escape p.2⟩

/-! ### Queries -/

/-- Every part of a query is what is written for some pair. -/
theorem exists_spellsPair_of_mem (h : List.Forall₂ SpellsPair pairs parts) (hpart : part ∈ parts) :
    ∃ p, SpellsPair p part := by
  induction h with
  | nil => cases hpart
  | cons hp _ ih =>
    rcases List.mem_cons.mp hpart with rfl | hpart
    · exact ⟨_, hp⟩
    · exact ih hpart

theorem mem_of_mem_intercalate {separator : UInt8}
    (h : b ∈ List.intercalate [separator] parts) : b = separator ∨ ∃ part ∈ parts, b ∈ part := by
  induction parts with
  | nil => simp at h
  | cons part rest ih =>
    cases rest with
    | nil =>
      rw [List.intercalate_singleton] at h
      exact .inr ⟨part, List.mem_cons_self, h⟩
    | cons next rest =>
      rw [List.intercalate_cons_cons, List.mem_append, List.mem_append, List.mem_singleton] at h
      rcases h with (h | h) | h
      · exact .inr ⟨part, List.mem_cons_self, h⟩
      · exact .inl h
      · exact (ih h).imp_right fun ⟨part', hpart', hb⟩ =>
          ⟨part', List.mem_cons_of_mem _ hpart', hb⟩

/-- A query has visible ASCII characters only. -/
theorem visible_of_mem_intercalate (hparts : List.Forall₂ SpellsPair pairs parts)
    (h : b ∈ List.intercalate [0x26] parts) : 0x21 ≤ b ∧ b < 0x7F := by
  obtain rfl | ⟨part, hpart, hb⟩ := mem_of_mem_intercalate h
  · decide
  obtain ⟨p, hp⟩ := exists_spellsPair_of_mem hparts hpart
  rcases hp.mem hb with h | h
  · simp only [List.mem_cons, List.not_mem_nil, or_false] at h
    rcases h with rfl | rfl | rfl <;> decide
  · simp only [isUnreserved, Bool.or_eq_true, Bool.and_eq_true, decide_eq_true_eq, List.mem_cons,
      List.not_mem_nil, or_false] at h
    rcases h with ((⟨hlow, hhigh⟩ | ⟨hlow, hhigh⟩) | ⟨hlow, hhigh⟩) | rfl | rfl | rfl | rfl
    all_goals first
      | decide
      | exact ⟨UInt8.le_trans (by decide) hlow, UInt8.lt_of_le_of_lt hhigh (by decide)⟩

/-- The pairs of a query are read back, in whichever way they are written. -/
theorem IsQuery.parse_eq (h : IsQuery pairs text) : parse text = pairs := by
  obtain ⟨parts, hparts, htext⟩ := h
  rw [parse, htext, pieces_eq_splitOn]
  by_cases hempty : parts = []
  · subst hempty
    cases hparts
    rfl
  · have hseparator : ∀ part ∈ parts, (0x26 : UInt8) ∉ part := by
      intro part hpart hb
      obtain ⟨p, hp⟩ := exists_spellsPair_of_mem hparts hpart
      rcases hp.mem hb with hb | hb <;> exact absurd hb (by decide)
    have hfilter : ∀ part ∈ parts, (!part.isEmpty) = true := by
      intro part hpart
      obtain ⟨p, hp⟩ := exists_spellsPair_of_mem hparts hpart
      simpa using hp.ne_nil
    rw [List.splitOn_intercalate _ hseparator hempty, List.filter_eq_self.mpr hfilter]
    clear hempty hseparator hfilter htext
    induction hparts with
    | nil => rfl
    | cons hp _ ih => rw [List.map_cons, hp.pair_eq, ih]

theorem IsQuery.not_isBlank (h : IsQuery pairs text) (hc : c ∈ text.toList) :
    ¬ Text.isBlank c := by
  obtain ⟨parts, hparts, htext⟩ := h
  obtain ⟨b, rest, hencode⟩ :=
    List.exists_cons_of_ne_nil (@String.utf8EncodeChar_ne_nil c)
  have hmem : b ∈ String.utf8EncodeChar c := by
    rw [hencode]
    exact List.mem_cons_self
  have hb : b ∈ Utf8.encode text := List.mem_flatMap.mpr ⟨c, hc, hmem⟩
  obtain ⟨hlow, hhigh⟩ := visible_of_mem_intercalate hparts (htext ▸ hb)
  have hvisible : ∀ n < 0x7F, 0x21 ≤ n → ¬ Text.isBlank (Char.ofNat n) := by decide
  have hvalue : c.toNat = b.toNat :=
    Utf8.toNat_eq_of_mem_utf8EncodeChar hmem (UInt8.lt_trans hhigh (by decide))
  rw [← Char.ofNat_toNat c, hvalue]
  exact hvisible b.toNat (UInt8.lt_iff_toNat_lt.mp hhigh) (UInt8.le_iff_toNat_le.mp hlow)

theorem isQuery_render (pairs : List (String × String)) : IsQuery pairs (render pairs) := by
  have hparts : List.Forall₂ SpellsPair pairs (pairs.map escapePair) :=
    List.forall₂_map_right_iff.mpr (List.forall₂_same.mpr fun p _ => spellsPair_escapePair p)
  have hascii : ∀ b ∈ joined pairs, String.utf8EncodeChar (Char.ofNat b.toNat) = [b] :=
    fun b hb => Utf8.utf8EncodeChar_ofNat
      (UInt8.lt_trans (visible_of_mem_intercalate hparts hb).2 (by decide))
  refine ⟨_, hparts, ?_⟩
  rw [render, Utf8.encode, String.toList_ofList, List.flatMap_map, List.flatMap_congr hascii]
  exact List.flatMap_singleton' _

end Query

end BucketWire

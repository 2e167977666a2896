import BucketWire.Text.Utf8
import Mathlib.Data.List.Basic

/-!
# Text in bytes and back

What is written for a text is read back as this text, strictly and leniently. No byte of a longer
character can be mistaken for an ASCII character.

## Main results

* `Utf8.front_append` — what stands in front of the bytes of a character and others
* `Utf8.decode_encode`, `Utf8.decodeLossy_encode` — a text is read back
* `Utf8.exists_of_decode_append` — parts of a text that meet between two characters
* `Utf8.mem_of_mem_encode` — where an ASCII byte stands in the bytes of a text
* `Utf8.decode_eq_ok_iff` — what is read as a text is written as it is
-/

namespace BucketWire

namespace Utf8

variable {n : Nat} {c : Char} {rest : Bytes}

/-! ### Bytes by their values -/

theorem ofNat_lt_iff (h : n < 256) (b : UInt8) : UInt8.ofNat n < b ↔ n < b.toNat := by
  rw [UInt8.lt_iff_toNat_lt, UInt8.toNat_ofNat_of_lt' h]

theorem ofNat_eq_iff (h : n < 256) (b : UInt8) : UInt8.ofNat n = b ↔ n = b.toNat := by
  rw [← UInt8.toNat_inj, UInt8.toNat_ofNat_of_lt' h]

theorem isContinuation_iff {b : UInt8} :
    isContinuation b = true ↔ 0x80 ≤ b.toNat ∧ b.toNat < 0xC0 := by
  simp only [isContinuation, Bool.and_eq_true, decide_eq_true_eq, UInt8.le_iff_toNat_le,
    UInt8.lt_iff_toNat_lt, UInt8.reduceToNat]

theorem isSecondOfThree_iff {lead b : UInt8} : isSecondOfThree lead b = true ↔
    isContinuation b = true ∧ (lead.toNat = 0xE0 → 0xA0 ≤ b.toNat) ∧
      (lead.toNat = 0xED → b.toNat < 0xA0) := by
  have hlead : ∀ k : UInt8, lead = k ↔ lead.toNat = k.toNat := fun k => UInt8.toNat_inj.symm
  rw [isSecondOfThree, isContinuation_iff]
  simp only [hlead, UInt8.reduceToNat]
  split
  · simp only [Bool.and_eq_true, decide_eq_true_eq, UInt8.le_iff_toNat_le, UInt8.lt_iff_toNat_lt,
      UInt8.reduceToNat]
    omega
  · split
    · simp only [Bool.and_eq_true, decide_eq_true_eq, UInt8.le_iff_toNat_le,
        UInt8.lt_iff_toNat_lt, UInt8.reduceToNat]
      omega
    · rw [isContinuation_iff]
      omega

theorem isSecondOfFour_iff {lead b : UInt8} : isSecondOfFour lead b = true ↔
    isContinuation b = true ∧ (lead.toNat = 0xF0 → 0x90 ≤ b.toNat) ∧
      (lead.toNat = 0xF4 → b.toNat < 0x90) := by
  have hlead : ∀ k : UInt8, lead = k ↔ lead.toNat = k.toNat := fun k => UInt8.toNat_inj.symm
  rw [isSecondOfFour, isContinuation_iff]
  simp only [hlead, UInt8.reduceToNat]
  split
  · simp only [Bool.and_eq_true, decide_eq_true_eq, UInt8.le_iff_toNat_le, UInt8.lt_iff_toNat_lt,
      UInt8.reduceToNat]
    omega
  · split
    · simp only [Bool.and_eq_true, decide_eq_true_eq, UInt8.le_iff_toNat_le,
        UInt8.lt_iff_toNat_lt, UInt8.reduceToNat]
      omega
    · rw [isContinuation_iff]
      omega

/-- A byte that carries six bits. -/
def tail (n : Nat) : UInt8 := UInt8.ofNat (n % 64 + 0x80)

theorem toNat_tail (n : Nat) : (tail n).toNat = n % 64 + 0x80 := by
  have h : n % 64 + 0x80 < 256 := by omega
  rw [tail, UInt8.toNat_ofNat_of_lt' h]

theorem isContinuation_tail (n : Nat) : isContinuation (tail n) = true := by
  rw [isContinuation_iff, toNat_tail]
  omega

theorem payload_tail (n : Nat) : payload (tail n) = n % 64 := by
  rw [payload, toNat_tail]
  omega

/-- A byte that carries six bits is known by them. -/
theorem tail_eq {b : UInt8} (hb : isContinuation b = true) (hn : n % 64 = payload b) :
    tail n = b := by
  rw [isContinuation_iff] at hb
  rw [payload] at hn
  rw [tail, hn, ofNat_eq_iff (by omega)]
  omega

/-! ### Characters -/

theorem front_one (h : n < 0x80) :
    front (UInt8.ofNat n :: rest) = .character (Char.ofNat n) rest := by
  have hlt : n < 256 := by omega
  have hlead : UInt8.ofNat n < 0x80 := (ofNat_lt_iff hlt _).mpr h
  rw [front, if_pos hlead, UInt8.toNat_ofNat_of_lt' hlt]

theorem front_two (hlow : 0x80 ≤ n) (hhigh : n < 0x800) :
    front (UInt8.ofNat (n / 64 % 0x20 + 0xC0) :: tail n :: rest) =
      .character (Char.ofNat n) rest := by
  have hlt : n / 64 % 0x20 + 0xC0 < 256 := by omega
  rw [front, if_neg, if_neg, if_pos, frontTwo, if_pos (isContinuation_tail n), payload_tail,
    UInt8.toNat_ofNat_of_lt' hlt]
  · congr 2
    omega
  all_goals
    simp only [ofNat_lt_iff hlt, UInt8.reduceToNat]
    omega

theorem front_three (hlow : 0x800 ≤ n) (hhigh : n < 0x10000) (hvalid : n < 0xD800 ∨ 0xDFFF < n) :
    front (UInt8.ofNat (n / 4096 % 0x10 + 0xE0) :: tail (n / 64) :: tail n :: rest) =
      .character (Char.ofNat n) rest := by
  have hlt : n / 4096 % 0x10 + 0xE0 < 256 := by omega
  have hsecond : isSecondOfThree (UInt8.ofNat (n / 4096 % 0x10 + 0xE0)) (tail (n / 64)) = true := by
    rw [isSecondOfThree_iff, toNat_tail, UInt8.toNat_ofNat_of_lt' hlt]
    refine ⟨isContinuation_tail _, ?_, ?_⟩ <;> omega
  rw [front, if_neg, if_neg, if_neg, if_pos, frontThree, if_pos hsecond]
  · simp only [isContinuation_tail, if_true, payload_tail, UInt8.toNat_ofNat_of_lt' hlt]
    congr 2
    omega
  all_goals
    simp only [ofNat_lt_iff hlt, UInt8.reduceToNat]
    omega

theorem front_four (hlow : 0x10000 ≤ n) (hhigh : n < 0x110000) :
    front (UInt8.ofNat (n / 262144 % 0x08 + 0xF0) :: tail (n / 4096) :: tail (n / 64) :: tail n ::
      rest) = .character (Char.ofNat n) rest := by
  have hlt : n / 262144 % 0x08 + 0xF0 < 256 := by omega
  have hsecond : isSecondOfFour (UInt8.ofNat (n / 262144 % 0x08 + 0xF0)) (tail (n / 4096)) =
      true := by
    rw [isSecondOfFour_iff, toNat_tail, UInt8.toNat_ofNat_of_lt' hlt]
    refine ⟨isContinuation_tail _, ?_, ?_⟩ <;> omega
  rw [front, if_neg, if_neg, if_neg, if_neg, if_pos, frontFour, if_pos hsecond]
  · simp only [isContinuation_tail, if_true, payload_tail, UInt8.toNat_ofNat_of_lt' hlt]
    congr 2
    omega
  all_goals
    simp only [ofNat_lt_iff hlt, UInt8.reduceToNat]
    omega

/-- The bytes of a character, by its code. -/
theorem utf8EncodeChar_cases (c : Char) :
    (c.toNat < 0x80 ∧ String.utf8EncodeChar c = [UInt8.ofNat c.toNat]) ∨
      (0x80 ≤ c.toNat ∧ c.toNat < 0x800 ∧
        String.utf8EncodeChar c = [UInt8.ofNat (c.toNat / 64 % 0x20 + 0xC0), tail c.toNat]) ∨
      (0x800 ≤ c.toNat ∧ c.toNat < 0x10000 ∧ String.utf8EncodeChar c =
        [UInt8.ofNat (c.toNat / 4096 % 0x10 + 0xE0), tail (c.toNat / 64), tail c.toNat]) ∨
      0x10000 ≤ c.toNat ∧ String.utf8EncodeChar c =
        [UInt8.ofNat (c.toNat / 262144 % 0x08 + 0xF0), tail (c.toNat / 4096),
          tail (c.toNat / 64), tail c.toNat] := by
  show (c.val.toNat < 0x80 ∧ _) ∨ (0x80 ≤ c.val.toNat ∧ c.val.toNat < 0x800 ∧ _) ∨
    (0x800 ≤ c.val.toNat ∧ c.val.toNat < 0x10000 ∧ _) ∨ 0x10000 ≤ c.val.toNat ∧ _
  rw [String.utf8EncodeChar]
  by_cases h₁ : c.val.toNat ≤ 0x7F
  · exact .inl ⟨by omega, if_pos h₁⟩
  · by_cases h₂ : c.val.toNat ≤ 0x7FF
    · exact .inr (.inl ⟨by omega, by omega, (if_neg h₁).trans (if_pos h₂)⟩)
    · by_cases h₃ : c.val.toNat ≤ 0xFFFF
      · exact .inr (.inr (.inl ⟨by omega, by omega,
          (if_neg h₁).trans ((if_neg h₂).trans (if_pos h₃))⟩))
      · exact .inr (.inr (.inr ⟨by omega, (if_neg h₁).trans ((if_neg h₂).trans (if_neg h₃))⟩))

/-- In front of the bytes of `c` and others stands `c`. -/
theorem front_append (c : Char) (rest : Bytes) :
    front (String.utf8EncodeChar c ++ rest) = .character c rest := by
  have hvalid : c.toNat < 0xD800 ∨ (0xDFFF < c.toNat ∧ c.toNat < 0x110000) := c.valid
  have hc : Char.ofNat c.toNat = c := Char.ofNat_toNat c
  obtain ⟨h, heq⟩ | ⟨hlow, hhigh, heq⟩ | ⟨hlow, hhigh, heq⟩ | ⟨hlow, heq⟩ := utf8EncodeChar_cases c
  · exact heq ▸ (front_one h).trans (by rw [hc]; rfl)
  · exact heq ▸ (front_two hlow hhigh).trans (by rw [hc]; rfl)
  · exact heq ▸ (front_three hlow hhigh (by omega)).trans (by rw [hc]; rfl)
  · exact heq ▸ (front_four hlow (by omega)).trans (by rw [hc]; rfl)

/-! ### Texts -/

theorem encode_ofList (cs : List Char) :
    encode (String.ofList cs) = cs.flatMap String.utf8EncodeChar := by
  rw [encode, String.toList_ofList]

theorem encode_append (s t : String) : encode (s ++ t) = encode s ++ encode t := by
  rw [encode, String.toList_append, List.flatMap_append]
  rfl

theorem decodeFrom_flatMap (cs : List Char) (index : Nat) (seen : List Char) :
    decodeFrom index seen (cs.flatMap String.utf8EncodeChar) = .ok (seen.reverse ++ cs) := by
  induction cs generalizing index seen with
  | nil =>
    rw [List.flatMap_nil, decodeFrom, List.append_nil]
    rfl
  | cons c cs ih =>
    rw [List.flatMap_cons, decodeFrom]
    split
    all_goals
      rename_i hfront
      rw [front_append] at hfront
      cases hfront
    rw [ih, List.reverse_cons, List.append_assoc]
    rfl

/-- A text is read back. -/
@[simp] theorem decode_encode (s : String) : decode (encode s) = .ok s := by
  rw [decode, encode, decodeFrom_flatMap]
  simp [Except.map]

/-- Different texts have different bytes. -/
theorem encode_inj {s t : String} : encode s = encode t ↔ s = t :=
  ⟨fun h => Except.ok.inj (by rw [← decode_encode s, h, decode_encode]), congrArg encode⟩

theorem decodeLossyFrom_flatMap (cs seen : List Char) :
    decodeLossyFrom seen (cs.flatMap String.utf8EncodeChar) = seen.reverse ++ cs := by
  induction cs generalizing seen with
  | nil =>
    rw [List.flatMap_nil, decodeLossyFrom, List.append_nil]
    rfl
  | cons c cs ih =>
    rw [List.flatMap_cons, decodeLossyFrom]
    split
    all_goals
      rename_i hfront
      rw [front_append] at hfront
      cases hfront
    rw [ih, List.reverse_cons, List.append_assoc]
    rfl

/-- A text is read back by the lenient reader as well. -/
@[simp] theorem decodeLossy_encode (s : String) : decodeLossy (encode s) = s := by
  rw [decodeLossy, encode, decodeLossyFrom_flatMap]
  simp

/-! ### Parts of texts -/

/-- A character does not go on behind a byte that does not continue it. -/
theorem front_of_append {a b rest : Bytes} {c : Char} (ha : a ≠ [])
    (hb : ∀ x ∈ b.head?, isContinuation x = false) (h : front (a ++ b) = .character c rest) :
    ∃ a', front a = .character c a' ∧ rest = a' ++ b := by
  have h3 := @isSecondOfThree_iff
  have h4 := @isSecondOfFour_iff
  obtain ⟨lead, a, rfl⟩ := List.exists_cons_of_ne_nil ha
  rw [List.cons_append] at h
  unfold front at h ⊢
  unfold frontTwo frontThree frontFour at *
  rcases a with _ | ⟨x, _ | ⟨y, _ | ⟨z, a⟩⟩⟩ <;> rcases b with _ | ⟨w, b⟩ <;> grind

theorem front_ne_done {bytes : Bytes} (h : bytes ≠ []) : front bytes ≠ .done := by
  obtain ⟨lead, rest, rfl⟩ := List.exists_cons_of_ne_nil h
  unfold front frontTwo frontThree frontFour
  grind

theorem decodeFrom_of_front {bytes rest : Bytes} {c : Char} (h : front bytes = .character c rest)
    (index : Nat) (seen : List Char) :
    decodeFrom index seen bytes = decodeFrom (index + c.utf8Size) (c :: seen) rest := by
  rw [decodeFrom]
  split <;> simp_all

/-- What is read does not depend on what was read before. -/
theorem exists_of_decodeFrom {bytes : Bytes} {index : Nat} {seen cs : List Char}
    (h : decodeFrom index seen bytes = .ok cs) : ∃ cs', cs = seen.reverse ++ cs' ∧
      ∀ index seen, decodeFrom index seen bytes = .ok (seen.reverse ++ cs') := by
  induction hn : bytes.length using Nat.strongRecOn generalizing bytes index seen with
  | _ n ih =>
    subst hn
    cases hfront : front bytes with
    | done =>
      have hdone : ∀ index seen, decodeFrom index seen bytes = .ok seen.reverse := by
        intro index seen
        rw [decodeFrom]
        split <;> simp_all
      rw [hdone] at h
      cases h
      exact ⟨[], by simp, fun index seen => by rw [hdone, List.append_nil]⟩
    | character c rest =>
      rw [decodeFrom_of_front hfront] at h
      obtain ⟨cs', rfl, hcs'⟩ := ih _ (length_lt_of_front_character hfront) h rfl
      refine ⟨c :: cs', by simp, fun index seen => ?_⟩
      rw [decodeFrom_of_front hfront, hcs']
      simp
    | illFormed length rest =>
      rw [decodeFrom] at h
      split at h <;> simp_all
    | cutOff =>
      rw [decodeFrom] at h
      split at h <;> simp_all

theorem exists_of_decodeFrom_append {a b : Bytes} {index : Nat} {seen cs : List Char}
    (hb : ∀ x ∈ b.head?, isContinuation x = false)
    (h : decodeFrom index seen (a ++ b) = .ok cs) : ∃ as bs, cs = seen.reverse ++ (as ++ bs) ∧
      (∀ index seen, decodeFrom index seen a = .ok (seen.reverse ++ as)) ∧
      ∀ index seen, decodeFrom index seen b = .ok (seen.reverse ++ bs) := by
  induction hn : a.length using Nat.strongRecOn generalizing a index seen with
  | _ n ih =>
    subst hn
    by_cases ha : a = []
    · subst ha
      obtain ⟨bs, rfl, hbs⟩ := exists_of_decodeFrom h
      refine ⟨[], bs, rfl, fun index seen => ?_, hbs⟩
      rw [decodeFrom]
      simp [front]
    · cases hfront : front (a ++ b) with
      | character c rest =>
        obtain ⟨a', ha', rfl⟩ := front_of_append ha hb hfront
        rw [decodeFrom_of_front hfront] at h
        obtain ⟨as, bs, rfl, has, hbs⟩ := ih _ (length_lt_of_front_character ha') h rfl
        refine ⟨c :: as, bs, by simp, fun index seen => ?_, hbs⟩
        rw [decodeFrom_of_front ha', has]
        simp
      | done => exact absurd hfront (front_ne_done (by simp [ha]))
      | _ =>
        rw [decodeFrom] at h
        split at h <;> simp_all

/-- Two parts of a text that meet between characters are texts. -/
theorem exists_of_decode_append {a b : Bytes} {s : String}
    (hb : ∀ x ∈ b.head?, isContinuation x = false) (h : decode (a ++ b) = .ok s) :
    ∃ t u, decode a = .ok t ∧ decode b = .ok u ∧ s = t ++ u := by
  cases hcs : decodeFrom 0 [] (a ++ b) with
  | error fault => simp [decode, hcs, Except.map] at h
  | ok cs =>
    obtain ⟨as, bs, rfl, has, hbs⟩ := exists_of_decodeFrom_append hb hcs
    simp only [decode, hcs, Except.map, Except.ok.injEq] at h
    refine ⟨String.ofList as, String.ofList bs, ?_, ?_, ?_⟩
    · simp [decode, has, Except.map]
    · simp [decode, hbs, Except.map]
    · rw [← h]
      simp [String.ofList_append]

/-! ### ASCII -/

theorem not_tail_lt (n : Nat) : ¬ tail n < 0x80 := by
  rw [UInt8.lt_iff_toNat_lt, toNat_tail]
  show ¬ n % 64 + 0x80 < 0x80
  omega

/-- An ASCII byte is that of an ASCII character, and no part of a longer one. -/
theorem toNat_eq_of_mem_utf8EncodeChar {b : UInt8} (hb : b ∈ String.utf8EncodeChar c)
    (h : b < 0x80) : c.toNat = b.toNat := by
  have hlead : ∀ n : Nat, 0x80 ≤ n → n < 256 → ¬ UInt8.ofNat n < 0x80 := by
    intro n hn hlt
    simp only [ofNat_lt_iff hlt, UInt8.reduceToNat]
    omega
  obtain ⟨hc, heq⟩ | ⟨-, -, heq⟩ | ⟨-, -, heq⟩ | ⟨-, heq⟩ := utf8EncodeChar_cases c
  all_goals
    rw [heq] at hb
    simp only [List.mem_cons, List.not_mem_nil, or_false] at hb
  · have hlt : c.toNat < 256 := by omega
    rw [hb, UInt8.toNat_ofNat_of_lt' hlt]
  · rcases hb with rfl | rfl
    · exact absurd h (hlead _ (by omega) (by omega))
    · exact absurd h (not_tail_lt _)
  · rcases hb with rfl | rfl | rfl
    · exact absurd h (hlead _ (by omega) (by omega))
    all_goals exact absurd h (not_tail_lt _)
  · rcases hb with rfl | rfl | rfl | rfl
    · exact absurd h (hlead _ (by omega) (by omega))
    all_goals exact absurd h (not_tail_lt _)

/-- An ASCII character is one byte. -/
theorem utf8EncodeChar_ofNat {b : UInt8} (h : b < 0x80) :
    String.utf8EncodeChar (Char.ofNat b.toNat) = [b] := by
  have hlt : b.toNat < 0x80 := UInt8.lt_iff_toNat_lt.mp h
  have hvalue : (Char.ofNat b.toNat).val.toNat = b.toNat := by
    rw [Char.ofNat, dif_pos (.inl (by omega))]
    rfl
  rw [String.utf8EncodeChar, if_pos (by omega), hvalue, UInt8.ofNat_toNat]

/-- Where an ASCII byte stands in the bytes of a text, there the ASCII character stands. -/
theorem mem_of_mem_encode {s : String} {b : UInt8} (hb : b ∈ encode s) (h : b < 0x80) :
    Char.ofNat b.toNat ∈ s.toList := by
  obtain ⟨c, hc, hb⟩ := List.mem_flatMap.mp hb
  rwa [← toNat_eq_of_mem_utf8EncodeChar hb h, Char.ofNat_toNat]

/-! ### Only texts -/

theorem toNat_ofNat_of_isValid (h : n < 0xD800 ∨ (0xDFFF < n ∧ n < 0x110000)) :
    (Char.ofNat n).toNat = n := by
  rw [Char.ofNat, dif_pos h]
  rfl

theorem eq_of_frontTwo {lead : UInt8} {bytes : Bytes} (hlow : 0xC2 ≤ lead.toNat)
    (hhigh : lead.toNat < 0xE0) (h : frontTwo lead bytes = .character c rest) :
    lead :: bytes = String.utf8EncodeChar c ++ rest := by
  rcases bytes with _ | ⟨b, bytes⟩ <;> rw [frontTwo] at h
  · cases h
  split at h
  · rename_i hb
    simp only [Front.character.injEq] at h
    obtain ⟨rfl, rfl⟩ := h
    have hpayload : payload b < 64 := Nat.mod_lt _ (by omega)
    have hc := @toNat_ofNat_of_isValid (lead.toNat % 32 * 64 + payload b) (by omega)
    obtain ⟨h, -⟩ | ⟨-, -, heq⟩ | ⟨h, -, -⟩ | ⟨h, -⟩ :=
      utf8EncodeChar_cases (Char.ofNat (lead.toNat % 32 * 64 + payload b))
    · omega
    · rw [heq, hc, tail_eq hb (by omega), (ofNat_eq_iff (by omega) lead).mpr (by omega)]
      rfl
    · omega
    · omega
  · cases h

theorem eq_of_frontThree {lead : UInt8} {bytes : Bytes} (hlow : 0xE0 ≤ lead.toNat)
    (hhigh : lead.toNat < 0xF0) (h : frontThree lead bytes = .character c rest) :
    lead :: bytes = String.utf8EncodeChar c ++ rest := by
  rcases bytes with _ | ⟨b, _ | ⟨d, bytes⟩⟩ <;> rw [frontThree] at h
  · cases h
  · split at h <;> cases h
  split at h
  · rename_i hb
    obtain ⟨hb, hoverlong, hsurrogate⟩ := isSecondOfThree_iff.mp hb
    split at h
    · rename_i hd
      simp only [Front.character.injEq] at h
      obtain ⟨rfl, rfl⟩ := h
      have hpb : payload b < 64 := Nat.mod_lt _ (by omega)
      have hpd : payload d < 64 := Nat.mod_lt _ (by omega)
      have hvalue : payload b + 0x80 = b.toNat := by
        have := isContinuation_iff.mp hb
        rw [payload]
        omega
      have hc := @toNat_ofNat_of_isValid
        (lead.toNat % 16 * 4096 + payload b * 64 + payload d) (by omega)
      obtain ⟨h, -⟩ | ⟨-, h, -⟩ | ⟨-, -, heq⟩ | ⟨h, -⟩ :=
        utf8EncodeChar_cases (Char.ofNat (lead.toNat % 16 * 4096 + payload b * 64 + payload d))
      · omega
      · omega
      · rw [heq, hc, tail_eq hb (by omega), tail_eq hd (by omega),
          (ofNat_eq_iff (by omega) lead).mpr (by omega)]
        rfl
      · omega
    · cases h
  · cases h

theorem eq_of_frontFour {lead : UInt8} {bytes : Bytes} (hlow : 0xF0 ≤ lead.toNat)
    (hhigh : lead.toNat < 0xF5) (h : frontFour lead bytes = .character c rest) :
    lead :: bytes = String.utf8EncodeChar c ++ rest := by
  rcases bytes with _ | ⟨b, _ | ⟨d, _ | ⟨e, bytes⟩⟩⟩ <;> rw [frontFour] at h
  · cases h
  · split at h <;> cases h
  · split at h
    · split at h <;> cases h
    · cases h
  split at h
  · rename_i hb
    obtain ⟨hb, hoverlong, hlimit⟩ := isSecondOfFour_iff.mp hb
    split at h
    · rename_i hd
      split at h
      · rename_i he
        simp only [Front.character.injEq] at h
        obtain ⟨rfl, rfl⟩ := h
        have hpb : payload b < 64 := Nat.mod_lt _ (by omega)
        have hpd : payload d < 64 := Nat.mod_lt _ (by omega)
        have hpe : payload e < 64 := Nat.mod_lt _ (by omega)
        have hvalue : payload b + 0x80 = b.toNat := by
          have := isContinuation_iff.mp hb
          rw [payload]
          omega
        have hc := @toNat_ofNat_of_isValid
          (lead.toNat % 8 * 262144 + payload b * 4096 + payload d * 64 + payload e) (by omega)
        obtain ⟨h, -⟩ | ⟨-, h, -⟩ | ⟨-, h, -⟩ | ⟨-, heq⟩ := utf8EncodeChar_cases
          (Char.ofNat (lead.toNat % 8 * 262144 + payload b * 4096 + payload d * 64 + payload e))
        · omega
        · omega
        · omega
        · rw [heq, hc, tail_eq hb (by omega), tail_eq hd (by omega), tail_eq he (by omega),
            (ofNat_eq_iff (by omega) lead).mpr (by omega)]
          rfl
      · cases h
    · cases h
  · cases h

/-- What stands in front of a byte sequence is written as it is. -/
theorem eq_append_of_front {bytes : Bytes} (h : front bytes = .character c rest) :
    bytes = String.utf8EncodeChar c ++ rest := by
  cases bytes with
  | nil => cases h
  | cons lead bytes =>
    simp only [front, UInt8.lt_iff_toNat_lt, UInt8.reduceToNat] at h
    split at h
    · rename_i hlead
      simp only [Front.character.injEq] at h
      obtain ⟨rfl, rfl⟩ := h
      rw [utf8EncodeChar_ofNat (UInt8.lt_iff_toNat_lt.mpr hlead)]
      rfl
    · split at h
      · cases h
      · split at h
        · exact eq_of_frontTwo (by omega) (by assumption) h
        · split at h
          · exact eq_of_frontThree (by omega) (by assumption) h
          · split at h
            · exact eq_of_frontFour (by omega) (by assumption) h
            · cases h

theorem eq_flatMap_of_decodeFrom {bytes : Bytes} {index : Nat} {seen cs : List Char}
    (h : decodeFrom index seen bytes = .ok cs) :
    ∃ cs', cs = seen.reverse ++ cs' ∧ bytes = cs'.flatMap String.utf8EncodeChar := by
  induction hn : bytes.length using Nat.strongRecOn generalizing bytes index seen with
  | _ n ih =>
    subst hn
    rw [decodeFrom] at h
    split at h
    · rename_i hfront
      cases h
      have hbytes : bytes = [] := by
        by_contra hne
        exact front_ne_done hne hfront
      exact ⟨[], by simp, hbytes⟩
    · rename_i c rest hfront
      obtain ⟨cs', rfl, hrest⟩ := ih _ (length_lt_of_front_character hfront) h rfl
      exact ⟨c :: cs', by simp, by rw [eq_append_of_front hfront, hrest, List.flatMap_cons]⟩
    · cases h
    · cases h

/-- The bytes of texts, and no others, are read as texts. -/
theorem decode_eq_ok_iff {bytes : Bytes} {s : String} :
    decode bytes = .ok s ↔ bytes = encode s := by
  constructor
  · intro h
    cases hcs : decodeFrom 0 [] bytes with
    | error fault => simp [decode, hcs, Except.map] at h
    | ok cs =>
      obtain ⟨cs', rfl, hbytes⟩ := eq_flatMap_of_decodeFrom hcs
      simp only [decode, hcs, Except.map, Except.ok.injEq] at h
      rw [hbytes, ← h, encode, String.toList_ofList]
  · rintro rfl
    exact decode_encode s

end Utf8

end BucketWire

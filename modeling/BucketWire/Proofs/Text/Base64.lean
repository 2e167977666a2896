import BucketWire.Proofs.Text.Utf8
import BucketWire.Proofs.Outcome
import BucketWire.Text.Base64

/-!
# Base64 is canonical

A text is decoded if it is the text of some bytes, and then to these bytes. So no two texts stand
for the same bytes: neither foreign characters nor missing padding nor stray bits are let pass.

## Main results

* `Base64.decodeGroups_encodeBytes` — the symbols of a byte sequence are decoded to it
* `Base64.eq_encodeBytes_of_decodeGroups` — what is decoded is the symbols of what was read
* `Base64.decode_eq_ok_iff` — the texts that are decoded, and to what
-/

namespace BucketWire

namespace Base64

variable {bytes group : Bytes} {offset position value a b c d : Nat}

open Outcome (exists_of_bind_eq_ok)

/-! ### The alphabet -/

theorem value?_symbol (h : value < 64) : value? (symbol value) = some value := by
  have hall : ∀ v : Fin 64, value? (symbol v) = some v.val := by decide
  exact hall ⟨value, h⟩

theorem eq_symbol_of_value? {s : UInt8} (h : value? s = some value) :
    value < 64 ∧ s = symbol value := by
  have hall : ∀ n : Fin 256, ∀ v ∈ value? (UInt8.ofNat n), v < 64 ∧ UInt8.ofNat n = symbol v := by
    decide +kernel
  have hs := hall ⟨s.toNat, s.toNat_lt⟩
  rw [UInt8.ofNat_toNat] at hs
  exact hs value h

/-- Symbols are ASCII, and none is the padding sign. -/
theorem symbol_isAscii (value : Nat) : symbol value < 0x80 ∧ symbol value ≠ padding := by
  have hall : ∀ v : Fin 64, symbol v < 0x80 ∧ symbol v ≠ padding := by decide
  by_cases h : value < 64
  · exact hall ⟨value, h⟩
  · rw [symbol, if_neg (by omega), if_neg (by omega), if_neg (by omega), if_neg (by omega)]
    decide

/-- The standard alphabet. -/
example : (List.range 64).map symbol = Utf8.encode
    "ABCDEFGHIJKLMNOPQRSTUVWXYZabcdefghijklmnopqrstuvwxyz0123456789+/" := by decide

theorem readSymbol_symbol (h : value < 64) : readSymbol offset (symbol value) = .ok value := by
  rw [readSymbol, value?_symbol h]

theorem eq_symbol_of_readSymbol {s : UInt8} (h : readSymbol offset s = .ok value) :
    value < 64 ∧ s = symbol value := by
  rw [readSymbol] at h
  cases hs : value? s with
  | none => simp [hs] at h
  | some v =>
    rw [hs] at h
    cases h
    exact eq_symbol_of_value? hs

/-! ### The bits of three bytes -/

/-- Four values come back from the bytes that they make. -/
theorem encodeBytes_threeBytes (ha : a < 64) (hb : b < 64) (hc : c < 64) (hd : d < 64)
    (rest : Bytes) : encodeBytes (threeBytes a b c d ++ rest) =
      symbol a :: symbol b :: symbol c :: symbol d :: encodeBytes rest := by
  have hfirst : a * 4 + b / 16 < 256 := by omega
  have hsecond : b % 16 * 16 + c / 4 < 256 := by omega
  have hthird : c % 4 * 64 + d < 256 := by omega
  simp only [threeBytes, List.cons_append, List.nil_append, encodeBytes]
  rw [UInt8.toNat_ofNat_of_lt' hfirst, UInt8.toNat_ofNat_of_lt' hsecond,
    UInt8.toNat_ofNat_of_lt' hthird]
  congr <;> omega

/-- Two values of which the last four bits are not used come back from the byte that they make. -/
theorem encodeBytes_one (ha : a < 64) (hb : b < 64) (hunused : b % 16 = 0) :
    encodeBytes [UInt8.ofNat (a * 4 + b / 16)] = [symbol a, symbol b, padding, padding] := by
  have hfirst : a * 4 + b / 16 < 256 := by omega
  simp only [encodeBytes]
  rw [UInt8.toNat_ofNat_of_lt' hfirst]
  congr <;> omega

/-- Three values of which the last two bits are not used come back from the bytes that they make. -/
theorem encodeBytes_two (ha : a < 64) (hb : b < 64) (hc : c < 64) (hunused : c % 4 = 0) :
    encodeBytes [UInt8.ofNat (a * 4 + b / 16), UInt8.ofNat (b % 16 * 16 + c / 4)] =
      [symbol a, symbol b, symbol c, padding] := by
  have hfirst : a * 4 + b / 16 < 256 := by omega
  have hsecond : b % 16 * 16 + c / 4 < 256 := by omega
  simp only [encodeBytes]
  rw [UInt8.toNat_ofNat_of_lt' hfirst, UInt8.toNat_ofNat_of_lt' hsecond]
  congr <;> omega

theorem ofNat_eq {x : UInt8} (h : value = x.toNat) : UInt8.ofNat value = x := by
  rw [h, UInt8.ofNat_toNat]

/-- Three bytes come back from their four values. -/
theorem threeBytes_eq (x y z : UInt8) :
    threeBytes (x.toNat / 4) (x.toNat % 4 * 16 + y.toNat / 16) (y.toNat % 16 * 4 + z.toNat / 64)
      (z.toNat % 64) = [x, y, z] := by
  have hx := x.toNat_lt
  have hy := y.toNat_lt
  have hz := z.toNat_lt
  rw [threeBytes, ofNat_eq (x := x) (by omega), ofNat_eq (x := y) (by omega),
    ofNat_eq (x := z) (by omega)]

/-! ### The last group -/

theorem lastValues_symbol (h : value < 64) (rest : Bytes) :
    lastValues offset position none (symbol value :: rest) =
      (lastValues offset (position + 1) none rest).map (value :: ·) := by
  rw [lastValues.eq_def]
  simp only [if_neg (symbol_isAscii value).2, readSymbol_symbol h]
  cases lastValues offset (position + 1) none rest <;> rfl

theorem lastValues_padding (h : 2 ≤ position) (padded : Option Nat) (rest : Bytes) :
    lastValues offset position padded (padding :: rest) =
      lastValues offset (position + 1) (some (padded.getD position)) rest := by
  rw [lastValues.eq_def]
  simp only [if_true, if_neg (Nat.not_lt.mpr h)]

/-- A group consists of the symbols of its values and of padding behind them. -/
theorem eq_of_lastValues {padded : Option Nat} {values : List Nat}
    (h : lastValues offset position padded group = .ok values) :
    (∀ v ∈ values, v < 64) ∧ (padded.isSome → values = []) ∧
      ∃ n, group = values.map symbol ++ List.replicate n padding := by
  induction group generalizing position padded values with
  | nil =>
    cases h
    exact ⟨by simp, fun _ => rfl, 0, rfl⟩
  | cons b rest ih =>
    rw [lastValues.eq_def] at h
    by_cases hb : b = padding
    · subst hb
      by_cases hposition : position < 2
      · simp [hposition] at h
      · simp only [if_true, if_neg hposition] at h
        obtain ⟨hvalues, hpadded, n, rfl⟩ := ih h
        obtain rfl : values = [] := hpadded rfl
        exact ⟨hvalues, fun _ => rfl, n + 1, rfl⟩
    · simp only [if_neg hb] at h
      cases padded with
      | some first => cases h
      | none =>
        obtain ⟨value, hs, h⟩ := exists_of_bind_eq_ok h
        obtain ⟨others, hrest, h⟩ := exists_of_bind_eq_ok h
        cases h
        obtain ⟨hvalue, rfl⟩ := eq_symbol_of_readSymbol hs
        obtain ⟨hothers, -, n, rfl⟩ := ih hrest
        exact ⟨by simpa [hvalue] using hothers, by simp, n, rfl⟩

theorem lastValues_replicate (n : Nat) (padded : Option Nat) (h : n ≠ 0 → 2 ≤ position) :
    lastValues offset position padded (List.replicate n padding) = .ok [] := by
  induction n generalizing position padded with
  | zero => rfl
  | succ n ih =>
    have hposition := h n.succ_ne_zero
    rw [List.replicate_succ, lastValues_padding hposition, ih _ fun _ => by omega]

/-- A group is read by its values alone, which are those of its symbols. -/
theorem lastValues_group (offset position n : Nat) {values : List Nat}
    (hvalues : ∀ v ∈ values, v < 64) (h : n ≠ 0 → 2 ≤ position + values.length) :
    lastValues offset position none (values.map symbol ++ List.replicate n padding) =
      .ok values := by
  induction values generalizing position with
  | nil => exact lastValues_replicate n none h
  | cons value values ih =>
    simp only [List.mem_cons, forall_eq_or_imp] at hvalues
    rw [List.map_cons, List.cons_append, lastValues_symbol hvalues.1, ih _ hvalues.2 (by grind)]
    rfl

theorem lastGroup_encodeBytes_one (offset : Nat) (x : UInt8) :
    lastGroup offset (encodeBytes [x]) = .ok [x] := by
  have hx := x.toNat_lt
  have hvalues : ∀ v ∈ [x.toNat / 4, x.toNat % 4 * 16], v < 64 := by simp; omega
  have hread := lastValues_group offset 0 2 hvalues (by simp)
  change lastValues offset 0 none (encodeBytes [x]) = _ at hread
  have hunused : x.toNat % 4 * 16 % 16 = 0 := by omega
  rw [lastGroup, hread]
  change (if x.toNat % 4 * 16 % 16 = 0 then _ else _) = _
  rw [if_pos hunused, ofNat_eq (x := x) (by omega)]

theorem lastGroup_encodeBytes_two (offset : Nat) (x y : UInt8) :
    lastGroup offset (encodeBytes [x, y]) = .ok [x, y] := by
  have hx := x.toNat_lt
  have hy := y.toNat_lt
  have hvalues : ∀ v ∈ [x.toNat / 4, x.toNat % 4 * 16 + y.toNat / 16, y.toNat % 16 * 4],
      v < 64 := by simp; omega
  have hread := lastValues_group offset 0 1 hvalues (by simp)
  change lastValues offset 0 none (encodeBytes [x, y]) = _ at hread
  have hunused : y.toNat % 16 * 4 % 4 = 0 := by omega
  rw [lastGroup, hread]
  change (if y.toNat % 16 * 4 % 4 = 0 then _ else _) = _
  rw [if_pos hunused, ofNat_eq (x := x) (by omega), ofNat_eq (x := y) (by omega)]

theorem lastGroup_encodeBytes_three (offset : Nat) (x y z : UInt8) :
    lastGroup offset (encodeBytes [x, y, z]) = .ok [x, y, z] := by
  have hx := x.toNat_lt
  have hy := y.toNat_lt
  have hz := z.toNat_lt
  have hvalues : ∀ v ∈ [x.toNat / 4, x.toNat % 4 * 16 + y.toNat / 16,
      y.toNat % 16 * 4 + z.toNat / 64, z.toNat % 64], v < 64 := by simp; omega
  have hread := lastValues_group offset 0 0 hvalues (by simp)
  change lastValues offset 0 none (encodeBytes [x, y, z]) = _ at hread
  rw [lastGroup, hread, ← threeBytes_eq x y z]
  rfl

/-- A group that is read is full. It has two to four values, whose bits are all used. -/
theorem lastGroup_cases (h : lastGroup offset group = .ok bytes) : group.length = 4 ∧
    ((∃ a b, lastValues offset 0 none group = .ok [a, b] ∧ b % 16 = 0 ∧
      bytes = [UInt8.ofNat (a * 4 + b / 16)]) ∨
    (∃ a b c, lastValues offset 0 none group = .ok [a, b, c] ∧ c % 4 = 0 ∧
      bytes = [UInt8.ofNat (a * 4 + b / 16), UInt8.ofNat (b % 16 * 16 + c / 4)]) ∨
    ∃ a b c d, lastValues offset 0 none group = .ok [a, b, c, d] ∧ bytes = threeBytes a b c d) := by
  obtain ⟨values, hread, h⟩ := exists_of_bind_eq_ok h
  simp only at h
  split_ifs at h with hshort hfull
  refine ⟨not_not.mp hfull, ?_⟩
  split at h
  · split_ifs at h with hunused
    cases h
    exact .inl ⟨_, _, hread, hunused, rfl⟩
  · split_ifs at h with hunused
    cases h
    exact .inr (.inl ⟨_, _, _, hread, hunused, rfl⟩)
  · cases h
    exact .inr (.inr ⟨_, _, _, _, hread, rfl⟩)
  · cases h

/-- A group that is read is the text of the bytes that it is read as. -/
theorem eq_encodeBytes_of_lastGroup (h : lastGroup offset group = .ok bytes) :
    group = encodeBytes bytes := by
  obtain ⟨hfull, ⟨a, b, hread, hunused, rfl⟩ | ⟨a, b, c, hread, hunused, rfl⟩ |
    ⟨a, b, c, d, hread, rfl⟩⟩ := lastGroup_cases h
  all_goals
    obtain ⟨hvalues, -, n, rfl⟩ := eq_of_lastValues hread
    simp only [List.length_append, List.length_map, List.length_cons, List.length_nil,
      List.length_replicate] at hfull
    simp only [List.mem_cons, forall_eq_or_imp] at hvalues
  · obtain rfl : n = 2 := by omega
    rw [encodeBytes_one hvalues.1 hvalues.2.1 hunused]
    rfl
  · obtain rfl : n = 1 := by omega
    rw [encodeBytes_two hvalues.1 hvalues.2.1 hvalues.2.2.1 hunused]
    rfl
  · obtain rfl : n = 0 := by omega
    have hgroup := encodeBytes_threeBytes hvalues.1 hvalues.2.1 hvalues.2.2.1 hvalues.2.2.2.1 []
    exact hgroup.symm

/-! ### Groups -/

theorem encodeBytes_ne_nil (h : bytes ≠ []) : encodeBytes bytes ≠ [] := by
  fun_cases encodeBytes bytes <;> simp_all

theorem length_encodeBytes_mod (bytes : Bytes) : (encodeBytes bytes).length % 4 = 0 := by
  fun_induction encodeBytes bytes with
  | case1 | case2 | case3 => simp
  | case4 x y z rest ih =>
    simp only [List.length_cons]
    omega

/-- A full group in front of others is read as its three bytes. -/
theorem decodeGroups_group (ha : a < 64) (hb : b < 64) (hc : c < 64) (hd : d < 64) {rest : Bytes}
    (hrest : rest ≠ []) : decodeGroups offset
        (symbol a :: symbol b :: symbol c :: symbol d :: rest) =
      (decodeGroups (offset + 4) rest).map (threeBytes a b c d ++ ·) := by
  obtain ⟨e, rest, rfl⟩ := List.exists_cons_of_ne_nil hrest
  simp only [decodeGroups, readSymbol_symbol ha, readSymbol_symbol hb, readSymbol_symbol hc,
    readSymbol_symbol hd]
  cases decodeGroups (offset + 4) (e :: rest) <;> rfl

/-- The symbols of a byte sequence are decoded to it. -/
theorem decodeGroups_encodeBytes (offset : Nat) (bytes : Bytes) :
    decodeGroups offset (encodeBytes bytes) = .ok bytes := by
  induction bytes using encodeBytes.induct generalizing offset with
  | case1 => rfl
  | case2 x => exact lastGroup_encodeBytes_one offset x
  | case3 x y => exact lastGroup_encodeBytes_two offset x y
  | case4 x y z rest ih =>
    by_cases hrest : rest = []
    · rw [hrest]
      exact lastGroup_encodeBytes_three offset x y z
    · have hx := x.toNat_lt
      have hy := y.toNat_lt
      have hz := z.toNat_lt
      rw [encodeBytes, decodeGroups_group (by omega) (by omega) (by omega) (by omega)
        (encodeBytes_ne_nil hrest), ih, threeBytes_eq]
      rfl

/-- What is decoded is the symbols of the bytes that it is decoded to. -/
theorem eq_encodeBytes_of_decodeGroups {symbols : Bytes}
    (h : decodeGroups offset symbols = .ok bytes) : symbols = encodeBytes bytes := by
  fun_induction decodeGroups offset symbols generalizing bytes with
  | case1 =>
    cases h
    rfl
  | case2 offset s t u v w rest ih =>
    obtain ⟨a, hs, h⟩ := exists_of_bind_eq_ok h
    obtain ⟨b, ht, h⟩ := exists_of_bind_eq_ok h
    obtain ⟨c, hu, h⟩ := exists_of_bind_eq_ok h
    obtain ⟨d, hv, h⟩ := exists_of_bind_eq_ok h
    obtain ⟨others, hrest, h⟩ := exists_of_bind_eq_ok h
    cases h
    obtain ⟨ha, rfl⟩ := eq_symbol_of_readSymbol hs
    obtain ⟨hb, rfl⟩ := eq_symbol_of_readSymbol ht
    obtain ⟨hc, rfl⟩ := eq_symbol_of_readSymbol hu
    obtain ⟨hd, rfl⟩ := eq_symbol_of_readSymbol hv
    rw [encodeBytes_threeBytes ha hb hc hd, ← ih hrest]
  | case3 offset group hnil hgroup => exact eq_encodeBytes_of_lastGroup h

/-! ### Texts -/

theorem lt_of_mem_encodeBytes {s : UInt8} (h : s ∈ encodeBytes bytes) : s < 0x80 := by
  have hsymbol : ∀ value, symbol value < 0x80 := fun value => (symbol_isAscii value).1
  have hpadding : padding < 0x80 := by decide
  induction bytes using encodeBytes.induct with
  | case1 => cases h
  | case2 | case3 | case4 =>
    rw [encodeBytes] at h
    grind

/-- The bytes of a base64 text are its symbols. -/
theorem encode_encode (bytes : Bytes) : Utf8.encode (encode bytes) = encodeBytes bytes := by
  have hascii : ∀ symbols : Bytes, (∀ s ∈ symbols, s < 0x80) →
      (symbols.map fun s => Char.ofNat s.toNat).flatMap String.utf8EncodeChar = symbols := by
    intro symbols hsymbols
    induction symbols with
    | nil => rfl
    | cons s symbols ih =>
      simp only [List.mem_cons, forall_eq_or_imp] at hsymbols
      rw [List.map_cons, List.flatMap_cons, Utf8.utf8EncodeChar_ofNat hsymbols.1, ih hsymbols.2]
      rfl
  rw [encode, Utf8.encode_ofList, hascii _ fun s => lt_of_mem_encodeBytes]

theorem strayByte?_encodeBytes (bytes : Bytes) : strayByte? (encodeBytes bytes) = none := by
  have hlength := length_encodeBytes_mod bytes
  unfold strayByte?
  split
  · rfl
  · exact if_neg fun h => by omega

/-- The texts that are decoded are those of byte sequences. -/
theorem decode_eq_ok_iff {text : String} : decode text = .ok bytes ↔ text = encode bytes := by
  constructor
  · intro h
    rw [decode] at h
    split at h
    · cases h
    · have htext : Utf8.encode text = Utf8.encode (encode bytes) := by
        rw [encode_encode, eq_encodeBytes_of_decodeGroups h]
      have hread := Utf8.decode_encode text
      rw [htext, Utf8.decode_encode] at hread
      exact (Except.ok.inj hread).symm
  · rintro rfl
    simp only [decode, encode_encode, strayByte?_encodeBytes, decodeGroups_encodeBytes]

example : encode [0x66, 0x6F, 0x6F, 0x62] = "Zm9vYg==" := by decide

/-- Different byte sequences have different texts. -/
theorem encode_inj {other : Bytes} : encode bytes = encode other ↔ bytes = other := by
  rw [← decode_eq_ok_iff, decode_eq_ok_iff.mpr rfl, Except.ok.injEq]

end Base64

end BucketWire

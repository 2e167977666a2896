import BucketWire.Proofs.Text.Numeral
import BucketWire.Time.Digits
import Mathlib.Algebra.Group.Nat.Defs

/-!
# Digits and their values

A field of `n` digits and a number below `10 ^ n` are two forms of the same thing. The digits of a
fraction are cut off or filled up with zeros, so that nine of them are left.

## Main definitions

* `Digits.padded` — a number in a fixed number of digits

## Main results

* `Digits.value_padded`, `Digits.padded_value` — a number is found from its digits, and the digits
  from the number
* `Digits.nanoseconds_eq_value` — the first nine digits of a fraction
* `Digits.nanoseconds_eq_div` — the nanoseconds below a fraction
-/

namespace BucketWire

namespace Digits

variable {n v : Nat} {ds : List Char}

/-- The last `n` decimal digits of `v`, with zeros in front. -/
def padded : Nat → Nat → List Char
  | 0, _ => []
  | n + 1, v => padded n (v / 10) ++ [(v % 10).digitChar]

theorem length_padded (n v : Nat) : (padded n v).length = n := by
  induction n generalizing v with
  | zero => rfl
  | succ n ih => rw [padded, List.length_append, ih, List.length_singleton]

theorem padded_ne_nil (hn : 0 < n) (v : Nat) : padded n v ≠ [] := by
  rw [← List.length_pos_iff, length_padded]
  exact hn

theorem isDigit_of_mem_padded {c : Char} (h : c ∈ padded n v) : c.isDigit := by
  induction n generalizing v with
  | zero => simp [padded] at h
  | succ n ih =>
    rw [padded, List.mem_append, List.mem_singleton] at h
    rcases h with h | rfl
    · exact ih h
    · have hlt : v % 10 < 10 := Nat.mod_lt _ (by omega)
      rw [Nat.isDigit_digitChar, decide_eq_true hlt]

theorem value_padded (h : v < 10 ^ n) : value (padded n v) = v := by
  induction n generalizing v with
  | zero =>
    obtain rfl : v = 0 := by simpa using h
    rfl
  | succ n ih =>
    have hdiv : v / 10 < 10 ^ n := by
      rw [Nat.div_lt_iff_lt_mul (by omega)]
      rwa [Nat.pow_succ] at h
    have hvalue : Nat.ofDigitChars 10 (padded n (v / 10)) 0 = v / 10 := ih hdiv
    rw [padded, value, Nat.ofDigitChars_append, hvalue,
      Nat.ofDigitChars_cons_digitChar_of_lt_ten (Nat.mod_lt _ (by omega)), Nat.ofDigitChars_nil]
    omega

/-! ### Digits of a value -/

/-- A digit stands for a number below ten, and is its digit. -/
theorem digit_spec {c : Char} (h : c.isDigit) :
    c.toNat - '0'.toNat < 10 ∧ (c.toNat - '0'.toNat).digitChar = c := by
  have hrange : 0x30 ≤ c.toNat ∧ c.toNat ≤ 0x39 := Char.isDigit_iff_toNat.mp h
  have hzero : '0'.toNat = 0x30 := rfl
  have hall : ∀ d : Fin 10, d.val.digitChar = Char.ofNat (d.val + 0x30) := by decide
  have hlt : c.toNat - '0'.toNat < 10 := by omega
  refine ⟨hlt, (hall ⟨_, hlt⟩).trans ?_⟩
  rw [show c.toNat - '0'.toNat + 0x30 = c.toNat by omega, Char.ofNat_toNat]

theorem value_append (ds es : List Char) :
    value (ds ++ es) = 10 ^ es.length * value ds + value es := by
  rw [value, Nat.ofDigitChars_append, Nat.ofDigitChars_eq_ofDigitChars_zero]
  rfl

theorem value_concat (ds : List Char) (c : Char) :
    value (ds ++ [c]) = 10 * value ds + (c.toNat - '0'.toNat) := by
  have hdigit : value [c] = c.toNat - '0'.toNat := by
    rw [value, Nat.ofDigitChars_cons, Nat.ofDigitChars_nil, Nat.mul_zero, Nat.zero_add]
  rw [value_append, hdigit, List.length_singleton, Nat.pow_one]

/-- Digits are found again from their value. -/
theorem padded_value (h : ∀ c ∈ ds, c.isDigit) : padded ds.length (value ds) = ds := by
  induction ds using List.reverseRecOn with
  | nil => rfl
  | append_singleton ds c ih =>
    obtain ⟨hlt, hchar⟩ := digit_spec (h c (by simp))
    rw [List.length_append, List.length_singleton, padded, value_concat,
      show (10 * value ds + (c.toNat - '0'.toNat)) / 10 = value ds by omega,
      show (10 * value ds + (c.toNat - '0'.toNat)) % 10 = c.toNat - '0'.toNat by omega,
      ih fun c hc => h c (by simp [hc]), hchar]

theorem value_lt (h : ∀ c ∈ ds, c.isDigit) : value ds < 10 ^ ds.length := by
  induction ds using List.reverseRecOn with
  | nil => exact Nat.one_pos
  | append_singleton ds c ih =>
    have hlt := (digit_spec (h c (by simp))).1
    have := ih fun c hc => h c (by simp [hc])
    rw [value_concat, List.length_append, List.length_singleton, Nat.pow_succ]
    omega

/-! ### Fractions -/

/-- Zeros are added to fewer than nine digits, and digits after the ninth are left out. -/
theorem nanoseconds_eq_value (ds : List Char) :
    nanoseconds ds = value ((ds ++ List.replicate 9 '0').take 9) := by
  rw [List.take_append, List.take_replicate, value_append, List.length_replicate]
  have hmin : min (9 - ds.length) 9 = 9 - ds.length := by omega
  have hzeros : value (List.replicate (9 - ds.length) '0') = 0 := by
    rw [value, Nat.ofDigitChars_replicate_zero, Nat.mul_zero]
  rw [hmin, hzeros, nanoseconds, Nat.add_zero, Nat.mul_comm]
  rfl

/-- The whole nanoseconds in a fraction of a second. -/
theorem nanoseconds_eq_div (h : ∀ c ∈ ds, c.isDigit) :
    nanoseconds ds = value ds * 10 ^ 9 / 10 ^ ds.length := by
  have hpow : Nat.pow 10 (9 - ds.length) = 10 ^ (9 - ds.length) := rfl
  rw [nanoseconds, hpow]
  rcases Nat.le_total ds.length 9 with hle | hle
  · have hsplit : 10 ^ 9 = 10 ^ (9 - ds.length) * 10 ^ ds.length := by
      rw [← Nat.pow_add, Nat.sub_add_cancel hle]
    rw [List.take_of_length_le hle, hsplit, ← Nat.mul_assoc,
      Nat.mul_div_cancel _ (Nat.pow_pos (by omega))]
  · -- The digits behind the ninth are worth less than one nanosecond.
    have hrest : value (ds.drop 9) < 10 ^ (ds.length - 9) := by
      rw [← List.length_drop]
      exact value_lt fun c hc => h c (List.mem_of_mem_drop hc)
    have hsplit : 10 ^ ds.length = 10 ^ (ds.length - 9) * 10 ^ 9 := by
      rw [← Nat.pow_add, Nat.sub_add_cancel hle]
    have hvalue : value ds = 10 ^ (ds.length - 9) * value (ds.take 9) + value (ds.drop 9) := by
      rw [← List.length_drop, ← value_append, List.take_append_drop]
    rw [hsplit, Nat.mul_div_mul_right _ _ (Nat.pow_pos (by omega)), hvalue,
      Nat.mul_add_div (Nat.pow_pos (by omega)), Nat.div_eq_of_lt hrest,
      Nat.sub_eq_zero_of_le hle, Nat.pow_zero, Nat.mul_one, Nat.add_zero]

theorem nanoseconds_padded (h : v < 10 ^ 9) : nanoseconds (padded 9 v) = v := by
  rw [nanoseconds, List.take_of_length_le (by rw [length_padded]), value_padded h, length_padded]
  simp

end Digits

end BucketWire

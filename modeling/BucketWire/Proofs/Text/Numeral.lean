import BucketWire.Proofs.Outcome
import BucketWire.Proofs.Text.Blank
import BucketWire.Text.Numeral
import Mathlib.Algebra.Group.Int.Defs
import Mathlib.Algebra.Group.Nat.Defs
import Mathlib.Data.List.TakeWhile

/-!
# Numerals in text and back

A numeral is an optional sign and at least one digit. It is read as its value exactly if the value
has the width, however many digits there are. The decimal numeral of a number is one of them. It has
no blanks, so nothing is trimmed off it.

## Main definitions

* `Numeral.valueFrom?` — the value of digits without a limit
* `Numeral.IsDecimal` — decimal digits and their value
* `Numeral.IsUnsigned`, `Numeral.IsSigned` — decimal numerals and their values

## Main results

* `Numeral.magnitude_eq_ok_iff` — which digits are read, in any base
* `Numeral.readUnsigned_eq_ok_iff`, `Numeral.readSigned_eq_ok_iff` — which numerals are read
* `Numeral.readSigned_decimal` — a decimal numeral is read back
-/

namespace BucketWire

namespace Numeral

variable {limit value : Nat} {overflow : Fault}

/-! ### Digits of any base -/

section AnyBase

variable {base n : Nat}

/-- The value of digits of `base` after digits of value `value`, however large it is. -/
def valueFrom? (base value : Nat) : List Char → Option Nat
  | [] => some value
  | c :: cs => (digit? base c).bind fun d => valueFrom? base (value * base + d) cs

theorem le_of_valueFrom? {cs : List Char} (hbase : 0 < base)
    (h : valueFrom? base value cs = some n) : value ≤ n := by
  induction cs generalizing value with
  | nil => exact Nat.le_of_eq (Option.some.inj h)
  | cons c cs ih =>
    obtain ⟨d, -, h⟩ := Option.bind_eq_some_iff.mp h
    exact Nat.le_trans (Nat.le_trans (Nat.le_mul_of_pos_right value hbase) (Nat.le_add_right _ d))
      (ih h)

/-- Digits are read up to their value exactly if it stays within the limit. -/
theorem magnitude_eq_ok_iff {cs : List Char} (hbase : 0 < base) (hvalue : value ≤ limit) :
    magnitude base limit overflow value cs = .ok n ↔
      valueFrom? base value cs = some n ∧ n ≤ limit := by
  induction cs generalizing value with
  | nil =>
    simp only [magnitude, valueFrom?, Except.ok.injEq, Option.some.injEq]
    constructor
    · rintro rfl
      exact ⟨rfl, hvalue⟩
    · exact And.left
  | cons c cs ih =>
    rw [magnitude, valueFrom?]
    cases hd : digit? base c with
    | none => simp
    | some d =>
      simp only [Option.bind_some]
      split
      · rename_i hle
        exact ih hle
      · rename_i hlarge
        constructor
        · simp
        · rintro ⟨h, hn⟩
          exact absurd (Nat.le_trans (le_of_valueFrom? hbase h) hn) hlarge

/-- A sign is no digit. -/
theorem digit?_sign {base : Nat} {sign : Char} (h : sign = '+' ∨ sign = '-') :
    digit? base sign = none := by
  rcases h with rfl | rfl <;> simp [digit?]

/-- What is no sign is read as digits. -/
theorem readUnsigned_cons {base bits : Nat} {d : Char} (hd : d ≠ '+') (digits : List Char) :
    readUnsigned base bits (d :: digits) =
      magnitude base (Nat.pow 2 bits - 1) .tooLarge 0 (d :: digits) := by
  rw [readUnsigned]
  · rfl
  · simpa using hd

end AnyBase

/-! ### Decimal digits -/

section Decimal

variable {n : Nat} {cs : List Char}

/-- `cs` is one or more decimal digits, and `n` is their value. -/
structure IsDecimal (cs : List Char) (n : Nat) : Prop where
  ne_nil : cs ≠ []
  isDigit : ∀ c ∈ cs, c.isDigit
  value_eq : Nat.ofDigitChars 10 cs 0 = n

theorem digit?_ten_eq_some_iff {c : Char} {d : Nat} :
    digit? 10 c = some d ↔ c.isDigit ∧ d = c.toNat - '0'.toNat := by
  have hzero : '0'.toNat = 0x30 := rfl
  rw [Char.isDigit_iff_toNat, hzero]
  simp only [digit?, Bool.and_eq_true, decide_eq_true_eq]
  grind

theorem valueFrom?_ten_eq_some_iff :
    valueFrom? 10 value cs = some n ↔
      (∀ c ∈ cs, c.isDigit) ∧ Nat.ofDigitChars 10 cs value = n := by
  induction cs generalizing value with
  | nil => simp [valueFrom?, Nat.ofDigitChars_nil]
  | cons c cs ih =>
    simp only [valueFrom?, Option.bind_eq_some_iff, digit?_ten_eq_some_iff, ih,
      List.forall_mem_cons, Nat.ofDigitChars_cons, Nat.mul_comm value 10]
    constructor
    · rintro ⟨d, ⟨hc, rfl⟩, hcs, hn⟩
      exact ⟨⟨hc, hcs⟩, hn⟩
    · rintro ⟨⟨hc, hcs⟩, hn⟩
      exact ⟨_, ⟨hc, rfl⟩, hcs, hn⟩

/-- Digits are read as their value exactly if it stays within the limit. -/
theorem digits_eq_ok_iff : digits 10 limit overflow cs = .ok n ↔ IsDecimal cs n ∧ n ≤ limit := by
  cases cs with
  | nil =>
    rw [digits]
    exact ⟨nofun, fun h => absurd rfl h.1.ne_nil⟩
  | cons c cs =>
    rw [digits, magnitude_eq_ok_iff (by omega) (Nat.zero_le _), valueFrom?_ten_eq_some_iff]
    constructor
    · rintro ⟨⟨hdigit, hvalue⟩, hn⟩
      exact ⟨⟨by simp, hdigit, hvalue⟩, hn⟩
    · rintro ⟨h, hn⟩
      exact ⟨⟨h.isDigit, h.value_eq⟩, hn⟩

theorem isDecimal_toDigits (n : Nat) : IsDecimal (Nat.toDigits 10 n) n where
  ne_nil := Nat.toDigits_ne_nil
  isDigit _ hc := Nat.isDigit_of_mem_toDigits (by omega) (by omega) hc
  value_eq := Nat.ofDigitChars_ten_toDigits

theorem IsDecimal.ne_sign {c : Char} (h : IsDecimal (c :: cs) n) : c ≠ '+' ∧ c ≠ '-' := by
  have hc := h.isDigit c (by simp)
  constructor <;>
    (rintro rfl
     exact absurd hc (by decide))

end Decimal

/-! ### Decimal numerals -/

/-- `cs` is decimal digits with or without a plus sign in front, and `n` is its value. -/
inductive IsUnsigned : List Char → Nat → Prop where
  | digits {cs : List Char} {n : Nat} (h : IsDecimal cs n) : IsUnsigned cs n
  | plus {cs : List Char} {n : Nat} (h : IsDecimal cs n) : IsUnsigned ('+' :: cs) n

/-- `cs` is decimal digits with or without a sign in front, and `n` is its value. -/
inductive IsSigned : List Char → Int → Prop where
  | digits {cs : List Char} {n : Nat} (h : IsDecimal cs n) : IsSigned cs n
  | plus {cs : List Char} {n : Nat} (h : IsDecimal cs n) : IsSigned ('+' :: cs) n
  | minus {cs : List Char} {n : Nat} (h : IsDecimal cs n) : IsSigned ('-' :: cs) (-n)

section Reading

variable {bits : Nat} {cs : List Char}

theorem le_pow_sub_one_iff {k n : Nat} : n ≤ Nat.pow 2 k - 1 ↔ n < 2 ^ k :=
  Nat.le_sub_one_iff_lt (Nat.two_pow_pos k)

/-- A numeral is read as its value exactly if the value has the unsigned width. -/
theorem readUnsigned_eq_ok_iff {n : Nat} :
    readUnsigned 10 bits cs = .ok n ↔ IsUnsigned cs n ∧ n < 2 ^ bits := by
  constructor
  · intro h
    unfold readUnsigned at h
    split at h
    · cases h
    · rw [digits_eq_ok_iff, le_pow_sub_one_iff] at h
      exact ⟨.plus h.1, h.2⟩
    · rw [digits_eq_ok_iff, le_pow_sub_one_iff] at h
      exact ⟨.digits h.1, h.2⟩
  · rintro ⟨hcs, hn⟩
    rw [← le_pow_sub_one_iff] at hn
    cases hcs with
    | plus h =>
      rw [readUnsigned, digits_eq_ok_iff]
      exact ⟨h, hn⟩
    | digits h =>
      obtain ⟨c, cs, rfl⟩ := List.exists_cons_of_ne_nil h.ne_nil
      rw [readUnsigned, digits_eq_ok_iff]
      · exact ⟨h, hn⟩
      · simpa using h.ne_sign.1

/-- A numeral is read as its value exactly if the value has the signed width. -/
theorem readSigned_eq_ok_iff {n : Int} :
    readSigned bits cs = .ok n ↔
      IsSigned cs n ∧ -2 ^ (bits - 1) ≤ n ∧ n < 2 ^ (bits - 1) := by
  have hpow : ((2 ^ (bits - 1) : Nat) : Int) = 2 ^ (bits - 1) := Int.natCast_pow ..
  have hpos := Nat.two_pow_pos (bits - 1)
  constructor
  · intro h
    unfold readSigned at h
    split at h
    · cases h
    all_goals
      obtain ⟨_, hread, rfl⟩ := Outcome.exists_of_map_eq_ok h
      obtain ⟨m, hdigits, hm⟩ := Outcome.exists_of_bind_eq_ok hread
      obtain rfl := Except.ok.inj hm
      obtain ⟨hm, hle⟩ := digits_eq_ok_iff.mp hdigits
    · have hle : m ≤ 2 ^ (bits - 1) := hle
      exact ⟨.minus hm, by omega, by omega⟩
    · rw [le_pow_sub_one_iff] at hle
      exact ⟨.plus hm, by omega, by omega⟩
    · rw [le_pow_sub_one_iff] at hle
      exact ⟨.digits hm, by omega, by omega⟩
  · rintro ⟨hcs, hlow, hhigh⟩
    cases hcs with
    | @minus cs m h =>
      have hm : m ≤ 2 ^ (bits - 1) := by omega
      rw [readSigned, Nat.pow_eq, digits_eq_ok_iff.mpr ⟨h, hm⟩]
      rfl
    | @plus cs m h =>
      have hm : m < 2 ^ (bits - 1) := by omega
      rw [readSigned, digits_eq_ok_iff.mpr ⟨h, le_pow_sub_one_iff.mpr hm⟩]
      rfl
    | @digits cs m h =>
      have hm : m < 2 ^ (bits - 1) := by omega
      obtain ⟨c, cs, rfl⟩ := List.exists_cons_of_ne_nil h.ne_nil
      rw [readSigned, digits_eq_ok_iff.mpr ⟨h, le_pow_sub_one_iff.mpr hm⟩]
      · rfl
      · simpa using h.ne_sign.2
      · simpa using h.ne_sign.1

theorem isUnsigned_decimal (n : Nat) : IsUnsigned (decimal n).toList n := by
  show IsUnsigned (String.ofList (Nat.toDigits 10 n)).toList n
  rw [String.toList_ofList]
  exact .digits (isDecimal_toDigits n)

theorem isSigned_decimal (n : Int) : IsSigned (decimal n).toList n := by
  cases n with
  | ofNat m =>
    rw [decimal, String.toList_ofList]
    exact .digits (isDecimal_toDigits m)
  | negSucc m =>
    rw [decimal, String.toList_ofList]
    exact .minus (isDecimal_toDigits (m + 1))

/-- A decimal numeral is read back, if the number has the width. -/
theorem readSigned_decimal {n : Int} (hlow : -2 ^ (bits - 1) ≤ n) (hhigh : n < 2 ^ (bits - 1)) :
    readSigned bits (decimal n).toList = .ok n :=
  readSigned_eq_ok_iff.mpr ⟨isSigned_decimal n, hlow, hhigh⟩

end Reading

theorem not_isBlank_of_mem_decimal {n : Int} {c : Char} (hc : c ∈ (decimal n).toList) :
    ¬ Text.isBlank c := by
  have hdigits : ∀ m, c ∈ Nat.toDigits 10 m → ¬ Text.isBlank c := fun m hm =>
    Text.not_isBlank_of_isDigit (Nat.isDigit_of_mem_toDigits (by omega) (by omega) hm)
  cases n with
  | ofNat m =>
    rw [decimal, String.toList_ofList] at hc
    exact hdigits m hc
  | negSucc m =>
    rw [decimal, String.toList_ofList, List.mem_cons] at hc
    rcases hc with rfl | hc
    · decide
    · exact hdigits _ hc

end Numeral

end BucketWire

import BucketWire.Markup.Reference
import BucketWire.Proofs.Text.Numeral
import BucketWire.Proofs.Text.Utf8

/-!
# What references name

A character is named by its code, in decimal or hexadecimal digits of any number, or by one of five
names. A reference is read as the character that it names, and is at fault if it names none.

## Main definitions

* `Reference.Names` — which character a reference names, as a statement about its bytes

## Main results

* `Reference.resolve_eq_ok_iff` — a reference is read as the character that it names
-/

namespace BucketWire

namespace Reference

open Numeral (valueFrom?)

variable {raw : Bytes} {c : Char}

/-- The characters that have a name. -/
def named : List (String × Char) :=
  [("lt", '<'), ("gt", '>'), ("amp", '&'), ("apos", '\''), ("quot", '"')]

/-- What stands between `&` and `;` names a character: by its code, which is not zero, in decimal or
hexadecimal digits, or by a name. -/
inductive Names : Bytes → Char → Prop where
  | decimal {digits : List Char} {c : Char} : digits ≠ [] →
    valueFrom? 10 0 digits = some c.toNat → c.toNat ≠ 0 →
      Names (Utf8.encode (String.ofList ('#' :: digits))) c
  | hexadecimal {digits : List Char} {c : Char} : digits ≠ [] →
    valueFrom? 16 0 digits = some c.toNat → c.toNat ≠ 0 →
      Names (Utf8.encode (String.ofList ('#' :: 'x' :: digits))) c
  | name {name : String} {c : Char} : (name, c) ∈ named → Names (Utf8.encode name) c

theorem predefined?_eq_some_iff {name : String} :
    predefined? name = some c ↔ (name, c) ∈ named := by
  unfold predefined? named
  constructor
  · split <;> simp +contextual [eq_comm]
  · intro h
    simp only [List.mem_cons, Prod.mk.injEq, List.not_mem_nil, or_false] at h
    rcases h with ⟨rfl, rfl⟩ | ⟨rfl, rfl⟩ | ⟨rfl, rfl⟩ | ⟨rfl, rfl⟩ | ⟨rfl, rfl⟩ <;> rfl

/-- A numeral names the character of its value. -/
theorem ofCode_eq_ok_iff {base : Nat} {digits : List Char} (hbase : 0 < base) :
    ofCode base digits = .ok c ↔
      digits ≠ [] ∧ valueFrom? base 0 digits = some c.toNat ∧ c.toNat ≠ 0 := by
  cases digits with
  | nil => simp [ofCode, Numeral.readUnsigned]
  | cons d digits =>
    rw [ofCode]
    simp only [List.head?_cons, Option.some.injEq]
    split
    · rename_i hsign
      simp [valueFrom?, Numeral.digit?_sign hsign]
    · rename_i hsign
      have hlimit : Nat.pow 2 32 - 1 = 2 ^ 32 - 1 := rfl
      rw [Numeral.readUnsigned_cons fun h => hsign (.inl h), hlimit]
      have hiff : ∀ n, Numeral.magnitude base (2 ^ 32 - 1) .tooLarge 0 (d :: digits) = .ok n ↔
          valueFrom? base 0 (d :: digits) = some n ∧ n ≤ 2 ^ 32 - 1 :=
        fun n => Numeral.magnitude_eq_ok_iff hbase (Nat.zero_le _)
      have hvalid : c.toNat < 0xD800 ∨ (0xDFFF < c.toNat ∧ c.toNat < 0x110000) := c.valid
      cases hread : Numeral.magnitude base (2 ^ 32 - 1) .tooLarge 0 (d :: digits) with
      | error fault =>
        constructor
        · simp
        · rintro ⟨-, hvalue, -⟩
          rw [(hiff c.toNat).mpr ⟨hvalue, by omega⟩] at hread
          cases hread
      | ok code =>
        rw [((hiff code).mp hread).1]
        simp only [ne_eq, reduceCtorEq, not_false_eq_true, Option.some.injEq, true_and]
        constructor
        · intro h
          split at h
          · cases h
          · rename_i hzero
            split at h
            · rename_i hcode
              obtain rfl := Except.ok.inj h
              rw [Utf8.toNat_ofNat_of_isValid hcode]
              exact ⟨rfl, hzero⟩
            · cases h
        · rintro ⟨rfl, hzero⟩
          rw [if_neg hzero, if_pos hvalid, Char.ofNat_toNat]

/-- What names a character has a number sign and digits, or it is a name. -/
theorem names_encode_iff {name : String} : Names (Utf8.encode name) c ↔
    (∃ digits, name.toList = '#' :: digits ∧ digits ≠ [] ∧
      valueFrom? 10 0 digits = some c.toNat ∧ c.toNat ≠ 0) ∨
    (∃ digits, name.toList = '#' :: 'x' :: digits ∧ digits ≠ [] ∧
      valueFrom? 16 0 digits = some c.toNat ∧ c.toNat ≠ 0) ∨ (name, c) ∈ named := by
  constructor
  · intro h
    generalize hraw : Utf8.encode name = raw at h
    cases h with
    | decimal hne hvalue hzero =>
      rw [Utf8.encode_inj.mp hraw]
      exact .inl ⟨_, String.toList_ofList, hne, hvalue, hzero⟩
    | hexadecimal hne hvalue hzero =>
      rw [Utf8.encode_inj.mp hraw]
      exact .inr (.inl ⟨_, String.toList_ofList, hne, hvalue, hzero⟩)
    | name hname =>
      rw [Utf8.encode_inj.mp hraw]
      exact .inr (.inr hname)
  · rintro (⟨digits, hname, hne, hvalue, hzero⟩ | ⟨digits, hname, hne, hvalue, hzero⟩ | hname)
    · rw [← String.ofList_toList (s := name), hname]
      exact .decimal hne hvalue hzero
    · rw [← String.ofList_toList (s := name), hname]
      exact .hexadecimal hne hvalue hzero
    · exact .name hname

theorem head?_of_mem_named {name : String} (h : (name, c) ∈ named) :
    name.toList.head? ≠ some '#' := by
  simp only [named, List.mem_cons, Prod.mk.injEq, List.not_mem_nil, or_false] at h
  rcases h with ⟨rfl, -⟩ | ⟨rfl, -⟩ | ⟨rfl, -⟩ | ⟨rfl, -⟩ | ⟨rfl, -⟩ <;> decide

/-- A name with a number sign is read by its code, any other by its name. -/
theorem ofName_eq_ok_iff {name : String} : ofName name = .ok c ↔ Names (Utf8.encode name) c := by
  rw [names_encode_iff, ofName]
  split
  · rename_i digits hname
    have hnamed : (name, c) ∉ named := fun h => head?_of_mem_named h (by simp [hname])
    have hx : valueFrom? 10 0 ('x' :: digits) = none := rfl
    simp [hname, hnamed, hx, ofCode_eq_ok_iff]
  · rename_i digits hx hname
    have hnamed : (name, c) ∉ named := fun h => head?_of_mem_named h (by simp [hname])
    have hhex : ∀ digits', digits ≠ 'x' :: digits' := hx
    simp [hname, hnamed, hhex, ofCode_eq_ok_iff]
  · rename_i hx hsign
    have hdecimal : ∀ digits, name.toList ≠ '#' :: digits := hsign
    rw [← predefined?_eq_some_iff]
    cases hname : predefined? name <;> simp [hdecimal]

/-- A reference is read as the character that it names, and as a fault if there is none. -/
theorem resolve_eq_ok_iff : resolve raw = .ok c ↔ Names raw c := by
  rw [resolve]
  cases hraw : Utf8.decode raw with
  | error fault =>
    constructor
    · simp
    · intro h
      cases h <;> simp at hraw
  | ok name =>
    obtain rfl := Utf8.decode_eq_ok_iff.mp hraw
    exact ofName_eq_ok_iff

end Reference

end BucketWire

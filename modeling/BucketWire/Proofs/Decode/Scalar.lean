import BucketWire.Proofs.Decode.Element
import BucketWire.Proofs.Time.Rfc3339

/-!
# Reading simple values back

Numbers in decimal, truth values as words and instants as timestamps are read back from an element
that holds them.

## Main results

* `Decoder.ofElement_int64`, `Decoder.ofElement_int32`, `Decoder.ofElement_boolean`,
  `Decoder.ofElement_timestamp` — simple values are read back
-/

namespace BucketWire

/-! ### Texts of simple values -/

namespace Scalar

theorem integer_decimal {bits : Nat} {n : Int} (hlow : -2 ^ (bits - 1) ≤ n)
    (hhigh : n < 2 ^ (bits - 1)) : integer bits (Numeral.decimal n) = .ok n := by
  have hread := Numeral.readSigned_decimal hlow hhigh
  have hempty : (Numeral.decimal n).isEmpty = false := by
    rw [Bool.eq_false_iff]
    intro h
    rw [String.isEmpty_iff.mp h] at hread
    cases hread
  simp only [integer]
  rw [Text.trim_eq_self fun c hc => Numeral.not_isBlank_of_mem_decimal hc, hempty, hread]
  rfl

/-- An integer of 64 bits is read back. -/
theorem int64_decimal (n : Int64) : int64 (Numeral.decimal n.toInt) = .ok n := by
  rw [int64, integer_decimal n.le_toInt n.toInt_lt]
  simp [Except.map]

/-- An integer of 32 bits is read back. -/
theorem int32_decimal (n : Int32) : int32 (Numeral.decimal n.toInt) = .ok n := by
  rw [int32, integer_decimal n.le_toInt n.toInt_lt]
  simp [Except.map]

/-- A truth value is read back. -/
theorem boolean_truthText (b : Bool) : boolean (truthText b) = .ok b := by
  cases b <;> rfl

end Scalar

namespace Decoder

variable {α β : Type}

/-! ### Elements of simple values -/

@[simp] theorem ofElement_map (f : α → β) (d : Decoder α) (e : Element) :
    (d.map f).ofElement e = (d.ofElement e).map f := by
  rw [map, ofElement]
  cases d.ofElement e <;> rfl

@[simp] theorem ofElement_text (name s : String) : text.ofElement (.leaf name s) = some s := rfl

@[simp] theorem ofElement_int64 (name : String) (n : Int64) :
    int64.ofElement (.leaf name (Numeral.decimal n.toInt)) = some n := by
  rw [int64, ofElement, ofElement_text, Option.bind_some, Scalar.int64_decimal]
  rfl

@[simp] theorem ofElement_int32 (name : String) (n : Int32) :
    int32.ofElement (.leaf name (Numeral.decimal n.toInt)) = some n := by
  rw [int32, ofElement, ofElement_text, Option.bind_some, Scalar.int32_decimal]
  rfl

@[simp] theorem ofElement_boolean (name : String) (b : Bool) :
    boolean.ofElement (.leaf name (truthText b)) = some b := by
  rw [boolean, ofElement, ofElement_text, Option.bind_some, Scalar.boolean_truthText]
  rfl

theorem ofElement_timestamp (name : String) {i : Instant} (h : i.IsWritable) :
    timestamp.ofElement (.leaf name i.timestamp) = some (some i) := by
  rw [timestamp, ofElement, ofElement_text, Option.bind_some, Scalar.timestamp_timestamp h]
  rfl

end Decoder

end BucketWire

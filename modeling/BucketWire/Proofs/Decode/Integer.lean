import BucketWire.Proofs.Record.Trim
import BucketWire.Proofs.Request.Completion

/-!
# Integers at their limits

A text stands for an integer if it is a numeral between blanks, or blank. It is read as this integer
if the integer has the width, and refused in every other case, however many digits it has. So no
text is read as another number than the one it stands for.

## Main definitions

* `Scalar.IsInteger` — the integers that texts stand for
* `Scalar.IsReading` — integers of a width are read by the rule for this width
* `Decoder.ReadsExactly` — integers are read from the texts that stand for them, and from no others

## Main results

* `Scalar.integer_eq_ok_iff` — which texts are read as integers of a width
* `CompletionRequest.exists_partNumbers` — the numbers of parts are read back
* `Decoder.readsExactly_integers` — integers of 64 and of 32 bits
-/

namespace BucketWire

/-! ### Texts of integers -/

namespace Scalar

variable {bits : Nat} {text : String} {n : Int}

/-- Between blanks, `text` is a numeral of `n`, or there is nothing and `n` is zero. -/
def IsInteger (text : String) (n : Int) : Prop :=
  (Text.trim text = "" ∧ n = 0) ∨ Numeral.IsSigned (Text.trim text).toList n

/-- A text is read as an integer exactly if it stands for it and the integer has the width. -/
theorem integer_eq_ok_iff :
    integer bits text = .ok n ↔ IsInteger text n ∧ -2 ^ (bits - 1) ≤ n ∧ n < 2 ^ (bits - 1) := by
  have hpos : (0 : Int) < 2 ^ (bits - 1) := Int.pow_pos (by decide)
  simp only [integer, IsInteger, String.isEmpty_iff]
  by_cases hempty : Text.trim text = ""
  · have hsigned : ¬ Numeral.IsSigned "".toList n := by
      rw [String.toList_empty]
      generalize hcs : ([] : List Char) = cs
      rintro (⟨h⟩ | _ | _)
      · exact h.ne_nil hcs.symm
      all_goals cases hcs
    simp only [hempty, if_true, true_and, hsigned, or_false, Except.ok.injEq]
    constructor
    · rintro rfl
      exact ⟨rfl, by omega, hpos⟩
    · rintro ⟨rfl, -⟩
      rfl
  · simp only [hempty, if_false, false_and, false_or]
    rw [← Numeral.readSigned_eq_ok_iff]
    cases Numeral.readSigned bits (Text.trim text).toList <;> simp [Except.mapError]

/-- The fault of a text that is read as no integer. -/
theorem exists_of_integer_eq_error {fault : ValueFault} (h : integer bits text = .error fault) :
    ∃ cause, fault = .integer bits (Text.trim text) cause := by
  simp only [integer] at h
  split at h
  · cases h
  · cases hread : Numeral.readSigned bits (Text.trim text).toList with
    | error cause =>
      rw [hread] at h
      exact ⟨cause, (Except.error.inj h).symm⟩
    | ok m =>
      rw [hread] at h
      cases h

/-- The decimal numeral of an integer between blanks stands for it. -/
theorem isInteger_padded {front back : List Char} (hfront : ∀ c ∈ front, Text.isBlank c)
    (hback : ∀ c ∈ back, Text.isBlank c) (n : Int) :
    IsInteger (String.ofList (front ++ ((Numeral.decimal n).toList ++ back))) n := by
  refine .inr ?_
  rw [Text.trim_append String.toList_ofList hfront hback
      (fun c hc => Numeral.not_isBlank_of_mem_decimal (List.mem_of_head? hc))
      (fun c hc => Numeral.not_isBlank_of_mem_decimal (List.mem_of_getLast? hc)),
    String.toList_ofList]
  exact Numeral.isSigned_decimal n

/-! ### Integers of a width -/

section Width

variable {ι : Type}

/-- The integers of `bits` bits are the values of `ι`, and `read` reads them by the rule for this
width. -/
structure IsReading (bits : Nat) (toInt : ι → Int) (ofInt : Int → ι)
    (read : String → Except ValueFault ι) : Prop where
  read_eq (text : String) : read text = (integer bits text).map ofInt
  ofInt_toInt (i : ι) : ofInt (toInt i) = i
  toInt_ofInt {n : Int} (hlow : -2 ^ (bits - 1) ≤ n) (hhigh : n < 2 ^ (bits - 1)) :
    toInt (ofInt n) = n
  le_toInt (i : ι) : -2 ^ (bits - 1) ≤ toInt i
  toInt_lt (i : ι) : toInt i < 2 ^ (bits - 1)

theorem isReading_int64 : IsReading 64 Int64.toInt Int64.ofInt int64 where
  read_eq _ := rfl
  ofInt_toInt := Int64.ofInt_toInt
  toInt_ofInt := Int64.toInt_ofInt_of_le
  le_toInt := Int64.le_toInt
  toInt_lt := Int64.toInt_lt

theorem isReading_int32 : IsReading 32 Int32.toInt Int32.ofInt int32 where
  read_eq _ := rfl
  ofInt_toInt := Int32.ofInt_toInt
  toInt_ofInt := Int32.toInt_ofInt_of_le
  le_toInt := Int32.le_toInt
  toInt_lt := Int32.toInt_lt

variable {toInt : ι → Int} {ofInt : Int → ι} {read : String → Except ValueFault ι}

theorem IsReading.eq_ok_iff (h : IsReading bits toInt ofInt read) {i : ι} :
    read text = .ok i ↔ IsInteger text (toInt i) := by
  have hiff := @integer_eq_ok_iff bits text (toInt i)
  simp only [h.le_toInt, h.toInt_lt, and_true] at hiff
  rw [← hiff, h.read_eq]
  constructor
  · intro hread
    obtain ⟨n, hn, rfl⟩ := Outcome.exists_of_map_eq_ok hread
    obtain ⟨-, hlow, hhigh⟩ := integer_eq_ok_iff.mp hn
    rw [h.toInt_ofInt hlow hhigh, hn]
  · intro hinteger
    rw [hinteger]
    exact congrArg Except.ok (h.ofInt_toInt i)

/-- A text is read as the integer that it stands for, if there is one of this width. -/
theorem IsReading.exists_eq_ok_iff (h : IsReading bits toInt ofInt read) :
    (∃ i, toInt i = n ∧ read text = .ok i) ↔
      IsInteger text n ∧ -2 ^ (bits - 1) ≤ n ∧ n < 2 ^ (bits - 1) := by
  constructor
  · rintro ⟨i, rfl, hi⟩
    exact ⟨h.eq_ok_iff.mp hi, h.le_toInt i, h.toInt_lt i⟩
  · rintro ⟨hn, hlow, hhigh⟩
    have htoInt := h.toInt_ofInt hlow hhigh
    exact ⟨ofInt n, htoInt, h.eq_ok_iff.mpr (by rwa [htoInt])⟩

/-- A text is refused exactly if it stands for no integer of this width. -/
theorem IsReading.exists_eq_error_iff (h : IsReading bits toInt ofInt read) :
    (∃ cause, read text = .error (.integer bits (Text.trim text) cause)) ↔
      ∀ n, IsInteger text n → ¬ (-2 ^ (bits - 1) ≤ n ∧ n < 2 ^ (bits - 1)) := by
  constructor
  · rintro ⟨cause, hcause⟩ n hn hwidth
    obtain ⟨i, -, hi⟩ := h.exists_eq_ok_iff.mpr ⟨hn, hwidth⟩
    rw [hcause] at hi
    cases hi
  · intro hnone
    rw [h.read_eq]
    cases hinteger : integer bits text with
    | error fault =>
      obtain ⟨cause, rfl⟩ := exists_of_integer_eq_error hinteger
      exact ⟨cause, rfl⟩
    | ok n =>
      obtain ⟨hn, hwidth⟩ := integer_eq_ok_iff.mp hinteger
      exact absurd hwidth (hnone n hn)

end Width

/-- The least integer of 64 bits, between blanks and with zeros in front. -/
example : int64 "\u00A0\t-0009223372036854775808 " = .ok Int64.minValue := by decide

end Scalar

/-! ### Elements with integers -/

namespace Decoder

variable {ι α β : Type} {tape rest : Tape}

theorem run_refine_eq_ok_iff {f : α → Except ValueFault β} {d : Decoder α} {trim : Bool} {b : β} :
    (d.refine f).run trim tape = .ok (b, rest) ↔
      ∃ a, d.run trim tape = .ok (a, rest) ∧ f a = .ok b := by
  rw [run_refine]
  cases d.run trim tape with
  | error e => simp
  | ok p =>
    obtain ⟨a, rest'⟩ := p
    simp only [Except.ok.injEq, Prod.mk.injEq]
    cases hf : f a with
    | error fault => simp [hf]
    | ok b' => simp [hf, and_comm]

/-- A value that trimming leaves alone is read in the same way with trimming. -/
theorem TrimsTo.run_eq {d : Decoder α} (h : d.TrimsTo id) (trim : Bool) (tape : Tape) :
    d.run trim tape = d.run false tape := by
  cases trim with
  | false => rfl
  | true =>
    obtain ⟨e, he, he'⟩ | ⟨a, a', rest, rfl, ha, ha'⟩ := (h tape).exists_eq
    · rw [he, he']
    · rw [ha, ha']

/-- Integers of `bits` bits are read by `read` from the texts that stand for them and from no
others, and by `d` from the elements with such a text. -/
structure ReadsExactly (bits : Nat) (toInt : ι → Int) (read : String → Except ValueFault ι)
    (d : Decoder ι) : Prop where
  /-- A text is read as the integer that it stands for, if there is one of this width. -/
  exists_eq_ok_iff (text : String) (n : Int) : (∃ i, toInt i = n ∧ read text = .ok i) ↔
    Scalar.IsInteger text n ∧ -2 ^ (bits - 1) ≤ n ∧ n < 2 ^ (bits - 1)
  /-- Every other text is refused. -/
  exists_eq_error_iff (text : String) :
    (∃ cause, read text = .error (.integer bits (Text.trim text) cause)) ↔
      ∀ n, Scalar.IsInteger text n → ¬ (-2 ^ (bits - 1) ≤ n ∧ n < 2 ^ (bits - 1))
  /-- An element is read as the integer that its text stands for. -/
  run_eq_ok_iff (trim : Bool) (tape rest : Tape) (i : ι) : d.run trim tape = .ok (i, rest) ↔
    ∃ text, Decoder.text.run false tape = .ok (text, rest) ∧ Scalar.IsInteger text (toInt i)
  /-- An element whose text is a decimal numeral between blanks is read as its value. -/
  run_padded (i : ι) (front back : List Char) (hfront : ∀ c ∈ front, Text.isBlank c)
    (hback : ∀ c ∈ back, Text.isBlank c) (trim : Bool) (tape rest : Tape)
    (htext : Decoder.text.run false tape = .ok
      (String.ofList (front ++ ((Numeral.decimal (toInt i)).toList ++ back)), rest)) :
    d.run trim tape = .ok (i, rest)

theorem readsExactly_of_isReading {bits : Nat} {toInt : ι → Int} {ofInt : Int → ι}
    {read : String → Except ValueFault ι} (h : Scalar.IsReading bits toInt ofInt read)
    (htrim : (text.refine read).TrimsTo id) :
    ReadsExactly bits toInt read (text.refine read) := by
  have hrun : ∀ trim tape rest i, (text.refine read).run trim tape = .ok (i, rest) ↔
      ∃ s, text.run false tape = .ok (s, rest) ∧ Scalar.IsInteger s (toInt i) := by
    intro trim tape rest i
    rw [htrim.run_eq, run_refine_eq_ok_iff]
    simp only [h.eq_ok_iff]
  refine ⟨fun _ _ => h.exists_eq_ok_iff, fun _ => h.exists_eq_error_iff, hrun, ?_⟩
  intro i front back hfront hback trim tape rest htext
  exact (hrun trim tape rest i).mpr ⟨_, htext, Scalar.isInteger_padded hfront hback _⟩

end Decoder

/-- The numbers of the parts of a request are read back, with trimming and without. -/
theorem CompletionRequest.exists_partNumbers (request : CompletionRequest)
    (encoding decoding : Settings) :
    ∃ listing : PartListing,
      Decoder.partListing.decode decoding (Utf8.encode (encode encoding request)) = .ok listing ∧
        listing.parts.map UploadedPart.partNumber =
          request.parts.map SubmittedPart.partNumber := by
  have hread : ∀ decoding : Settings, decoding.trimText = false →
      Decoder.partListing.decode decoding (Utf8.encode (encode encoding request)) =
        .ok { parts := request.parts.map SubmittedPart.uploaded } := fun _ htrim =>
    Decoder.partListing.decode_encodeAs htrim encoding request.named request.ofElement_node
  cases htrim : decoding.trimText with
  | false => exact ⟨_, hread decoding htrim, by rw [List.map_map]; rfl⟩
  | true =>
    have htrimmed := PartListing.trimsTo.decode_eq decoding (Utf8.encode (encode encoding request))
    rw [hread { decoding with trimText := false } rfl, ← htrim] at htrimmed
    exact ⟨_, htrimmed, by simp only [PartListing.trimmed, List.map_map]; rfl⟩

/-- Integers of either width are read from the texts that stand for them and from no others, up to
the limits of the width, and the numbers of the parts of a request are read back. -/
theorem Decoder.readsExactly_integers :
    ReadsExactly 64 Int64.toInt Scalar.int64 int64 ∧
      ReadsExactly 32 Int32.toInt Scalar.int32 int32 ∧
      ∀ (request : CompletionRequest) (encoding decoding : Settings),
        ∃ listing : PartListing,
          partListing.decode decoding (Utf8.encode (encode encoding request)) = .ok listing ∧
            listing.parts.map UploadedPart.partNumber =
              request.parts.map SubmittedPart.partNumber :=
  ⟨readsExactly_of_isReading Scalar.isReading_int64 trimsTo_int64,
    readsExactly_of_isReading Scalar.isReading_int32 trimsTo_int32,
    CompletionRequest.exists_partNumbers⟩

end BucketWire

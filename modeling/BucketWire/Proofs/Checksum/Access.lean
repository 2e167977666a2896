import BucketWire.Checksum.Access
import BucketWire.Proofs.Text.Base64
import BucketWire.Record.Upload
import BucketWire.Record.Version
import BucketWire.Request.Body

/-!
# Digests of a record

A digest is given for exactly the texts that are the base64 of a byte sequence of the right length.
Which text is judged depends on the first family that is meant, and on nothing else in the record.

## Main definitions

* `ChecksumCarrier` — the kinds of records that carry checksums
* `Checksums.Judged` — what is made of a text, as a statement about the text

## Main results

* `Checksums.select_cases` — which text a spec selects
* `Checksums.judged_raw` — what is made of the selected text
* `ChecksumCarrier.raw_canonical` — all of this for the records of every kind
-/

namespace BucketWire

namespace Checksums

variable {c c' : Checksums} {spec spec' : Spec} {digest : Bytes}

/-! ### The selected text -/

/-- The text of the first family that is meant is selected, or the empty text. -/
theorem select_cases (c : Checksums) (spec : Spec) :
    (∃ before algorithm after, Algorithm.probeOrder = before ++ algorithm :: after ∧
      spec.covers algorithm = true ∧ (∀ other ∈ before, spec.covers other = false) ∧
      c.select spec = c.get algorithm) ∨
    (∀ algorithm, spec.covers algorithm = false) ∧ c.select spec = "" := by
  rw [select]
  cases hfamily : spec.family? with
  | some algorithm =>
    obtain ⟨hcovers, before, after, horder, hbefore⟩ := List.find?_eq_some_iff_append.mp hfamily
    exact .inl ⟨before, algorithm, after, horder, hcovers, by simpa using hbefore, rfl⟩
  | none =>
    have hnone := List.find?_eq_none.mp hfamily
    have hall : ∀ algorithm : Algorithm, algorithm ∈ Algorithm.probeOrder := by
      intro algorithm
      cases algorithm <;> decide
    exact .inr ⟨fun algorithm => by simpa using hnone algorithm (hall algorithm), rfl⟩

/-- A single family selects its own text. -/
theorem select_spec (c : Checksums) (algorithm : Algorithm) :
    c.select algorithm.spec = c.get algorithm := by
  have hfamily : algorithm.spec.family? = some algorithm := by cases algorithm <;> decide
  rw [select, hfamily]

/-! ### The judgment -/

/-- What `outcome` has to be for a text whose digest should have `length` bytes: only the base64 of
a byte sequence has a digest, and all other texts are no base64 at all. -/
structure Judged (text : String) (length : Nat) (outcome : Except ChecksumError Bytes) : Prop where
  notSet : outcome = .error .notSet ↔ text = ""
  ok (digest : Bytes) :
    outcome = .ok digest ↔ text ≠ "" ∧ text = Base64.encode digest ∧ digest.length = length
  lengthMismatch (expected actual : Nat) :
    outcome = .error (.lengthMismatch expected actual) ↔ expected = length ∧ actual ≠ length ∧
      ∃ digest, digest ≠ [] ∧ digest.length = actual ∧ text = Base64.encode digest
  encoding : (∃ fault, outcome = .error (.encoding fault)) ↔
    text ≠ "" ∧ ∀ digest, text ≠ Base64.encode digest

/-- Only the empty byte sequence has the empty text. -/
theorem eq_nil_of_encode_eq_empty (h : Base64.encode digest = "") : digest = [] :=
  Base64.encode_inj.mp h

theorem Judged.empty (length : Nat) : Judged "" length (.error .notSet) where
  notSet := by simp
  ok := by simp
  lengthMismatch expected actual := by
    constructor
    · simp
    · rintro ⟨-, -, digest, hdigest, -, htext⟩
      exact absurd (eq_nil_of_encode_eq_empty htext.symm) hdigest
  encoding := by simp

theorem Judged.of_decode_eq_error {text : String} {fault : Base64.Fault} (hempty : text ≠ "")
    (hdecode : Base64.decode text = .error fault) (length : Nat) :
    Judged text length (.error (.encoding fault)) := by
  have hnone : ∀ digest, text ≠ Base64.encode digest := by
    intro digest h
    rw [Base64.decode_eq_ok_iff.mpr h] at hdecode
    cases hdecode
  exact {
    notSet := by simp [hempty]
    ok := by simp [hnone]
    lengthMismatch := by simp [hnone]
    encoding := by simp [hempty, hnone] }

theorem Judged.of_length_eq (hempty : Base64.encode digest ≠ "") :
    Judged (Base64.encode digest) digest.length (.ok digest) where
  notSet := by simp [hempty]
  ok other := by
    rw [Base64.encode_inj]
    constructor
    · rintro ⟨⟩
      exact ⟨hempty, rfl, rfl⟩
    · rintro ⟨-, rfl, -⟩
      rfl
  lengthMismatch expected actual := by
    constructor
    · simp
    · rintro ⟨-, hactual, other, -, hlength, htext⟩
      rw [Base64.encode_inj] at htext
      exact absurd (htext ▸ hlength.symm) hactual
  encoding := by simp

theorem Judged.of_length_ne {length : Nat} (hempty : Base64.encode digest ≠ "")
    (hlength : digest.length ≠ length) :
    Judged (Base64.encode digest) length (.error (.lengthMismatch length digest.length)) where
  notSet := by simp [hempty]
  ok other := by
    constructor
    · simp
    · rintro ⟨-, htext, hother⟩
      rw [Base64.encode_inj] at htext
      exact absurd (htext ▸ hother) hlength
  lengthMismatch expected actual := by
    constructor
    · rintro ⟨⟩
      refine ⟨rfl, hlength, digest, ?_, rfl, rfl⟩
      rintro rfl
      exact hempty rfl
    · rintro ⟨rfl, -, other, -, rfl, htext⟩
      rw [Base64.encode_inj.mp htext]
  encoding := by simp

/-- The digest of a spec is judged by the selected text. -/
theorem judged_raw (c : Checksums) (spec : Spec) :
    Judged (c.select spec) spec.rawLength (c.raw spec) := by
  rw [raw]
  generalize c.select spec = text
  by_cases hempty : text = ""
  · subst hempty
    exact Judged.empty spec.rawLength
  rw [if_neg (by simpa using hempty)]
  cases hdecode : Base64.decode text with
  | error fault => exact Judged.of_decode_eq_error hempty hdecode spec.rawLength
  | ok digest =>
    obtain rfl := Base64.decode_eq_ok_iff.mp hdecode
    by_cases hlength : digest.length = spec.rawLength
    · simp only [if_pos hlength]
      rw [← hlength]
      exact Judged.of_length_eq hempty
    · simp only [if_neg hlength]
      exact Judged.of_length_ne hempty hlength

/-- What is made of a record depends on the selected text and the length alone. -/
theorem raw_congr (h : c.select spec = c'.select spec')
    (hlength : spec.rawLength = spec'.rawLength) : c.raw spec = c'.raw spec' := by
  rw [raw, raw, h, hlength]

/-- Only one text has a digest. -/
theorem select_eq_of_raw (h : c.raw spec = .ok digest) (h' : c'.raw spec' = .ok digest) :
    c.select spec = c'.select spec' := by
  rw [(((judged_raw c spec).ok digest).mp h).2.1, (((judged_raw c' spec').ok digest).mp h').2.1]

end Checksums

/-! ### Records -/

/-- The kinds of records that carry checksums. -/
inductive ChecksumCarrier where
  | uploadedPart
  | submittedPart
  | objectVersion
  | completedUpload
  deriving DecidableEq, Repr

namespace ChecksumCarrier

/-- The records of a kind. -/
def Record : ChecksumCarrier → Type
  | uploadedPart => UploadedPart
  | submittedPart => SubmittedPart
  | objectVersion => ObjectVersion
  | completedUpload => CompletedUpload

/-- The checksums of a record. -/
def checksums : (carrier : ChecksumCarrier) → carrier.Record → Checksums
  | uploadedPart => UploadedPart.checksums
  | submittedPart => SubmittedPart.checksums
  | objectVersion => fun version => version.checksums
  | completedUpload => CompletedUpload.checksums

/-- A record of any kind and any spec: the text of the first family that is meant is selected, and
there is a digest if this text is the base64 of one of the right length, and only then. Different
texts have different digests. For the spec of a family, in whichever mode, the other texts of the
record do not matter. -/
theorem raw_canonical (carrier : ChecksumCarrier) (record : carrier.Record) (spec : Spec) :
    ((∃ before algorithm after, Algorithm.probeOrder = before ++ algorithm :: after ∧
        spec.covers algorithm = true ∧ (∀ other ∈ before, spec.covers other = false) ∧
        (carrier.checksums record).select spec = (carrier.checksums record).get algorithm) ∨
      (∀ algorithm, spec.covers algorithm = false) ∧
        (carrier.checksums record).select spec = "") ∧
    Checksums.Judged ((carrier.checksums record).select spec) spec.rawLength
      ((carrier.checksums record).raw spec) ∧
    (∀ (other : ChecksumCarrier) (record' : other.Record) (spec' : Spec) (digest : Bytes),
      (carrier.checksums record).raw spec = .ok digest →
      (other.checksums record').raw spec' = .ok digest →
      (carrier.checksums record).select spec = (other.checksums record').select spec') ∧
    ∀ (type : ChecksumType) (other : ChecksumCarrier) (record' : other.Record),
      (carrier.checksums record).select type.spec =
        (carrier.checksums record).get type.algorithm ∧
      (carrier.checksums record).raw type.spec =
        (carrier.checksums record).raw type.algorithm.spec ∧
      ((carrier.checksums record).get type.algorithm =
          (other.checksums record').get type.algorithm →
        (carrier.checksums record).raw type.spec = (other.checksums record').raw type.spec) := by
  refine ⟨Checksums.select_cases _ spec, Checksums.judged_raw _ spec, ?_, ?_⟩
  · intro other record' spec' digest h h'
    exact Checksums.select_eq_of_raw h h'
  · intro type other record'
    refine ⟨Checksums.select_spec _ type.algorithm, rfl, fun htext => ?_⟩
    refine Checksums.raw_congr ?_ rfl
    rw [ChecksumType.spec, Checksums.select_spec, Checksums.select_spec, htext]

end ChecksumCarrier

end BucketWire

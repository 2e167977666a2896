import BucketWire.Decode.Decoder
import BucketWire.Environment
import BucketWire.Proofs.Text.Numeral
import BucketWire.Proofs.Text.Utf8
import BucketWire.Request.Encode
import Mathlib.Data.List.Forall2

/-!
# Settings and their variables

Each setting depends on its own variable and on no other. A flag without a text keeps its default,
and with a text it is on exactly if the text is `1` or spells true. The indentation is what its
variable says as a numeral of 64 bits, and none if it says anything else. So settings that are
written into an environment are found there again.

## Main definitions

* `Settings.flagOf`, `Settings.indentOf` — settings by the values of their variables
* `Settings.SetsFlag`, `Settings.SetsIndent` — what values of variables say
* `Settings.writeTo` — an environment with settings written into it

## Main results

* `Settings.setsFlag_flagOf`, `Settings.setsIndent_indentOf` — settings are what variables say
* `Settings.ofEnvironment_spec` — the settings that an environment asks for
-/

namespace BucketWire

namespace Settings

/-! ### Flags -/

/-- `text` is the word `true`, each letter of either case. -/
def SpellsTrue (text : String) : Prop :=
  List.Forall₂ (· ∈ ·) text.toList [['t', 'T'], ['r', 'R'], ['u', 'U'], ['e', 'E']]

instance : DecidablePred SpellsTrue := fun text =>
  inferInstanceAs (Decidable (List.Forall₂ (· ∈ ·) text.toList _))

/-- What the value of a variable says of a flag. -/
structure SetsFlag (default : Bool) (value : Option Bytes) (flag : Bool) : Prop where
  /-- A text switches the flag on or off. -/
  of_text {text : String} (h : value = some (Utf8.encode text)) :
    flag = true ↔ text = "1" ∨ SpellsTrue text
  /-- The variable is not set, or its value is not UTF-8. -/
  of_no_text (h : ∀ text, value ≠ some (Utf8.encode text)) : flag = default

/-- A flag whose variable has the value `value`. -/
def flagOf (default : Bool) (value : Option Bytes) : Bool :=
  ((textOf value).map isOn).getD default

theorem textOf_eq_some_iff {value : Option Bytes} {text : String} :
    textOf value = some text ↔ value = some (Utf8.encode text) := by
  cases value with
  | none => simp [textOf]
  | some bytes =>
    rw [textOf, Option.bind_some, Option.some.injEq, ← Utf8.decode_eq_ok_iff]
    cases Utf8.decode bytes <;> simp [Except.toOption]

theorem textOf_eq_none_iff {value : Option Bytes} :
    textOf value = none ↔ ∀ text, value ≠ some (Utf8.encode text) := by
  simp only [Option.eq_none_iff_forall_ne_some, ne_eq, textOf_eq_some_iff]

theorem toNat_toLower (c : Char) :
    c.toLower.toNat = if 65 ≤ c.toNat ∧ c.toNat ≤ 90 then c.toNat + 32 else c.toNat := by
  by_cases hc : c.val ≥ 'A'.val ∧ c.val ≤ 'Z'.val
  · have hrange : 65 ≤ c.toNat ∧ c.toNat ≤ 90 := hc
    have hval : c.toLower.val = c.val + 32 := congrArg Char.val (dif_pos hc)
    rw [if_pos hrange, Char.toNat, hval, UInt32.toNat_add]
    exact Nat.mod_eq_of_lt (Nat.lt_of_le_of_lt (Nat.add_le_add_right hrange.2 32) (by decide))
  · have hrange : ¬ (65 ≤ c.toNat ∧ c.toNat ≤ 90) := hc
    have hself : c.toLower = c := dif_neg hc
    rw [if_neg hrange, hself]

theorem toLower_eq_iff {c lower upper : Char} (hupper : 65 ≤ upper.toNat ∧ upper.toNat ≤ 90)
    (hlower : lower.toNat = upper.toNat + 32) : c.toLower = lower ↔ c ∈ [lower, upper] := by
  rw [List.mem_cons, List.mem_singleton, ← Char.toNat_inj, ← Char.toNat_inj, ← Char.toNat_inj,
    toNat_toLower]
  split <;> omega

theorem map_toLower_eq_iff {text : String} :
    text.map Char.toLower = "true" ↔ SpellsTrue text := by
  have ht : ∀ {c : Char}, c.toLower = 't' ↔ c ∈ ['t', 'T'] := toLower_eq_iff (by decide) rfl
  have hr : ∀ {c : Char}, c.toLower = 'r' ↔ c ∈ ['r', 'R'] := toLower_eq_iff (by decide) rfl
  have hu : ∀ {c : Char}, c.toLower = 'u' ↔ c ∈ ['u', 'U'] := toLower_eq_iff (by decide) rfl
  have he : ∀ {c : Char}, c.toLower = 'e' ↔ c ∈ ['e', 'E'] := toLower_eq_iff (by decide) rfl
  rw [← String.toList_inj, String.toList_map, ← List.forall₂_eq_eq_eq, List.forall₂_map_left_iff]
  show List.Forall₂ (fun c d => c.toLower = d) text.toList ['t', 'r', 'u', 'e'] ↔ _
  simp only [SpellsTrue, List.forall₂_cons_right_iff, List.forall₂_nil_right_iff, ht, hr, hu, he]

theorem isOn_iff {text : String} : isOn text = true ↔ text = "1" ∨ SpellsTrue text := by
  rw [isOn, Bool.or_eq_true, decide_eq_true_iff, decide_eq_true_iff, map_toLower_eq_iff]

/-- A flag is what its variable says. -/
theorem setsFlag_flagOf (default : Bool) (value : Option Bytes) :
    SetsFlag default value (flagOf default value) where
  of_text h := by rw [flagOf, textOf_eq_some_iff.mpr h, Option.map_some, Option.getD_some, isOn_iff]
  of_no_text h := by rw [flagOf, textOf_eq_none_iff.mpr h, Option.map_none, Option.getD_none]

/-! ### Indentation -/

/-- What the value of a variable says of the indentation. -/
structure SetsIndent (value : Option Bytes) (indent : UInt64) : Prop where
  /-- A numeral of 64 bits says how many blanks there are. -/
  of_numeral {text : String} {n : Nat} (h : value = some (Utf8.encode text))
    (hn : Numeral.IsUnsigned text.toList n) (hlt : n < 2 ^ 64) : indent.toNat = n
  /-- The variable is not set, or its value is no numeral, or no numeral of 64 bits. -/
  of_no_numeral (h : ∀ text n, value = some (Utf8.encode text) →
    Numeral.IsUnsigned text.toList n → ¬ n < 2 ^ 64) : indent = 0

/-- The indentation if its variable has the value `value`. -/
def indentOf (value : Option Bytes) : UInt64 := ((textOf value).bind indentation?).getD 0

theorem indentation?_eq_some_iff {text : String} {indent : UInt64} :
    indentation? text = some indent ↔ Numeral.IsUnsigned text.toList indent.toNat := by
  have hread : ∀ n, Numeral.readUnsigned 10 64 text.toList = .ok n ↔
      Numeral.IsUnsigned text.toList n ∧ n < 2 ^ 64 := fun n => Numeral.readUnsigned_eq_ok_iff
  have hlt := indent.toNat_lt
  rw [indentation?, Option.map_eq_some_iff]
  constructor
  · rintro ⟨n, hn, rfl⟩
    cases hnumeral : Numeral.readUnsigned 10 64 text.toList with
    | error fault => simp [hnumeral, Except.toOption] at hn
    | ok m =>
      obtain rfl : m = n := by simpa [hnumeral, Except.toOption] using hn
      obtain ⟨hm, hm'⟩ := (hread m).mp hnumeral
      rwa [UInt64.toNat_ofNat_of_lt' hm']
  · intro h
    exact ⟨indent.toNat, by rw [(hread _).mpr ⟨h, hlt⟩]; rfl, UInt64.ofNat_toNat⟩

/-- The indentation is what its variable says. -/
theorem setsIndent_indentOf (value : Option Bytes) : SetsIndent value (indentOf value) where
  of_numeral {text n} h hn hlt := by
    have htoNat : (UInt64.ofNat n).toNat = n := UInt64.toNat_ofNat_of_lt' hlt
    have hindent : indentation? text = some (UInt64.ofNat n) := by
      rw [indentation?_eq_some_iff, htoNat]
      exact hn
    rw [indentOf, textOf_eq_some_iff.mpr h, Option.bind_some, hindent, Option.getD_some, htoNat]
  of_no_numeral h := by
    rw [indentOf]
    cases hindent : (textOf value).bind indentation? with
    | none => rfl
    | some indent =>
      obtain ⟨text, htext, hnumeral⟩ := Option.bind_eq_some_iff.mp hindent
      exact absurd indent.toNat_lt
        (h text _ (textOf_eq_some_iff.mp htext) (indentation?_eq_some_iff.mp hnumeral))

/-! ### Settings written into an environment -/

/-- `env` with each setting written into its variable: flags as words, the indentation in decimal.
All other variables are left as they are. -/
def writeTo (settings : Settings) (env : Environment) : Environment := fun variableName =>
  if variableName = "S3TYPES_XML_TRIM_TEXT" then
    some (Utf8.encode (truthText settings.trimText))
  else if variableName = "S3TYPES_XML_CHECK_END_NAMES" then
    some (Utf8.encode (truthText settings.checkEndNames))
  else if variableName = "S3TYPES_XML_DECLARATION" then
    some (Utf8.encode (truthText settings.writeDeclaration))
  else if variableName = "S3TYPES_XML_INDENT" then
    some (Utf8.encode (Numeral.decimal settings.indent.toNat))
  else env variableName

theorem isOn_truthText (flag : Bool) : isOn (truthText flag) = flag := by
  rw [Bool.eq_iff_iff, isOn_iff]
  cases flag <;> decide

theorem flagOf_truthText (default flag : Bool) :
    flagOf default (some (Utf8.encode (truthText flag))) = flag := by
  rw [flagOf, textOf_eq_some_iff.mpr rfl, Option.map_some, Option.getD_some, isOn_truthText]

theorem indentOf_decimal (indent : UInt64) :
    indentOf (some (Utf8.encode (Numeral.decimal indent.toNat))) = indent :=
  UInt64.toNat_inj.mp ((setsIndent_indentOf _).of_numeral rfl (Numeral.isUnsigned_decimal _)
    indent.toNat_lt)

/-- Settings are found in an environment that they are written into. -/
theorem ofEnvironment_writeTo (settings : Settings) (env : Environment) :
    ofEnvironment (settings.writeTo env) = settings := by
  show Settings.mk (flagOf false _) (flagOf true _) (flagOf true _) (indentOf _) = settings
  simp only [writeTo, if_true, String.reduceEq, if_false, flagOf_truthText, indentOf_decimal]

/-- Each setting is what its own variable says. Settings that are written into an environment are
found there, so requests are written and documents are read as with the settings themselves. -/
theorem ofEnvironment_spec :
    (∀ env : Environment, ofEnvironment env =
      { trimText := flagOf false (env "S3TYPES_XML_TRIM_TEXT")
        checkEndNames := flagOf true (env "S3TYPES_XML_CHECK_END_NAMES")
        writeDeclaration := flagOf true (env "S3TYPES_XML_DECLARATION")
        indent := indentOf (env "S3TYPES_XML_INDENT") }) ∧
    (∀ (default : Bool) (value : Option Bytes),
      SetsFlag default value (flagOf default value)) ∧
    (∀ value : Option Bytes, SetsIndent value (indentOf value)) ∧
    (∀ (settings : Settings) (env : Environment),
      ofEnvironment (settings.writeTo env) = settings ∧
      (∀ {α : Type} [Body α] (root : String) (value : α),
        encodeAs (ofEnvironment (settings.writeTo env)) root value =
          encodeAs settings root value) ∧
      ∀ {α : Type} (d : Decoder α) (document : Bytes),
        d.decode (ofEnvironment (settings.writeTo env)) document = d.decode settings document) := by
  refine ⟨fun env => rfl, setsFlag_flagOf, setsIndent_indentOf, fun settings env => ?_⟩
  rw [ofEnvironment_writeTo]
  exact ⟨rfl, fun _ _ => rfl, fun _ _ => rfl⟩

end Settings

end BucketWire

import BucketWire.Text.Blank
import Mathlib.Data.List.DropRight

/-!
# Trimmed texts

A text between blanks is found again by trimming if it neither starts nor ends with one. Trimming
twice is trimming once, and nothing is left of a text of blanks alone.

## Main results

* `Text.trim_append` — a text between blanks is found by trimming
* `Text.trim_eq_self` — a text without blanks is not changed by trimming
* `Text.trim_trim` — a trimmed text has no blanks left to trim
* `Text.toList_trim_eq_nil_iff` — texts of blanks alone
-/

namespace BucketWire

namespace Text

variable {front cs back : List Char}

/-- Digits are no blanks. -/
theorem not_isBlank_of_isDigit {c : Char} (h : c.isDigit) : ¬ isBlank c := by
  have hrange : 0x30 ≤ c.toNat ∧ c.toNat ≤ 0x39 := Char.isDigit_iff_toNat.mp h
  simp only [isBlank, Bool.or_eq_true, Bool.and_eq_true, decide_eq_true_eq, beq_iff_eq]
  omega

theorem trimFront_append (h : ∀ c ∈ front, isBlank c) (cs : List Char) :
    trimFront (front ++ cs) = trimFront cs :=
  List.dropWhile_append_of_pos h

theorem trimFront_of_head? (h : ∀ c ∈ cs.head?, ¬ isBlank c) : trimFront cs = cs := by
  cases cs with
  | nil => rfl
  | cons c cs => exact List.dropWhile_cons_of_neg (h c rfl)

/-- What stands between blanks is left if it neither starts nor ends with one. -/
theorem trimChars_append (hfront : ∀ c ∈ front, isBlank c) (hback : ∀ c ∈ back, isBlank c)
    (hhead : ∀ c ∈ cs.head?, ¬ isBlank c) (hlast : ∀ c ∈ cs.getLast?, ¬ isBlank c) :
    trimChars (front ++ (cs ++ back)) = cs := by
  rw [trimChars, trimFront_append hfront]
  cases cs with
  | nil =>
    have hnil : trimFront back = [] := List.dropWhile_eq_nil_iff.mpr hback
    rw [List.nil_append, hnil]
    rfl
  | cons c cs =>
    have hreverse : ∀ c ∈ back.reverse, isBlank c := fun c hc => hback c (List.mem_reverse.mp hc)
    have hfirst : trimFront (c :: cs ++ back) = c :: cs ++ back := trimFront_of_head? hhead
    rw [hfirst, List.reverse_append, trimFront_append hreverse, trimFront_of_head?,
      List.reverse_reverse]
    rwa [List.head?_reverse]

/-- A text between blanks is found by trimming if it neither starts nor ends with one. -/
theorem trim_append {text : String} (htext : text.toList = front ++ (cs ++ back))
    (hfront : ∀ c ∈ front, isBlank c) (hback : ∀ c ∈ back, isBlank c)
    (hhead : ∀ c ∈ cs.head?, ¬ isBlank c) (hlast : ∀ c ∈ cs.getLast?, ¬ isBlank c) :
    trim text = String.ofList cs := by
  rw [trim, htext, trimChars_append hfront hback hhead hlast]

/-- A text without blanks is not changed by trimming. -/
theorem trim_eq_self {s : String} (h : ∀ c ∈ s.toList, ¬ isBlank c) : trim s = s := by
  have htext : s.toList = [] ++ (s.toList ++ []) := by simp
  rw [trim_append htext (by simp) (by simp) (fun c hc => h c (List.mem_of_head? hc))
    (fun c hc => h c (List.mem_of_getLast? hc)), String.ofList_toList]

theorem trimChars_eq_rdropWhile (cs : List Char) :
    trimChars cs = (cs.dropWhile isBlank).rdropWhile isBlank := rfl

theorem trimChars_trimChars (cs : List Char) : trimChars (trimChars cs) = trimChars cs := by
  rw [trimChars_eq_rdropWhile cs]
  have hfront : ((cs.dropWhile isBlank).rdropWhile isBlank).dropWhile isBlank =
      (cs.dropWhile isBlank).rdropWhile isBlank := by
    rw [List.dropWhile_eq_self_iff]
    intro hlt
    have hfirst := List.rdropWhile_prefix isBlank (cs.dropWhile isBlank)
    rw [hfirst.getElem hlt]
    exact List.dropWhile_get_zero_not isBlank cs (Nat.lt_of_lt_of_le hlt hfirst.length_le)
  rw [trimChars_eq_rdropWhile, hfront, List.rdropWhile_idempotent]

/-- A trimmed text has no blanks left to trim. -/
@[simp] theorem trim_trim (s : String) : trim (trim s) = trim s := by
  rw [trim, trim, String.toList_ofList, trimChars_trimChars]

/-- Nothing is left of blanks alone, and of no other text. -/
theorem toList_trim_eq_nil_iff {s : String} :
    (trim s).toList = [] ↔ ∀ c ∈ s.toList, isBlank c := by
  rw [trim, String.toList_ofList, trimChars_eq_rdropWhile, List.rdropWhile_eq_nil_iff]
  constructor
  · intro h
    have hnil : s.toList.dropWhile isBlank = [] := by
      by_contra hne
      have hhead := List.head_dropWhile_not isBlank hne
      rw [h _ (List.head_mem hne)] at hhead
      cases hhead
    exact List.dropWhile_eq_nil_iff.mp hnil
  · intro h c hc
    rw [List.dropWhile_eq_nil_iff.mpr h] at hc
    cases hc

end Text

end BucketWire

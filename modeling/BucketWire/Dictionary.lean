/-!
# Dictionaries

Finite maps from text to text, in which user metadata and object tags are held. The entries stand
in ascending order of their keys, so a dictionary has one representation and is listed in key
order.

## Main definitions

* `Dictionary` — entries with strictly ascending keys
* `Dictionary.empty` — no bindings
* `Dictionary.find?` — the value of a key
* `Dictionary.insert` — bind a key, over any earlier value
* `Dictionary.insertIfNew` — bind a key that has no value yet

## Main results

* `Dictionary.find?_insert`, `Dictionary.find?_insertIfNew` — what a key is bound to afterwards
* `Dictionary.ext_find?` — dictionaries that bind the same values are equal
-/

namespace BucketWire

/-- A finite map from text to text. -/
structure Dictionary where
  /-- The bindings, by ascending key. -/
  entries : List (String × String) := []
  /-- No key stands twice, and the keys ascend. -/
  ascending : entries.Pairwise (fun a b => a.1 < b.1) := by simp
  deriving DecidableEq

namespace Dictionary

/-- The map that binds nothing. -/
def empty : Dictionary := {}

instance : Inhabited Dictionary := ⟨empty⟩

/-- The value that `entries` bind `key` to. -/
def lookUp (key : String) : List (String × String) → Option String
  | [] => none
  | (k, v) :: rest => if key = k then some v else lookUp key rest

/-- `entries` with `key` bound to `value`. -/
def insertEntry (key value : String) : List (String × String) → List (String × String)
  | [] => [(key, value)]
  | (k, v) :: rest =>
    if key < k then (key, value) :: (k, v) :: rest
    else if key = k then (key, value) :: rest
    else (k, v) :: insertEntry key value rest

theorem mem_insertEntry {key value : String} {e : String × String} {l : List (String × String)}
    (h : e ∈ insertEntry key value l) : e = (key, value) ∨ e ∈ l := by
  induction l with
  | nil => simpa [insertEntry] using h
  | cons head rest ih =>
    obtain ⟨k, v⟩ := head
    rw [insertEntry] at h
    split at h
    · simpa using h
    · split at h
      · simp only [List.mem_cons] at h ⊢
        exact h.imp id .inr
      · simp only [List.mem_cons] at h ⊢
        rcases h with h | h
        · exact .inr (.inl h)
        · exact (ih h).imp id .inr

theorem pairwise_insertEntry (key value : String) {l : List (String × String)}
    (h : l.Pairwise (fun a b => a.1 < b.1)) :
    (insertEntry key value l).Pairwise (fun a b => a.1 < b.1) := by
  induction l with
  | nil => simp [insertEntry]
  | cons head rest ih =>
    obtain ⟨k, v⟩ := head
    rw [List.pairwise_cons] at h
    rw [insertEntry]
    split
    · rename_i hlt
      refine .cons (fun e he => ?_) (List.pairwise_cons.mpr h)
      rcases List.mem_cons.mp he with rfl | he
      · exact hlt
      · exact String.lt_trans hlt (h.1 e he)
    · split
      · rename_i heq
        subst heq
        exact .cons h.1 h.2
      · rename_i hlt hne
        refine .cons (fun e he => ?_) (ih h.2)
        rcases mem_insertEntry he with rfl | he
        · exact Std.lt_of_le_of_ne (String.not_lt.mp hlt) (Ne.symm hne)
        · exact h.1 e he

/-- The value of `key`. -/
def find? (d : Dictionary) (key : String) : Option String := lookUp key d.entries

/-- `d` with `key` bound to `value`, whatever it was bound to. -/
def insert (d : Dictionary) (key value : String) : Dictionary where
  entries := insertEntry key value d.entries
  ascending := pairwise_insertEntry key value d.ascending

/-- `d` with `key` bound to `value`, unless it has a value already. -/
def insertIfNew (d : Dictionary) (key value : String) : Dictionary :=
  if (d.find? key).isSome then d else d.insert key value

/-! ### Looking up -/

theorem lookUp_insertEntry (key value key' : String) (l : List (String × String)) :
    lookUp key' (insertEntry key value l) = if key' = key then some value else lookUp key' l := by
  induction l with
  | nil => simp [insertEntry, lookUp]
  | cons head rest ih =>
    obtain ⟨k, v⟩ := head
    rw [insertEntry]
    split
    · simp [lookUp]
    · split <;> grind [lookUp]

/-- Binding a key changes the value of that key alone. -/
theorem find?_insert (d : Dictionary) (key value key' : String) :
    (d.insert key value).find? key' = if key' = key then some value else d.find? key' :=
  lookUp_insertEntry key value key' d.entries

/-- Binding a key if it is new keeps every value there is. -/
theorem find?_insertIfNew (d : Dictionary) (key value key' : String) :
    (d.insertIfNew key value).find? key' =
      if key' = key then some ((d.find? key).getD value) else d.find? key' := by
  rw [insertIfNew]
  cases h : d.find? key with
  | none => simp [find?_insert]
  | some v => by_cases hk : key' = key <;> simp_all

theorem lookUp_eq_none_of_lt {key : String} {l : List (String × String)}
    (h : ∀ e ∈ l, key < e.1) : lookUp key l = none := by
  induction l with
  | nil => rfl
  | cons head rest ih =>
    have hne : key ≠ head.1 := fun he => String.lt_irrefl _ (he ▸ h head (by simp))
    simp only [lookUp, if_neg hne]
    exact ih fun e he => h e (by simp [he])

theorem entries_eq_of_lookUp {l l' : List (String × String)}
    (hl : l.Pairwise (fun a b => a.1 < b.1)) (hl' : l'.Pairwise (fun a b => a.1 < b.1))
    (h : ∀ key, lookUp key l = lookUp key l') : l = l' := by
  induction l generalizing l' with
  | nil =>
    cases l' with
    | nil => rfl
    | cons head rest => simpa [lookUp] using h head.1
  | cons head rest ih =>
    cases l' with
    | nil => simpa [lookUp] using h head.1
    | cons head' rest' =>
      rw [List.pairwise_cons] at hl hl'
      have hkey : head.1 = head'.1 := by
        refine String.le_antisymm (String.not_lt.mp fun hlt => ?_) (String.not_lt.mp fun hlt => ?_)
        · have hnone : lookUp head'.1 (head :: rest) = none :=
            lookUp_eq_none_of_lt (by
              intro e he
              rcases List.mem_cons.mp he with rfl | he
              · exact hlt
              · exact String.lt_trans hlt (hl.1 e he))
          simpa [lookUp] using (h head'.1).symm.trans hnone
        · have hnone : lookUp head.1 (head' :: rest') = none :=
            lookUp_eq_none_of_lt (by
              intro e he
              rcases List.mem_cons.mp he with rfl | he
              · exact hlt
              · exact String.lt_trans hlt (hl'.1 e he))
          simpa [lookUp] using (h head.1).trans hnone
      have hvalue : head.2 = head'.2 := by simpa [lookUp, hkey] using h head.1
      have hhead : head = head' := Prod.ext hkey hvalue
      subst hhead
      refine congrArg _ (ih hl.2 hl'.2 fun key => ?_)
      by_cases hk : key = head.1
      · subst hk
        rw [lookUp_eq_none_of_lt hl.1, lookUp_eq_none_of_lt hl'.1]
      · simpa [lookUp, hk] using h key

/-- Dictionaries that bind the same values are equal. -/
theorem ext_find? {d d' : Dictionary} (h : ∀ key, d.find? key = d'.find? key) : d = d' := by
  obtain ⟨l, hl⟩ := d
  obtain ⟨l', hl'⟩ := d'
  have : l = l' := entries_eq_of_lookUp hl hl' h
  subst this
  rfl

end Dictionary

end BucketWire

import BucketWire.Proofs.Decode.Scalar
import BucketWire.Proofs.Text.Query

/-!
# Reading dictionaries back

A dictionary is written in two ways: as a query of its entries, and as elements that are named for
its keys. A query binds a key by its first pair and elements bind it by the last one, but a
dictionary has one entry for a key, so both are read back as the dictionary.

## Main definitions

* `Dictionary.keys` — the keys of a dictionary
* `Dictionary.query` — a dictionary as a query
* `Dictionary.leaves` — a dictionary as elements
* `Dictionary.HasNames` — dictionaries that can be written as elements

## Main results

* `Dictionary.find?_foldl_insertIfNew`, `Dictionary.find?_foldl_insert` — what keys are bound to if
  several pairs are
* `Decoder.ofElement_tags`, `Decoder.ofElement_metadata` — dictionaries are read back
-/

namespace BucketWire

namespace Dictionary

variable {key : String} {d : Dictionary} {es : List (String × String)}

/-! ### Keys -/

/-- The keys that have a value. -/
def keys (d : Dictionary) : List String := d.entries.map Prod.fst

theorem lookup_cons_eq_ite (e : String × String) (es : List (String × String)) :
    (e :: es).lookup key = if key = e.1 then some e.2 else es.lookup key := by
  rw [List.lookup_cons]
  by_cases hkey : key = e.1
  · rw [if_pos hkey, beq_iff_eq.mpr hkey]
  · rw [if_neg hkey, beq_false_of_ne hkey]

theorem lookUp_eq_lookup (key : String) (es : List (String × String)) :
    lookUp key es = es.lookup key := by
  induction es with
  | nil => rfl
  | cons e es ih => rw [lookUp, ih, lookup_cons_eq_ite]

theorem find?_eq_lookup (d : Dictionary) (key : String) : d.find? key = d.entries.lookup key :=
  lookUp_eq_lookup key d.entries

theorem isSome_lookup_iff : (es.lookup key).isSome ↔ key ∈ es.map Prod.fst := by
  simp [List.lookup_isSome_iff]

theorem mem_keys_iff : key ∈ d.keys ↔ (d.find? key).isSome := by
  rw [find?_eq_lookup, isSome_lookup_iff, keys]

/-- If keys ascend, it does not matter from which end a key is looked for. -/
theorem lookup_reverse_of_pairwise (hes : es.Pairwise fun a b => a.1 < b.1) :
    es.reverse.lookup key = es.lookup key := by
  induction es with
  | nil => rfl
  | cons e es ih =>
    rw [List.pairwise_cons] at hes
    rw [List.reverse_cons, List.lookup_append, ih hes.2, lookup_cons_eq_ite, lookup_cons_eq_ite]
    by_cases hkey : key = e.1
    · have hnone : es.lookup key = none := by
        rw [← lookUp_eq_lookup, hkey]
        exact lookUp_eq_none_of_lt hes.1
      rw [hnone, Option.none_or, if_pos hkey, if_pos hkey]
    · rw [if_neg hkey, if_neg hkey]
      exact Option.or_none

/-! ### Binding several keys -/

/-- Binding keys if they are new keeps every value there is, and the first one of those to come. -/
theorem find?_foldl_insertIfNew (es : List (String × String)) (d : Dictionary) :
    (es.foldl (fun d e => d.insertIfNew e.1 e.2) d).find? key =
      (d.find? key).or (es.lookup key) := by
  induction es generalizing d with
  | nil => simp
  | cons e es ih =>
    rw [List.foldl_cons, ih, find?_insertIfNew, lookup_cons_eq_ite]
    by_cases hkey : key = e.1
    · rw [if_pos hkey, if_pos hkey, hkey]
      cases d.find? e.1 <;> rfl
    · rw [if_neg hkey, if_neg hkey]

/-- Binding keys gives each of them the last value there is for it. -/
theorem find?_foldl_insert (es : List (String × String)) (d : Dictionary) :
    (es.foldl (fun d e => d.insert e.1 e.2) d).find? key =
      (es.reverse.lookup key).or (d.find? key) := by
  induction es generalizing d with
  | nil => rfl
  | cons e es ih =>
    rw [List.foldl_cons, ih, find?_insert, List.reverse_cons, List.lookup_append, Option.or_assoc,
      lookup_cons_eq_ite]
    by_cases hkey : key = e.1
    · rw [if_pos hkey, if_pos hkey]
      rfl
    · rw [if_neg hkey, if_neg hkey]
      rfl

theorem foldl_insertIfNew_entries (d : Dictionary) :
    d.entries.foldl (fun d e => d.insertIfNew e.1 e.2) .empty = d := by
  refine ext_find? fun key => ?_
  rw [find?_foldl_insertIfNew, find?_eq_lookup d]
  rfl

theorem foldl_insert_entries (d : Dictionary) :
    d.entries.foldl (fun d e => d.insert e.1 e.2) .empty = d := by
  refine ext_find? fun key => ?_
  rw [find?_foldl_insert, lookup_reverse_of_pairwise d.ascending, find?_eq_lookup d]
  exact Option.or_none

/-! ### Forms of dictionaries -/

/-- A dictionary as a query. -/
def query (d : Dictionary) : String := Query.render d.entries

/-- A dictionary as elements named for its keys. -/
def leaves (d : Dictionary) : List Element := d.entries.map fun e => .leaf e.1 e.2

/-- Every key can be the name of an element. -/
def HasNames (d : Dictionary) : Prop := ∀ e ∈ d.entries, Markup.IsName e.1

theorem HasNames.allNamed_leaves (h : d.HasNames) : Element.AllNamed d.leaves :=
  (Element.allNamed_map _ _).mpr h

end Dictionary

/-- A dictionary is read back from its query. -/
theorem Scalar.tags_query (d : Dictionary) : tags d.query = d := by
  have htrim : Text.trim d.query = d.query :=
    Text.trim_eq_self fun c hc => (Query.isQuery_render d.entries).not_isBlank hc
  rw [tags, htrim, Dictionary.query, (Query.isQuery_render d.entries).parse_eq]
  exact d.foldl_insertIfNew_entries

namespace Decoder

/-- A dictionary is read back from an element with its query. -/
@[simp] theorem ofElement_tags (name : String) (d : Dictionary) :
    tags.ofElement (.leaf name d.query) = some d := by
  rw [tags, ofElement_map, ofElement_text, Option.map_some, Scalar.tags_query]

/-- A dictionary is read back from an element with its entries in it. -/
@[simp] theorem ofElement_metadata (name : String) (d : Dictionary) :
    metadata.ofElement (.node name d.leaves) = some d := by
  have hfold : ∀ (es : List (String × String)) (d : Dictionary),
      (es.map fun e => Element.leaf e.1 e.2).foldlM (fun acc e =>
          ((text.map fun value (d : Dictionary) => d.insert e.name value).ofElement e).map
            fun change => change acc) d =
        some (es.foldl (fun d e => d.insert e.1 e.2) d) := by
    intro es
    induction es with
    | nil => exact fun d => rfl
    | cons e es ih => exact fun d => ih (d.insert e.1 e.2)
  rw [metadata, ofElement, Dictionary.leaves, hfold, d.foldl_insert_entries]

end Decoder

end BucketWire

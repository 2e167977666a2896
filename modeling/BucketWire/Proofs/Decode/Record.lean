import BucketWire.Decode.Field
import BucketWire.Proofs.Decode.Scalar

/-!
# Reading records back

A record is what its elements make of the zero record, one after the other. An element changes the
record as the table of fields says for its name; elements that are equally named add to a list, and
the fields of a part of the record change that part alone.

## Main definitions

* `Decoder.fill`, `Decoder.fillStrict` — what an element makes of a record

## Main results

* `Field.find?_store_cons`, `Field.find?_append_lift` — the line of a name
* `Decoder.ofElement_record` — what is made of the elements of a record
* `Decoder.foldlM_list` — a list is read back from its elements
* `Decoder.foldlM_lift` — a part of a record is read back
-/

namespace BucketWire

variable {α ρ σ τ : Type}

/-! ### Tables -/

namespace Field

@[simp] theorem find?_store_cons (name : String) (d : Decoder α) (set : α → ρ → ρ)
    (fields : List (Field ρ)) (name' : String) :
    find? (.store name d set :: fields) name' =
      if name = name' then some (d.map set) else find? fields name' := by
  rw [find?, List.find?_cons]
  by_cases h : name = name' <;> simp [store, find?, h]

/-- Of a name that the first fields do not have, a table says what it says of the part. -/
theorem find?_append_lift {own : List (Field τ)} {name : String}
    (h : name ∉ own.map Field.name) (modify : (ρ → ρ) → τ → τ) (fields : List (Field ρ)) :
    find? (own ++ fields.map (lift modify)) name =
      (find? fields name).map fun d => d.map modify := by
  have hown : own.find? (fun field => field.name = name) = none := by
    rw [List.find?_eq_none]
    intro field hfield heq
    exact h (List.mem_map.mpr ⟨field, hfield, of_decide_eq_true heq⟩)
  rw [find?, List.find?_append, hown, Option.none_or, List.find?_map, find?, Option.map_map,
    Option.map_map]
  rfl

theorem find?_isSome {fields : List (Field ρ)} {name : String} (h : name ∈ fields.map Field.name) :
    (find? fields name).isSome := by
  obtain ⟨field, hfield, rfl⟩ := List.mem_map.mp h
  rw [find?, Option.isSome_map, List.find?_isSome]
  exact ⟨field, hfield, decide_eq_true rfl⟩

end Field

namespace Decoder

/-! ### One element after the other -/

/-- What the element `e` makes of the record `r`; other elements than those of the table are
skipped. -/
def fill (fields : List (Field ρ)) (r : ρ) (e : Element) : Option ρ :=
  (((Field.find? fields e.name).getD ignore).ofElement e).map fun change => change r

/-- The same in a record that has no other elements. -/
def fillStrict (fields : List (Field ρ)) (r : ρ) (e : Element) : Option ρ :=
  (((Field.find? fields e.name).getD (unrecognized e.name)).ofElement e).map fun change => change r

/-- A record is what its elements make of the zero record, one after the other. -/
theorem ofElement_record (context : String) (fields : List (Field ρ)) (zero : ρ) (name : String)
    (es : List Element) :
    (record context fields zero).ofElement (.node name es) = es.foldlM (fill fields) zero := rfl

theorem fill_eq_some {fields : List (Field ρ)} {e : Element} {d : Decoder α} {set : α → ρ → ρ}
    {a : α} {r r' : ρ} (hfind : Field.find? fields e.name = some (d.map set))
    (ha : d.ofElement e = some a) (hset : set a r = r') : fill fields r e = some r' := by
  rw [fill, hfind, Option.getD_some, ofElement_map, ha, ← hset]
  rfl

/-- Elements of the table are read in the same way if there must be no others. -/
theorem foldlM_fillStrict {fields : List (Field ρ)} {es : List Element}
    (h : ∀ e ∈ es, e.name ∈ fields.map Field.name) (r : ρ) :
    es.foldlM (fillStrict fields) r = es.foldlM (fill fields) r := by
  induction es generalizing r with
  | nil => rfl
  | cons e es ih =>
    have hstep : fillStrict fields r e = fill fields r e := by
      obtain ⟨d, hd⟩ := Option.isSome_iff_exists.mp (Field.find?_isSome (h e (by simp)))
      rw [fillStrict, fill, hd]
      rfl
    rw [List.foldlM_cons, List.foldlM_cons, hstep]
    refine congrArg _ ?_
    funext r
    exact ih (fun e he => h e (by simp [he])) r

theorem foldlM_cons_of_eq_some {step : σ → Element → Option σ} {a b : σ} {e : Element}
    {es : List Element} (h : step a e = some b) : (e :: es).foldlM step a = es.foldlM step b := by
  rw [List.foldlM_cons, h, Option.bind_eq_bind, Option.bind_some]

theorem foldlM_append_of_eq_some {step : σ → Element → Option σ} {a b : σ} {es es' : List Element}
    (h : es.foldlM step a = some b) : (es ++ es').foldlM step a = es'.foldlM step b := by
  rw [List.foldlM_append, h, Option.bind_eq_bind, Option.bind_some]

/-! ### Lists in records -/

/-- Elements that each add a value to a list add all the values. -/
theorem foldlM_push {step : σ → Element → Option σ} {put : List α → σ} {element : τ → Element}
    {value : τ → α} {xs : List τ}
    (h : ∀ x ∈ xs, ∀ before, step (put before) (element x) = some (put (before ++ [value x])))
    (before : List α) :
    (xs.map element).foldlM step (put before) = some (put (before ++ xs.map value)) := by
  induction xs generalizing before with
  | nil => rw [List.map_nil, List.map_nil, List.append_nil, List.foldlM_nil]; rfl
  | cons x xs ih =>
    rw [List.map_cons, foldlM_cons_of_eq_some (h x (by simp) before),
      ih fun x hx => h x (by simp [hx]), List.append_assoc, List.map_cons, List.singleton_append]

/-- A list is read back from its elements. -/
theorem foldlM_list {fields : List (Field ρ)} {name : String} {d : Decoder α} {add : α → ρ → ρ}
    {elements : α → List Element} {xs : List α} (put : List α → ρ)
    (hfind : Field.find? fields name = some (d.map add))
    (hread : ∀ x ∈ xs, d.ofElement (.node name (elements x)) = some x)
    (hadd : ∀ x before, add x (put before) = put (before ++ [x])) :
    (xs.map fun x => .node name (elements x)).foldlM (fill fields) (put []) = some (put xs) := by
  have hpush : (xs.map fun x => Element.node name (elements x)).foldlM (fill fields) (put []) =
      some (put ([] ++ xs.map id)) := by
    refine foldlM_push (fun x hx before => ?_) []
    exact fill_eq_some hfind (hread x hx) (hadd x before)
  rw [hpush, List.map_id, List.nil_append]

/-! ### Parts of records -/

/-- A part of a record is read back from its elements, if the first fields of the record are not
called as those of the part; `put` puts the part into the record. -/
theorem foldlM_lift {own : List (Field τ)} {fields : List (Field ρ)} {modify : (ρ → ρ) → τ → τ}
    {es : List Element} {a b : ρ} (put : ρ → τ)
    (hput : ∀ change a, modify change (put a) = put (change a))
    (hown : ∀ name ∈ fields.map Field.name, name ∉ own.map Field.name)
    (hes : ∀ e ∈ es, e.name ∈ fields.map Field.name) (h : es.foldlM (fill fields) a = some b) :
    es.foldlM (fill (own ++ fields.map (.lift modify))) (put a) = some (put b) := by
  have hstep : ∀ e ∈ es, ∀ a, fill (own ++ fields.map (.lift modify)) (put a) e =
      (fill fields a e).map put := by
    intro e he a
    rw [fill, fill, Field.find?_append_lift (hown _ (hes e he))]
    cases Field.find? fields e.name with
    | none => rfl
    | some d =>
      show ((d.map modify).ofElement e).map _ = _
      rw [ofElement_map, Option.map_map, Option.getD_some, Option.map_map]
      refine congrArg (Option.map · _) ?_
      funext change
      exact hput change a
  induction es generalizing a with
  | nil =>
    obtain rfl : a = b := by simpa using h
    rfl
  | cons e es ih =>
    rw [List.foldlM_cons] at h
    obtain ⟨c, hc, hrest⟩ := Option.bind_eq_some_iff.mp h
    rw [foldlM_cons_of_eq_some (b := put c)]
    · exact ih (fun e he => hes e (by simp [he])) hrest fun e he => hstep e (by simp [he])
    · rw [hstep e (by simp), hc]
      rfl

end Decoder

end BucketWire

import BucketWire.Decode.Field
import BucketWire.Proofs.Decode.Layout
import Mathlib.Data.List.Forall2

/-!
# Records and the children that fill them

A record is filled by the children that its table names. A field that a child replaces holds what
the last child of its name says; a list that a child extends holds one value for every such child,
in the order of the document.

## Main definitions

* `Child.isNamed` — whether an element has one of some local names
* `Child.LastOf`, `Child.EachOf` — the last child of a name, all children of some names
* `Field.Sets`, `Field.Keeps` — what a line of a table does to a part of the record

## Main results

* `Child.lastOf_of_foldlM`, `Child.eachOf_of_foldlM` — which children a part of a record comes from
-/

namespace BucketWire

variable {α β ρ : Type} {settings : Settings}

/-! ### Decoders that change records -/

namespace Decoder

/-- What is made of a value decodes as the value does, if it can be made. -/
theorem decode_refine (f : α → Except ValueFault β) (d : Decoder α) (document : Bytes) :
    (d.refine f).decode settings document =
      d.decode settings document >>= fun a => (f a).mapError .invalidValue := by
  rw [decode, decode]
  cases enterRoot (Tape.ofDocument settings.checkEndNames document) with
  | error e => rfl
  | ok tape =>
    simp only [bind, Except.bind, run_refine]
    cases d.run settings.trimText tape with
    | error e => rfl
    | ok p =>
      obtain ⟨a, rest⟩ := p
      simp only [pure, Except.pure]
      cases f a <;> rfl

theorem decode_map (f : α → β) (d : Decoder α) (document : Bytes) :
    (d.map f).decode settings document = (d.decode settings document).map f := by
  rw [map, decode_refine]
  cases d.decode settings document <;> rfl

theorem exists_of_decode_map_eq_ok {f : α → β} {d : Decoder α} {document : Bytes} {b : β}
    (h : (d.map f).decode settings document = .ok b) :
    ∃ a, d.decode settings document = .ok a ∧ b = f a := by
  rw [decode_map] at h
  obtain ⟨a, ha, rfl⟩ := Outcome.exists_of_map_eq_ok h
  exact ⟨a, ha, rfl⟩

theorem decode_unrecognized (name : String) (child : Child settings.checkEndNames) :
    (unrecognized name : Decoder α).decode settings child.bytes = .error (.unrecognized name) := by
  rw [child.decode_bytes]
  rfl

/-- A child that is skipped changes nothing. -/
theorem decode_ignore (child : Child settings.checkEndNames) :
    (ignore : Decoder (ρ → ρ)).decode settings child.bytes = .ok id := by
  have hskip : skip.decode settings child.bytes = .ok () := by
    rw [child.decode_bytes, outcome, run, reader, Reader.skip]
    simp only [Reader.skipElement_prepend child.closes]
    rfl
  rw [ignore, decode_map, hskip]
  rfl

end Decoder

namespace Field

/-- The line replaces the part `get` of the record by what `d` decodes. -/
def Sets (get : ρ → β) (d : Decoder β) (field : Field ρ) : Prop :=
  ∀ settings document change, field.change.decode settings document = .ok change →
    ∀ r, d.decode settings document = .ok (get (change r))

/-- The line leaves the part `get` of the record as it is. -/
def Keeps (get : ρ → β) (field : Field ρ) : Prop :=
  ∀ settings document change, field.change.decode settings document = .ok change →
    ∀ r, get (change r) = get r

@[simp] theorem name_store (name : String) (d : Decoder α) (set : α → ρ → ρ) :
    (store name d set).name = name := rfl

theorem sets_store {get : ρ → β} {set : β → ρ → ρ} (h : ∀ b r, get (set b r) = b) (name : String)
    (d : Decoder β) : (store name d set).Sets get d := by
  intro settings document change hchange r
  obtain ⟨b, hb, rfl⟩ := Decoder.exists_of_decode_map_eq_ok hchange
  rw [hb, h]

theorem keeps_store {get : ρ → β} {set : α → ρ → ρ} (h : ∀ a r, get (set a r) = get r)
    (name : String) (d : Decoder α) : (store name d set).Keeps get := by
  intro settings document change hchange r
  obtain ⟨a, -, rfl⟩ := Decoder.exists_of_decode_map_eq_ok hchange
  exact h a r

/-- A name that the table has is that of one of its lines. -/
theorem exists_of_find? {fields : List (Field ρ)} {name : String} {d : Decoder (ρ → ρ)}
    (h : find? fields name = some d) : ∃ field ∈ fields, field.name = name ∧ field.change = d := by
  obtain ⟨field, hfield, rfl⟩ := Option.map_eq_some_iff.mp h
  exact ⟨field, List.mem_of_find?_eq_some hfield, by simpa using List.find?_some hfield, rfl⟩

theorem find?_eq_none_iff {fields : List (Field ρ)} {name : String} :
    find? fields name = none ↔ name ∉ fields.map Field.name := by
  simp [find?]

end Field

/-! ### The children of a name -/

namespace Child

variable {checkNames : Bool} {child : Child settings.checkEndNames}
  {children : List (Child settings.checkEndNames)} {name : String} {names : List String}

/-- Whether the local name of an element is one of `names`. -/
def isNamed (names : List String) (child : Child checkNames) : Bool :=
  match child.localName with
  | .error _ => false
  | .ok name => names.contains name

theorem isNamed_of_localName (h : child.localName = .ok name) :
    child.isNamed names = names.contains name := by
  rw [isNamed, h]

/-- `value` is what `d` makes of the last of the children called `name`, or `zero` if there is no
such child. -/
def LastOf (name : String) (d : Decoder β) (zero : β)
    (children : List (Child settings.checkEndNames)) (value : β) : Prop :=
  match (children.filter (isNamed [name])).getLast? with
  | none => value = zero
  | some child => d.decode settings child.bytes = .ok value

/-- The values go with the children whose name is one of `names`, one by one and in order. -/
def EachOf (names : List String) (rel : Child settings.checkEndNames → β → Prop)
    (children : List (Child settings.checkEndNames)) (values : List β) : Prop :=
  List.Forall₂ rel (children.filter (isNamed names)) values

section Results

variable {fields : List (Field ρ)} {other : String → Decoder (ρ → ρ)} {zero result : ρ}

/-- A child is read by a line of the table, or as children are read that the table does not
name. -/
theorem cases_of_read {change : ρ → ρ}
    (h : child.read (fun name => (Field.find? fields name).getD (other name)) = .ok change) :
    (∃ field ∈ fields, child.localName = .ok field.name ∧
      field.change.decode settings child.bytes = .ok change) ∨
    ∃ name, child.localName = .ok name ∧ name ∉ fields.map Field.name ∧
      (other name).decode settings child.bytes = .ok change := by
  rw [read] at h
  split at h
  · cases h
  · rename_i name hname
    by_cases hmem : name ∈ fields.map Field.name
    · cases hfind : Field.find? fields name with
      | none => exact absurd hmem (Field.find?_eq_none_iff.mp hfind)
      | some d =>
        rw [hfind] at h
        obtain ⟨field, hfield, rfl, rfl⟩ := Field.exists_of_find? hfind
        exact .inl ⟨field, hfield, hname, h⟩
    · rw [Field.find?_eq_none_iff.mpr hmem] at h
      exact .inr ⟨name, hname, hmem, h⟩

/-- A part of a record that the children called `name` replace comes from the last of them. -/
theorem lastOf_of_foldlM_getD {get : ρ → β} {d : Decoder β}
    (hfields : ∀ field ∈ fields,
      (field.name = name → field.Sets get d) ∧ (field.name ≠ name → field.Keeps get))
    (hother : ∀ name' ∉ fields.map Field.name, ∀ (child : Child settings.checkEndNames) change,
      (other name').decode settings child.bytes = .ok change → name' ≠ name ∧ change = id)
    (h : children.foldlM (step fun name => (Field.find? fields name).getD (other name)) zero =
      .ok result) : LastOf name d (get zero) children (get result) := by
  refine foldlM_invariant (P := fun children r => LastOf name d (get zero) children (get r)) rfl
    (fun before child change r hbefore hread => ?_) h
  -- A child of another name leaves the part as it is.
  have hkept : ∀ {name'}, child.localName = .ok name' → name' ≠ name →
      get (change r) = get r → LastOf name d (get zero) (before ++ [child]) (get (change r)) := by
    intro name' hname hne hget
    have hcontains : [name].contains name' = false := by simpa using hne
    rw [LastOf, List.filter_append, List.filter_singleton, isNamed_of_localName hname, hcontains,
      cond_false, List.append_nil, hget]
    exact hbefore
  obtain ⟨field, hfield, hname, hchange⟩ | ⟨name', hname, hmem, hchange⟩ := cases_of_read hread
  · obtain ⟨hsets, hkeeps⟩ := hfields field hfield
    by_cases heq : field.name = name
    · rw [LastOf, List.filter_append, List.filter_singleton, isNamed_of_localName hname]
      simp only [heq, List.contains_cons, beq_self_eq_true, Bool.true_or, cond_true,
        List.getLast?_append, List.getLast?_singleton, Option.some_or]
      exact hsets heq settings child.bytes change hchange r
    · exact hkept hname heq (hkeeps heq settings child.bytes change hchange r)
  · obtain ⟨hne, rfl⟩ := hother name' hmem child change hchange
    exact hkept hname hne rfl

/-- A list that the children of some names extend has one value for each of them. -/
theorem eachOf_of_foldlM_getD {get : ρ → List β} {rel : Child settings.checkEndNames → β → Prop}
    (hzero : get zero = [])
    (happend : ∀ field ∈ fields, field.name ∈ names → ∀ child change,
      child.localName = .ok field.name → field.change.decode settings child.bytes = .ok change →
        ∀ r, ∃ b, rel child b ∧ get (change r) = get r ++ [b])
    (hkeeps : ∀ field ∈ fields, field.name ∉ names → field.Keeps get)
    (hother : ∀ name' ∉ fields.map Field.name, ∀ (child : Child settings.checkEndNames) change,
      (other name').decode settings child.bytes = .ok change → name' ∉ names ∧ change = id)
    (h : children.foldlM (step fun name => (Field.find? fields name).getD (other name)) zero =
      .ok result) : EachOf names rel children (get result) := by
  refine foldlM_invariant (P := fun children r => EachOf names rel children (get r)) ?_
    (fun before child change r hbefore hread => ?_) h
  · rw [EachOf, hzero]
    exact .nil
  · -- A child of another name leaves the list as it is.
    have hkept : ∀ {name'}, child.localName = .ok name' → name' ∉ names →
        get (change r) = get r → EachOf names rel (before ++ [child]) (get (change r)) := by
      intro name' hname hmem hget
      have hcontains : names.contains name' = false := by simpa using hmem
      rw [EachOf, List.filter_append, List.filter_singleton, isNamed_of_localName hname, hcontains,
        cond_false, List.append_nil, hget]
      exact hbefore
    obtain ⟨field, hfield, hname, hchange⟩ | ⟨name', hname, hmem, hchange⟩ := cases_of_read hread
    · by_cases hmem : field.name ∈ names
      · obtain ⟨b, hb, heq⟩ := happend field hfield hmem child change hname hchange r
        have hnew : List.Forall₂ rel [child] [b] := .cons hb .nil
        have hcontains : names.contains field.name = true := by simpa using hmem
        rw [EachOf, List.filter_append, List.filter_singleton, isNamed_of_localName hname, heq,
          hcontains, cond_true]
        exact List.rel_append hbefore hnew
      · exact hkept hname hmem (hkeeps field hfield hmem settings child.bytes change hchange r)
    · obtain ⟨hnot, rfl⟩ := hother name' hmem child change hchange
      exact hkept hname hnot rfl

/-! ### Strict tables -/

/-- No other child is read by a strict table. -/
theorem false_of_decode_unrecognized {name' : String} {change : ρ → ρ}
    (h : (Decoder.unrecognized name' : Decoder (ρ → ρ)).decode settings child.bytes =
      .ok change) : False := by
  rw [Decoder.decode_unrecognized] at h
  cases h

theorem lastOf_of_foldlM {get : ρ → β} {d : Decoder β}
    (hfields : ∀ field ∈ fields,
      (field.name = name → field.Sets get d) ∧ (field.name ≠ name → field.Keeps get))
    (h : children.foldlM
      (step fun name => (Field.find? fields name).getD (.unrecognized name)) zero = .ok result) :
    LastOf name d (get zero) children (get result) :=
  lastOf_of_foldlM_getD hfields
    (fun _ _ _ _ hother => (false_of_decode_unrecognized hother).elim) h

theorem eachOf_of_foldlM {get : ρ → List β} {rel : Child settings.checkEndNames → β → Prop}
    (hzero : get zero = [])
    (happend : ∀ field ∈ fields, field.name ∈ names → ∀ child change,
      child.localName = .ok field.name → field.change.decode settings child.bytes = .ok change →
        ∀ r, ∃ b, rel child b ∧ get (change r) = get r ++ [b])
    (hkeeps : ∀ field ∈ fields, field.name ∉ names → field.Keeps get)
    (h : children.foldlM
      (step fun name => (Field.find? fields name).getD (.unrecognized name)) zero = .ok result) :
    EachOf names rel children (get result) :=
  eachOf_of_foldlM_getD hzero happend hkeeps
    (fun _ _ _ _ hother => (false_of_decode_unrecognized hother).elim) h

end Results

end Child

end BucketWire

import BucketWire.Proofs.Decode.Order
import BucketWire.Proofs.Decode.Slot

/-!
# Records with a common part

Several records may hold the same part and fields of their own besides. Reading a child and skipping
it take the same extent of a document, so the part comes out alike, whichever of these records a
document is decoded as. A document of the part is one of the whole as well, unless a child that only
the whole knows cannot be read.

## Main definitions

* `Child.RootHas` — the children of the root of a document
* `Field.Extends` — a table that has the lines of a part and lines of its own

## Main results

* `Decoder.decode_of_rootHas` — a document is decoded by a fold over the children of its root
* `Field.Extends.fill_cases` — the whole and the part, child by child
* `Field.Extends.get_of_decode`, `Field.Extends.decode_of_part` — the whole and the part of one
  document
-/

namespace BucketWire

variable {ρ τ : Type} {settings : Settings}

/-! ### The children of the root -/

/-- The document consists of a prolog, a root element with these children and what stands behind
it. -/
def Child.RootHas {checkNames : Bool} (document : Bytes) (elements : List (Child checkNames)) :
    Prop :=
  ∃ (prolog : Prolog checkNames) (root : Child checkNames) (epilog : Bytes),
    document = prolog.bytes ++ (root.bytes ++ epilog) ∧ root.HasChildren elements

namespace Decoder

variable {document : Bytes} {elements : List (Child settings.checkEndNames)} {zero result : ρ}

/-- A document is decoded by a fold over the children of its root. -/
theorem decode_of_rootHas (h : Child.RootHas document elements) (context : String)
    (d : String → Decoder (ρ → ρ)) (zero : ρ) :
    (children context d zero).decode settings document = elements.foldlM (Child.step d) zero := by
  obtain ⟨prolog, root, epilog, rfl, hroot⟩ := h
  rw [decode_append, hroot.decode_children]

theorem exists_rootHas {d : Decoder ρ} (h : d.decode settings document = .ok result) :
    ∃ elements : List (Child settings.checkEndNames), Child.RootHas document elements := by
  obtain ⟨prolog, root, epilog, rfl⟩ := exists_append_of_decode_eq_ok h
  obtain ⟨elements, helements⟩ := root.exists_hasChildren
  exact ⟨elements, prolog, root, epilog, rfl, helements⟩

end Decoder

/-! ### Tables with a common part -/

/-- How a child is read by a table. -/
def Child.readBy (fields : List (Field ρ)) (child : Child settings.checkEndNames) :
    Except DecodeError (ρ → ρ) :=
  child.read fun name => (Field.find? fields name).getD .ignore

/-- What the children make of `zero` by a table, from front to back. -/
def Child.fill (fields : List (Field ρ)) (zero : ρ)
    (elements : List (Child settings.checkEndNames)) : Except DecodeError ρ :=
  elements.foldlM (Child.step fun name => (Field.find? fields name).getD .ignore) zero

theorem Child.fill_cons (fields : List (Field ρ)) (zero : ρ)
    (child : Child settings.checkEndNames) (elements : List (Child settings.checkEndNames)) :
    fill fields zero (child :: elements) =
      child.readBy fields >>= fun change => fill fields (change zero) elements := by
  rw [fill, List.foldlM_cons, step, readBy]
  cases child.read fun name => (Field.find? fields name).getD .ignore <;> rfl

theorem Decoder.decode_record {document : Bytes} {elements : List (Child settings.checkEndNames)}
    (h : Child.RootHas document elements) {context : String} {fields : List (Field ρ)} {zero : ρ} :
    (record context fields zero).decode settings document = Child.fill fields zero elements :=
  decode_of_rootHas h context _ zero

/-- The name of a record's element does not matter. -/
theorem Decoder.decode_record_context {document : Bytes} {context context' : String}
    {fields : List (Field ρ)} {zero r : ρ}
    (h : (record context fields zero).decode settings document = .ok r) :
    (record context' fields zero).decode settings document = .ok r := by
  obtain ⟨elements, helements⟩ := exists_rootHas h
  rw [decode_record helements] at h ⊢
  exact h

/-- What no line of the table changes is as it was at first. -/
theorem Decoder.get_eq_of_keeps {β : Type} (get : ρ → β) {document : Bytes} {context : String}
    {fields : List (Field ρ)} {zero r : ρ} (hfields : ∀ field ∈ fields, field.Keeps get)
    (h : (record context fields zero).decode settings document = .ok r) : get r = get zero := by
  obtain ⟨elements, helements⟩ := exists_rootHas h
  rw [decode_record helements] at h
  refine Child.foldlM_invariant (P := fun _ acc => get acc = get zero) rfl ?_ h
  intro before child change acc hacc hread
  obtain ⟨field, hfield, -, hchange⟩ | ⟨name, -, -, hchange⟩ := Child.cases_of_read hread
  · rw [hfields field hfield settings child.bytes change hchange, hacc]
  · rw [Child.eq_id_of_ignore hchange]
    exact hacc

/-- The child is called as one of the lines, and this line gives the error. -/
def Child.FailsIn (fields : List (Field ρ)) (e : DecodeError)
    (child : Child settings.checkEndNames) : Prop :=
  ∃ field ∈ fields, child.localName = .ok field.name ∧
    field.change.decode settings child.bytes = .error e

namespace Field

/-- The lines of `whole` are those of `part`, lifted by `modify`, and lines of its own for other
children, which leave the part `get` as it is. -/
structure Extends (whole own : List (Field τ)) (part : List (Field ρ)) (get : τ → ρ)
    (modify : (ρ → ρ) → τ → τ) : Prop where
  eq_append : whole = own ++ part.map (lift modify)
  get_modify (change : ρ → ρ) (t : τ) : get (modify change t) = change (get t)
  keeps : ∀ field ∈ own, field.Keeps get
  not_mem : ∀ field ∈ own, field.name ∉ part.map Field.name

theorem find?_append (own own' : List (Field τ)) (name : String) :
    find? (own ++ own') name = (find? own name).or (find? own' name) := by
  rw [find?, List.find?_append, Option.map_or]
  rfl

theorem find?_map_lift (part : List (Field ρ)) (modify : (ρ → ρ) → τ → τ) (name : String) :
    find? (part.map (lift modify)) name = (find? part name).map (Decoder.map modify) := by
  rw [find?, List.find?_map, Option.map_map, find?, Option.map_map]
  rfl

theorem keeps_lift {β : Type} {get : τ → β} {modify : (ρ → ρ) → τ → τ}
    (h : ∀ change t, get (modify change t) = get t) (field : Field ρ) :
    (field.lift modify).Keeps get := by
  intro settings document change hchange t
  obtain ⟨change, -, rfl⟩ := Decoder.exists_of_decode_map_eq_ok hchange
  exact h change t

namespace Extends

variable {whole own : List (Field τ)} {part : List (Field ρ)} {get : τ → ρ}
  {modify : (ρ → ρ) → τ → τ} {child : Child settings.checkEndNames}
  {elements : List (Child settings.checkEndNames)} {name : String}

/-- The line of a name in the whole table is one of its own or a lifted one. -/
theorem find?_whole (h : Extends whole own part get modify) (name : String) :
    find? whole name = (find? own name).or ((find? part name).map (Decoder.map modify)) := by
  rw [h.eq_append, find?_append, find?_map_lift]

theorem find?_part_eq_none (h : Extends whole own part get modify) {d : Decoder (τ → τ)}
    (hown : find? own name = some d) : find? part name = none := by
  obtain ⟨field, hfield, rfl, -⟩ := exists_of_find? hown
  exact find?_eq_none_iff.mpr (h.not_mem field hfield)

/-- A child changes the whole as it changes the part, or it cannot be read. -/
theorem readBy_cases (h : Extends whole own part get modify)
    (child : Child settings.checkEndNames) :
    (∃ change change', child.readBy whole = .ok change ∧ child.readBy part = .ok change' ∧
      ∀ t, get (change t) = change' (get t)) ∨
    (∃ e, child.readBy whole = .error e ∧ child.readBy part = .error e) ∨
    ∃ e, child.readBy whole = .error e ∧ child.FailsIn own e := by
  rw [Child.readBy, Child.readBy, Child.read, Child.read]
  cases hname : child.localName with
  | error fault => exact .inr (.inl ⟨_, rfl, rfl⟩)
  | ok name =>
    simp only [h.find?_whole]
    cases hown : find? own name with
    | some d =>
      obtain ⟨field, hfield, rfl, rfl⟩ := exists_of_find? hown
      rw [h.find?_part_eq_none hown]
      simp only [Option.some_or, Option.getD_some, Option.getD_none, Decoder.decode_ignore]
      cases hread : field.change.decode settings child.bytes with
      | error e => exact .inr (.inr ⟨e, rfl, field, hfield, hname, hread⟩)
      | ok change =>
        exact .inl ⟨change, id, rfl, rfl, h.keeps field hfield settings _ change hread⟩
    | none =>
      cases hpart : find? part name with
      | none =>
        simp only [Option.none_or, Option.map_none, Option.getD_none, Decoder.decode_ignore]
        exact .inl ⟨id, id, rfl, rfl, fun t => rfl⟩
      | some d =>
        simp only [Option.none_or, Option.map_some, Option.getD_some, Decoder.decode_map]
        cases d.decode settings child.bytes with
        | error e => exact .inr (.inl ⟨e, rfl, rfl⟩)
        | ok change =>
          exact .inl ⟨modify change, change, rfl, rfl, fun t => h.get_modify change t⟩

/-- The children make of the whole what they make of the part, or they cannot be read. -/
theorem fill_cases (h : Extends whole own part get modify)
    (elements : List (Child settings.checkEndNames)) (zero : τ) :
    (∃ t, Child.fill whole zero elements = .ok t ∧
      Child.fill part (get zero) elements = .ok (get t)) ∨
    (∃ e, Child.fill whole zero elements = .error e ∧
      Child.fill part (get zero) elements = .error e) ∨
    ∃ e, Child.fill whole zero elements = .error e ∧ ∃ child ∈ elements, child.FailsIn own e := by
  induction elements generalizing zero with
  | nil => exact .inl ⟨zero, rfl, rfl⟩
  | cons child elements ih =>
    rw [Child.fill_cons, Child.fill_cons]
    obtain ⟨change, change', hwhole, hpart, hget⟩ | ⟨e, hwhole, hpart⟩ | ⟨e, hwhole, hfails⟩ :=
      h.readBy_cases child
    · simp only [hwhole, hpart, bind, Except.bind, ← hget]
      obtain hok | herror | ⟨e, herror, other, hother, hfails⟩ := ih (change zero)
      · exact .inl hok
      · exact .inr (.inl herror)
      · exact .inr (.inr ⟨e, herror, other, List.mem_cons_of_mem child hother, hfails⟩)
    · rw [hwhole, hpart]
      exact .inr (.inl ⟨e, rfl, rfl⟩)
    · rw [hwhole]
      exact .inr (.inr ⟨e, rfl, child, List.mem_cons_self, hfails⟩)

/-! ### Documents -/

variable {document : Bytes} {context : String} {zero : τ}

/-- A document of the whole is one of the part, which comes out alike. -/
theorem get_of_decode (h : Extends whole own part get modify) (context' : String) {t : τ}
    (ht : (Decoder.record context whole zero).decode settings document = .ok t) :
    (Decoder.record context' part (get zero)).decode settings document = .ok (get t) := by
  obtain ⟨elements, helements⟩ := Decoder.exists_rootHas ht
  rw [Decoder.decode_record helements] at ht ⊢
  obtain ⟨t', hwhole, hpart⟩ | ⟨e, hwhole, -⟩ | ⟨e, hwhole, -⟩ := h.fill_cases elements zero
  · rw [hwhole, Except.ok.injEq] at ht
    rw [hpart, ht]
  all_goals
    rw [hwhole] at ht
    cases ht

/-- A document of the part is one of the whole, and the part comes out alike, or a child that only
the whole knows cannot be read. -/
theorem decode_of_part (h : Extends whole own part get modify) (context' : String) (zero : τ)
    {r : ρ}
    (hr : (Decoder.record context part (get zero)).decode settings document = .ok r) :
    (∃ t, (Decoder.record context' whole zero).decode settings document = .ok t ∧ get t = r) ∨
    ∃ e, (Decoder.record context' whole zero).decode settings document = .error e ∧
      ∃ elements : List (Child settings.checkEndNames), Child.RootHas document elements ∧
        ∃ child ∈ elements, child.FailsIn own e := by
  obtain ⟨elements, helements⟩ := Decoder.exists_rootHas hr
  rw [Decoder.decode_record helements] at hr ⊢
  obtain ⟨t, hwhole, hpart⟩ | ⟨e, -, hpart⟩ | ⟨e, hwhole, hfails⟩ := h.fill_cases elements zero
  · rw [hpart, Except.ok.injEq] at hr
    exact .inl ⟨t, hwhole, hr⟩
  · rw [hpart] at hr
    cases hr
  · exact .inr ⟨e, hwhole, elements, helements, hfails⟩

end Extends

end Field

end BucketWire

import BucketWire.Proofs.Decode.Table
import BucketWire.Proofs.Markup.Parts

/-!
# Records made up of what their children say

A record that holds what its children say is described by its parts. A part holds what the last
child of a name says, or what each child of a name says, or the same of the children within the last
child of a name. What a child says is what it decodes to as a document of its own, so the record
does not depend on anything but its children, each by itself.

## Main definitions

* `Child.HasChildren` — the children of an element
* `Slot` — a part of a record, and the children that fill it
* `Slot.Holds` — the part holds what the children say
* `Slot.Admits` — a child can be read by the parts that it fills
* `Slot.Describe` — a record is made up of these parts

## Main results

* `Decoder.decode_items` — a list of equally named children
* `Slot.Describe.exists_decode_iff` — a record decodes if its children do
* `Slot.Describe.holds` — a record holds what its children say
-/

namespace BucketWire

open Tape (prepend)

variable {α β ρ τ : Type} {settings : Settings} {checkNames : Bool}

/-! ### The children of an element -/

namespace Child

/-- The children of an element. A single tag has none. -/
def HasChildren (child : Child checkNames) (elements : List (Child checkNames)) : Prop :=
  (child.IsSelfClosing ∧ elements = []) ∨
    ∃ layout : Layout checkNames, layout.child = child ∧ layout.elements = elements

theorem exists_hasChildren (child : Child checkNames) : ∃ elements, child.HasChildren elements := by
  obtain h | ⟨layout, h⟩ := child.isSelfClosing_or_exists_layout
  · exact ⟨[], .inl ⟨h, rfl⟩⟩
  · exact ⟨_, .inr ⟨layout, h, rfl⟩⟩

/-- After the start of a single tag comes its end. -/
theorem IsSelfClosing.content_eq {child : Child checkNames} (h : child.IsSelfClosing) :
    child.content = [.close child.name] := by
  have htape : Cursor.tape { rest := child.bytes, checkNames } =
      prepend (.start child.name :: child.content) .finished := child.tape_eq
  obtain ⟨c', hwalk, -⟩ := Cursor.exists_walk_of_tape_eq htape
  obtain _ | ⟨hnext, hwalk⟩ := hwalk
  have hscan : Token.scan child.bytes = .ok (some (.startTag child.name true, [])) := h
  rw [Cursor.next_of_scan rfl hscan] at hnext
  simp only [Cursor.report, Except.map, Except.ok.injEq, Option.some.injEq, Prod.mk.injEq,
    true_and] at hnext
  subst hnext
  exact (hwalk.eq_of_owed child.closes rfl).1

variable {child : Child settings.checkEndNames} {elements : List (Child settings.checkEndNames)}

/-- An element is decoded by a fold over its children, from front to back. -/
theorem HasChildren.decode_children (h : child.HasChildren elements) (context : String)
    (d : String → Decoder (ρ → ρ)) (zero : ρ) :
    (Decoder.children context d zero).decode settings child.bytes =
      elements.foldlM (step d) zero := by
  obtain ⟨hself, rfl⟩ | ⟨layout, rfl, rfl⟩ := h
  · rw [child.decode_bytes, hself.content_eq, Decoder.outcome, Decoder.run, Decoder.reader,
      Reader.children]
    simp only [Tape.prepend_cons, Reader.foldChildren_close]
    rfl
  · exact Decoder.decode_children context d zero layout

end Child

/-! ### Lines that store a value -/

namespace Field

variable {d : Decoder β} {set : β → ρ → ρ} {field : Field ρ}

/-- The line reads a child by `d` and stores the value by `set`. -/
def Stores (d : Decoder β) (set : β → ρ → ρ) (field : Field ρ) : Prop :=
  ∀ settings document,
    field.change.decode settings document = (d.decode settings document).map set

@[simp] theorem name_lift (modify : (ρ → ρ) → τ → τ) (field : Field ρ) :
    (field.lift modify).name = field.name := rfl

theorem stores_store (name : String) (d : Decoder β) (set : β → ρ → ρ) :
    (store name d set).Stores d set := fun _ _ => Decoder.decode_map _ _ _

theorem Stores.lift (h : field.Stores d set) (modify : (ρ → ρ) → τ → τ) :
    (field.lift modify).Stores d fun b => modify (set b) := by
  intro settings document
  show (field.change.map modify).decode settings document = _
  rw [Decoder.decode_map, h settings document]
  cases d.decode settings document <;> rfl

theorem Stores.exists_of_decode (h : field.Stores d set) {document : Bytes} {change : ρ → ρ}
    (hchange : field.change.decode settings document = .ok change) :
    ∃ b, d.decode settings document = .ok b ∧ change = set b := by
  rw [h settings document] at hchange
  obtain ⟨b, hb, rfl⟩ := Outcome.exists_of_map_eq_ok hchange
  exact ⟨b, hb, rfl⟩

theorem Stores.exists_decode_iff (h : field.Stores d set) (document : Bytes) :
    (∃ change, field.change.decode settings document = .ok change) ↔
      ∃ b, d.decode settings document = .ok b := by
  rw [h settings document]
  cases d.decode settings document <;> simp [Except.map]

/-- The line reads a child by `d` and changes the part `get` of the record by `put`. -/
def Puts (get : ρ → α) (put : β → α → α) (d : Decoder β) (field : Field ρ) : Prop :=
  ∃ set, field.Stores d set ∧ ∀ b r, get (set b r) = put b (get r)

variable {get : ρ → α} {put : β → α → α}

theorem puts_store (h : ∀ b r, get (set b r) = put b (get r)) (name : String) :
    (store name d set).Puts get put d := ⟨set, stores_store name d set, h⟩

theorem Puts.exists_of_decode (h : field.Puts get put d) {document : Bytes} {change : ρ → ρ}
    (hchange : field.change.decode settings document = .ok change) :
    ∃ b, d.decode settings document = .ok b ∧ ∀ r, get (change r) = put b (get r) := by
  obtain ⟨set, hstores, hset⟩ := h
  obtain ⟨b, hb, rfl⟩ := hstores.exists_of_decode hchange
  exact ⟨b, hb, hset b⟩

theorem Puts.exists_decode_iff (h : field.Puts get put d) (document : Bytes) :
    (∃ change, field.change.decode settings document = .ok change) ↔
      ∃ b, d.decode settings document = .ok b := by
  obtain ⟨set, hstores, -⟩ := h
  exact hstores.exists_decode_iff document

theorem Puts.sets {get : ρ → β} (h : field.Puts get (fun b _ => b) d) : field.Sets get d := by
  intro settings document change hchange r
  obtain ⟨b, hb, hset⟩ := h.exists_of_decode hchange
  rw [hb, hset]

theorem keeps_lift_store {modify : (ρ → ρ) → τ → τ} {get : τ → α}
    (h : ∀ b t, get (modify (set b) t) = get t) (name : String) :
    ((store name d set).lift modify).Keeps get := by
  intro settings document change hchange t
  obtain ⟨b, -, rfl⟩ := ((stores_store name d set).lift modify).exists_of_decode hchange
  exact h b t

theorem puts_lift_store {modify : (ρ → ρ) → τ → τ} {get : τ → α}
    (h : ∀ b t, get (modify (set b) t) = put b (get t)) (name : String) :
    ((store name d set).lift modify).Puts get put d :=
  ⟨_, (stores_store name d set).lift modify, h⟩

end Field

/-! ### Parts of records -/

/-- A part of a record, and the children that fill it. -/
inductive Slot (ρ : Type) : Type 1 where
  /-- What the last child called `name` says, or `zero` if there is none. -/
  | last {β : Type} (name : String) (d : Decoder β) (zero : β) (get : ρ → β) : Slot ρ
  /-- What each of the children called `name` says. -/
  | each {β : Type} (name : String) (d : Decoder β) (get : ρ → List β) : Slot ρ
  /-- What each of the children called `item` says that stand in the last child called `name`. -/
  | eachOfLast {β : Type} (name item : String) (d : Decoder β) (get : ρ → List β) : Slot ρ

namespace Slot

/-- The name of the children that fill the part. -/
def name : Slot ρ → String
  | last name _ _ _ => name
  | each name _ _ => name
  | eachOfLast name _ _ _ => name

/-- The value of each of the children called `item`, in order, is what it decodes to alone. -/
def ListOf (item : String) (d : Decoder β) (children : List (Child settings.checkEndNames))
    (values : List β) : Prop :=
  Child.EachOf [item] (fun child b => d.decode settings child.bytes = .ok b) children values

/-- All children have readable names, and those called `item` decode alone. -/
def AllDecode (item : String) (d : Decoder β) (children : List (Child settings.checkEndNames)) :
    Prop :=
  ∀ child ∈ children, ∃ name, child.localName = .ok name ∧
    (name = item → ∃ b, d.decode settings child.bytes = .ok b)

/-- The part holds what the children say. -/
def Holds (children : List (Child settings.checkEndNames)) (r : ρ) : Slot ρ → Prop
  | last name d zero get => Child.LastOf name d zero children (get r)
  | each name d get => ListOf name d children (get r)
  | eachOfLast name item d get =>
    match (children.filter (Child.isNamed [name])).getLast? with
    | none => get r = []
    | some child => ∃ elements, child.HasChildren elements ∧ ListOf item d elements (get r)

/-- The part can be filled by the child. -/
def Decodes (child : Child settings.checkEndNames) : Slot ρ → Prop
  | last _ d _ _ => ∃ b, d.decode settings child.bytes = .ok b
  | each _ d _ => ∃ b, d.decode settings child.bytes = .ok b
  | eachOfLast _ item d _ => ∃ elements, child.HasChildren elements ∧ AllDecode item d elements

/-- A child has a readable name, and the parts of its name can be filled by it. -/
def Admits (slots : List (Slot ρ)) (child : Child settings.checkEndNames) : Prop :=
  ∃ name, child.localName = .ok name ∧ ∀ slot ∈ slots, slot.name = name → slot.Decodes child

/-- The part is the same in both records. -/
def Agree (r r' : ρ) : Slot ρ → Prop
  | last _ _ _ get => get r = get r'
  | each _ _ get => get r = get r'
  | eachOfLast _ _ _ get => get r = get r'

/-- The part of a record without children. -/
def IsEmpty (r : ρ) : Slot ρ → Prop
  | last _ _ zero get => get r = zero
  | each _ _ get => get r = []
  | eachOfLast _ _ _ get => get r = []

/-- The line fills the part from the children of its name, and leaves it as it is if the name is
another one. -/
def Fits (field : Field ρ) : Slot ρ → Prop
  | last name d _ get =>
    (field.name = name → field.Puts get (fun b _ => b) d) ∧ (field.name ≠ name → field.Keeps get)
  | each name d get =>
    (field.name = name → field.Puts get (fun b values => values ++ [b]) d) ∧
      (field.name ≠ name → field.Keeps get)
  | eachOfLast name item d get =>
    (field.name = name → field.Puts get (fun values _ => values) (Decoder.items item d)) ∧
      (field.name ≠ name → field.Keeps get)

/-- The parts make up a record that is read by these lines and is `zero` at first. -/
structure Describe (slots : List (Slot ρ)) (fields : List (Field ρ)) (zero : ρ) : Prop where
  name_eq : slots.map name = fields.map Field.name
  isEmpty : ∀ slot ∈ slots, slot.IsEmpty zero
  fits : ∀ slot ∈ slots, ∀ field ∈ fields, slot.Fits field

end Slot

/-! ### Lists of equally named children -/

section Items

variable {child : Child settings.checkEndNames} {children : List (Child settings.checkEndNames)}
  {fields : List (Field ρ)} {zero result : ρ}

/-- A child that a record does not name is skipped. -/
theorem Child.eq_id_of_ignore {change : ρ → ρ}
    (h : (Decoder.ignore : Decoder (ρ → ρ)).decode settings child.bytes = .ok change) :
    change = id := by
  rw [Decoder.decode_ignore] at h
  exact (Except.ok.inj h).symm

/-- A child of a record is read if its name is readable and the line of its name reads it. -/
theorem Child.exists_read_iff :
    (∃ change, child.read (fun name => (Field.find? fields name).getD .ignore) = .ok change) ↔
      ∃ name, child.localName = .ok name ∧ ∀ d, Field.find? fields name = some d →
        ∃ change, d.decode settings child.bytes = .ok change := by
  rw [Child.read]
  cases child.localName with
  | error fault => simp
  | ok name =>
    cases hfind : Field.find? fields name with
    | none => simp [hfind, Decoder.decode_ignore]
    | some d => simp [hfind]

variable {item : String} {d : Decoder β} {elements : List (Child settings.checkEndNames)}

/-- A list of equally named children decodes if the names of all children are readable and the
children of this name decode. -/
theorem Decoder.exists_decode_items_iff (h : child.HasChildren elements) :
    (∃ values, (items item d).decode settings child.bytes = .ok values) ↔
      Slot.AllDecode item d elements := by
  rw [items, record, h.decode_children, Child.exists_foldlM_step_eq_ok_iff]
  refine forall₂_congr fun x _ => ?_
  rw [Child.exists_read_iff]
  refine exists_congr fun name => and_congr_right fun _ => ?_
  by_cases hname : name = item
  · have hstores := Field.stores_store item d fun a items => items ++ [a]
    simp only [hname, Field.find?, List.find?_singleton, Field.name_store, decide_true, if_true,
      Option.map_some, Option.some.injEq, forall_eq', forall_const]
    exact hstores.exists_decode_iff x.bytes
  · simp [Field.find?, hname, Ne.symm hname]

/-- A list of equally named children holds what each of them decodes to. -/
theorem Decoder.listOf_of_decode_items (h : child.HasChildren elements) {values : List β}
    (hvalues : (items item d).decode settings child.bytes = .ok values) :
    Slot.ListOf item d elements values := by
  rw [items, record, h.decode_children] at hvalues
  have hstores := Field.stores_store item d fun a items => items ++ [a]
  have hzero : id ([] : List β) = [] := rfl
  refine Child.eachOf_of_foldlM_getD hzero ?_ ?_ ?_ hvalues
  · intro field hfield _ x change _ hchange values
    rw [List.mem_singleton.mp hfield] at hchange
    obtain ⟨b, hb, rfl⟩ := hstores.exists_of_decode hchange
    exact ⟨b, hb, rfl⟩
  · intro field hfield hname
    rw [List.mem_singleton.mp hfield] at hname
    exact absurd (List.mem_singleton_self item) hname
  · intro name hname x change hchange
    exact ⟨by simpa using hname, Child.eq_id_of_ignore hchange⟩

end Items

/-! ### Records by their parts -/

namespace Slot

variable {child root : Child settings.checkEndNames}
  {elements : List (Child settings.checkEndNames)} {slot : Slot ρ} {slots : List (Slot ρ)}
  {field : Field ρ} {fields : List (Field ρ)} {zero result : ρ}

theorem Fits.exists_decode_iff (h : slot.Fits field) (hname : field.name = slot.name) :
    (∃ change, field.change.decode settings child.bytes = .ok change) ↔ slot.Decodes child := by
  cases slot with
  | last name d zero get => exact (h.1 hname).exists_decode_iff child.bytes
  | each name d get => exact (h.1 hname).exists_decode_iff child.bytes
  | eachOfLast name item d get =>
    rw [(h.1 hname).exists_decode_iff]
    constructor
    · intro hvalues
      obtain ⟨elements, helements⟩ := child.exists_hasChildren
      exact ⟨elements, helements, (Decoder.exists_decode_items_iff helements).mp hvalues⟩
    · rintro ⟨elements, helements, hall⟩
      exact (Decoder.exists_decode_items_iff helements).mpr hall

namespace Describe

/-- A child is read if the parts of its name can be filled by it. -/
theorem exists_read_iff (h : Describe slots fields zero) :
    (∃ change, child.read (fun name => (Field.find? fields name).getD .ignore) = .ok change) ↔
      Admits slots child := by
  rw [Child.exists_read_iff]
  refine exists_congr fun name => and_congr_right fun _ => ?_
  constructor
  · rintro hread slot hslot rfl
    have hmem : slot.name ∈ fields.map Field.name := h.name_eq ▸ List.mem_map_of_mem hslot
    cases hfind : Field.find? fields slot.name with
    | none => exact absurd hmem (Field.find?_eq_none_iff.mp hfind)
    | some d =>
      obtain ⟨field, hfield, hname, rfl⟩ := Field.exists_of_find? hfind
      exact ((h.fits slot hslot field hfield).exists_decode_iff hname).mp (hread _ hfind)
  · intro hslots d hfind
    obtain ⟨field, hfield, rfl, rfl⟩ := Field.exists_of_find? hfind
    have hmem : field.name ∈ slots.map Slot.name := h.name_eq ▸ List.mem_map_of_mem hfield
    obtain ⟨slot, hslot, hname⟩ := List.mem_map.mp hmem
    exact ((h.fits slot hslot field hfield).exists_decode_iff hname.symm).mpr
      (hslots slot hslot hname)

/-- A part that is replaced comes from the last child of its name. -/
theorem lastOf_of_foldlM (h : Describe slots fields zero) {d : Decoder β} {get : ρ → β}
    {name : String} (hname : name ∈ slots.map Slot.name)
    (hfields : ∀ field ∈ fields,
      (field.name = name → field.Puts get (fun b _ => b) d) ∧
        (field.name ≠ name → field.Keeps get))
    (hresult : elements.foldlM
      (Child.step fun name => (Field.find? fields name).getD .ignore) zero = .ok result) :
    Child.LastOf name d (get zero) elements (get result) := by
  refine Child.lastOf_of_foldlM_getD
    (fun field hfield => (hfields field hfield).imp_left fun hputs heq => (hputs heq).sets)
    (fun name' hname' child change hchange => ⟨?_, Child.eq_id_of_ignore hchange⟩) hresult
  rintro rfl
  exact hname' (h.name_eq ▸ hname)

theorem holds_of_foldlM (h : Describe slots fields zero) (hslot : slot ∈ slots)
    (hresult : elements.foldlM
      (Child.step fun name => (Field.find? fields name).getD .ignore) zero = .ok result) :
    slot.Holds elements result := by
  have hname : slot.name ∈ slots.map Slot.name := List.mem_map_of_mem hslot
  have hempty := h.isEmpty slot hslot
  have hfits := h.fits slot hslot
  cases slot with
  | last name d zero' get =>
    obtain rfl : get zero = zero' := hempty
    exact h.lastOf_of_foldlM hname hfits hresult
  | each name d get =>
    refine Child.eachOf_of_foldlM_getD hempty ?_ ?_ ?_ hresult
    · intro field hfield hmem child change _ hchange r
      obtain ⟨b, hb, hset⟩ :=
        ((hfits field hfield).1 (List.mem_singleton.mp hmem)).exists_of_decode hchange
      exact ⟨b, hb, hset r⟩
    · exact fun field hfield hmem => (hfits field hfield).2 (by simpa using hmem)
    · intro name' hname' child change hchange
      refine ⟨fun hmem => hname' ?_, Child.eq_id_of_ignore hchange⟩
      rw [List.mem_singleton.mp hmem, ← h.name_eq]
      exact hname
  | eachOfLast name item d get =>
    have hlast : Child.LastOf name (Decoder.items item d) (get zero) elements (get result) :=
      h.lastOf_of_foldlM hname hfits hresult
    rw [Child.LastOf] at hlast
    rw [Holds]
    cases hfound : (elements.filter (Child.isNamed [name])).getLast? with
    | none =>
      rw [hfound] at hlast
      exact hlast.trans hempty
    | some child =>
      rw [hfound] at hlast
      obtain ⟨elements', helements'⟩ := child.exists_hasChildren
      exact ⟨elements', helements', Decoder.listOf_of_decode_items helements' hlast⟩

/-- A record decodes if all children of the element can be read. -/
theorem exists_decode_iff (h : Describe slots fields zero) (hroot : root.HasChildren elements)
    (context : String) :
    (∃ r, (Decoder.record context fields zero).decode settings root.bytes = .ok r) ↔
      ∀ child ∈ elements, Admits slots child := by
  rw [Decoder.record, hroot.decode_children, Child.exists_foldlM_step_eq_ok_iff]
  exact forall₂_congr fun _ _ => h.exists_read_iff

/-- A record holds what the children of the element say. -/
theorem holds (h : Describe slots fields zero) (hroot : root.HasChildren elements)
    {context : String}
    (hresult : (Decoder.record context fields zero).decode settings root.bytes = .ok result)
    (hslot : slot ∈ slots) : slot.Holds elements result := by
  rw [Decoder.record, hroot.decode_children] at hresult
  exact h.holds_of_foldlM hslot hresult

end Describe

end Slot

end BucketWire

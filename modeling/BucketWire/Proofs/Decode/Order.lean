import BucketWire.Proofs.Decode.Table
import BucketWire.Proofs.Markup.Parts
import Mathlib.Data.List.Pairwise

/-!
# The order of the children of an element

A decoder that skips the children it does not know decodes an element as it does without them. If
children of different names change a value in ways that do not meet, it does not matter which of
them comes first. Both hold at every level of a document.

## Main definitions

* `Child.Reordered` — the same children in another order, those of one name in the same order
* `Layout.Replaced` — two elements that differ in one child
* `Decoder.Revises` — an element with other children that say nothing, or in another order
* `Decoder.Apart` — changes that can be made in any order
* `Decoder.OrderFree` — decoders whose children of different names are apart
* `Field.Independent` — tables whose lines are apart

## Main results

* `Child.Reordered.foldlM_eq` — children in another order change a value alike
* `Decoder.Revises.decode_eq` — a revised element decodes to the same value
* `Decoder.orderFree_record` — a record whose fields are apart
-/

namespace BucketWire

variable {α β ρ σ τ : Type} {settings : Settings}

/-! ### Revised elements -/

/-- The children are the same but for their order, and those of one local name have kept theirs. -/
structure Child.Reordered {checkNames : Bool} (children children' : List (Child checkNames)) :
    Prop where
  perm : children.Perm children'
  filter_eq (name : String) :
    children'.filter (isNamed [name]) = children.filter (isNamed [name])

/-- The elements differ in one child, which is `x` in the one and `x'` in the other and is called
`name` in both. -/
structure Layout.Replaced {checkNames : Bool} (layout layout' : Layout checkNames) (name : String)
    (x x' : Child checkNames) : Prop where
  exists_elements : ∃ before after,
    layout.elements = before ++ x :: after ∧ layout'.elements = before ++ x' :: after
  localName_eq : x.localName = .ok name
  localName_eq' : x'.localName = .ok name

/-- `x'` is the element `x` after changes that `d` does not see. What stands between the children
may change as well. -/
inductive Decoder.Revises {checkNames : Bool} :
    {α : Type} → Decoder α → Child checkNames → Child checkNames → Prop where
  /-- A child has been put in that a record does not name, whatever it holds. -/
  | insert {ρ : Type} {context : String} {fields : List (Field ρ)} {zero : ρ}
    {layout layout' : Layout checkNames} {before after : List (Child checkNames)}
    {child : Child checkNames} {name : String} (hname : child.localName = .ok name)
    (hfields : name ∉ fields.map Field.name) (helements : layout.elements = before ++ after)
    (helements' : layout'.elements = before ++ child :: after) :
    Revises (record context fields zero) layout.child layout'.child
  /-- The children have been put in another order. -/
  | reorder {σ : Type} {context : String} {child : String → Decoder (σ → σ)} {zero : σ}
    {layout layout' : Layout checkNames}
    (h : Child.Reordered layout.elements layout'.elements) :
    Revises (children context child zero) layout.child layout'.child
  /-- One of the children has been revised. -/
  | inside {σ : Type} {context : String} {child : String → Decoder (σ → σ)} {zero : σ}
    {layout layout' : Layout checkNames} {name : String} {x x' : Child checkNames}
    (h : layout.Replaced layout' name x x') (hx : Revises (child name) x x') :
    Revises (children context child zero) layout.child layout'.child
  /-- A value is made of what has been revised. -/
  | refine {α β : Type} {f : α → Except ValueFault β} {d : Decoder α} {x x' : Child checkNames}
    (h : Revises d x x') : Revises (d.refine f) x x'
  /-- There have been several changes. -/
  | trans {α : Type} {d : Decoder α} {x x' x'' : Child checkNames} (h : Revises d x x')
    (h' : Revises d x' x'') : Revises d x x''

/-! ### Changes that do not meet -/

namespace Decoder

/-- `d` decodes some document to `a`. -/
def Yields (d : Decoder α) (a : α) : Prop :=
  ∃ settings document, d.decode settings document = .ok a

/-- What `d` changes and what `d'` changes can be changed in any order. -/
def Apart (d d' : Decoder (σ → σ)) : Prop :=
  ∀ c c', d.Yields c → d'.Yields c' → ∀ a, c (c' a) = c' (c a)

/-- At every level children of different names can change a value in any order. -/
def OrderFree : {α : Type} → Decoder α → Prop
  | _, .text => True
  | _, .skip => True
  | _, .unrecognized _ => True
  | _, .refine _ d => d.OrderFree
  | _, .children _ child _ => (∀ name, (child name).OrderFree) ∧
    ∀ name name', name ≠ name' → (child name).Apart (child name')

theorem Apart.symm {d d' : Decoder (σ → σ)} (h : d.Apart d') : d'.Apart d :=
  fun c c' hc hc' a => (h c' c hc' hc a).symm

theorem exists_of_yields_map {f : α → β} {d : Decoder α} {b : β} (h : (d.map f).Yields b) :
    ∃ a, d.Yields a ∧ b = f a := by
  obtain ⟨settings, document, hb⟩ := h
  obtain ⟨a, ha, rfl⟩ := exists_of_decode_map_eq_ok hb
  exact ⟨a, ⟨settings, document, ha⟩, rfl⟩

/-- Changes that commute are apart. -/
theorem apart_map {d : Decoder α} {d' : Decoder β} {f : α → σ → σ} {g : β → σ → σ}
    (h : ∀ a b s, f a (g b s) = g b (f a s)) : (d.map f).Apart (d'.map g) := by
  intro c c' hc hc' s
  obtain ⟨a, -, rfl⟩ := exists_of_yields_map hc
  obtain ⟨b, -, rfl⟩ := exists_of_yields_map hc'
  exact h a b s

/-- What is skipped is apart from everything. -/
theorem apart_ignore (d : Decoder (σ → σ)) : ignore.Apart d := by
  intro c c' hc _ s
  obtain ⟨-, -, rfl⟩ := exists_of_yields_map hc
  rfl

end Decoder

namespace Child

variable {children children' before after : List (Child settings.checkEndNames)}
  {x x' y : Child settings.checkEndNames} {d : String → Decoder (σ → σ)} {acc result : σ}
  {name : String}

/-! ### Children that say nothing -/

/-- A child that a record does not name is skipped. -/
theorem read_of_not_mem {fields : List (Field ρ)} (hname : x.localName = .ok name)
    (hfields : name ∉ fields.map Field.name) :
    x.read (fun name => (Field.find? fields name).getD .ignore) = .ok id := by
  rw [read, hname]
  simp only [Field.find?_eq_none_iff.mpr hfields, Option.getD_none, Decoder.decode_ignore]

/-- A child that changes nothing can be put in. -/
theorem foldlM_insert (hx : x.read d = .ok id) :
    (before ++ x :: after).foldlM (step d) acc = (before ++ after).foldlM (step d) acc := by
  rw [List.foldlM_append, List.foldlM_append]
  congr
  funext acc
  rw [List.foldlM_cons, step, hx]
  rfl

/-- A child can be replaced by one that changes a value in the same way. -/
theorem foldlM_replace (hx : ∀ change, x.read d = .ok change → x'.read d = .ok change)
    (h : (before ++ x :: after).foldlM (step d) acc = .ok result) :
    (before ++ x' :: after).foldlM (step d) acc = .ok result := by
  obtain ⟨change, hread⟩ := exists_foldlM_step_eq_ok_iff.mp ⟨result, h⟩ x (by simp)
  rw [List.foldlM_append] at h ⊢
  rw [← h]
  congr
  funext acc
  rw [List.foldlM_cons, List.foldlM_cons, step, step, hread, hx change hread]

/-! ### Children in another order -/

/-- What a child says is what the decoder of its name decodes. -/
theorem exists_of_read {change : σ → σ} (h : x.read d = .ok change) :
    ∃ name, x.localName = .ok name ∧ (d name).decode settings x.bytes = .ok change := by
  rw [read] at h
  split at h
  · cases h
  · rename_i name hname
    exact ⟨name, hname, h⟩

/-- Children of different names can be swapped. -/
theorem foldlM_swap (hd : ∀ name name', name ≠ name' → (d name).Apart (d name'))
    (hne : x.localName ≠ y.localName) (h : (x :: y :: after).foldlM (step d) acc = .ok result) :
    (y :: x :: after).foldlM (step d) acc = .ok result := by
  have hread := exists_foldlM_step_eq_ok_iff.mp ⟨result, h⟩
  obtain ⟨change, hx⟩ := hread x (by simp)
  obtain ⟨change', hy⟩ := hread y (by simp)
  obtain ⟨name, hname, hdecode⟩ := exists_of_read hx
  obtain ⟨name', hname', hdecode'⟩ := exists_of_read hy
  have hapart := hd name name' (fun heq => hne (by rw [hname, hname', heq]))
  have hswap := hapart change change' ⟨settings, _, hdecode⟩ ⟨settings, _, hdecode'⟩ acc
  simp only [List.foldlM_cons, step, hx, hy, Except.map, bind, Except.bind] at h ⊢
  rwa [hswap]

/-- A child can be moved behind children of other names. -/
theorem foldlM_move (hd : ∀ name name', name ≠ name' → (d name).Apart (d name'))
    (hbefore : ∀ y ∈ before, x.localName ≠ y.localName)
    (h : (x :: (before ++ after)).foldlM (step d) acc = .ok result) :
    (before ++ x :: after).foldlM (step d) acc = .ok result := by
  induction before generalizing acc with
  | nil => exact h
  | cons y before ih =>
    obtain ⟨hy, hbefore⟩ := List.forall_mem_cons.mp hbefore
    have hswap := foldlM_swap hd hy h
    rw [List.cons_append, List.foldlM_cons]
    rw [List.foldlM_cons] at hswap
    cases hstep : step d acc y with
    | error e => simp [hstep, bind, Except.bind] at hswap
    | ok acc' =>
      rw [hstep] at hswap
      exact ih hbefore hswap

/-- The first child stands behind children of other names, and the others are reordered among
themselves. -/
theorem Reordered.exists_of_cons (h : Reordered (x :: children) children')
    (hname : x.localName = .ok name) :
    ∃ before after, children' = before ++ x :: after ∧
      (∀ y ∈ before, x.localName ≠ y.localName) ∧ Reordered children (before ++ after) := by
  have hfilter := h.filter_eq name
  have hx : x.isNamed [name] = true := by simp [isNamed_of_localName hname]
  rw [List.filter_cons_of_pos hx] at hfilter
  obtain ⟨before, after, rfl, hbefore, -, hafter⟩ := List.filter_eq_cons_iff.mp hfilter
  refine ⟨before, after, rfl, fun y hy heq => ?_, (h.perm.trans List.perm_middle).cons_inv,
    fun name' => ?_⟩
  · refine hbefore y hy ?_
    simp [isNamed_of_localName (heq ▸ hname)]
  · by_cases hname' : name' = name
    · rw [hname', List.filter_append, List.filter_eq_nil_iff.mpr hbefore, hafter, List.nil_append]
    · have hx' : ¬ x.isNamed [name'] = true := by
        simpa [isNamed_of_localName hname] using Ne.symm hname'
      have := h.filter_eq name'
      rwa [List.filter_append, List.filter_cons_of_neg hx', List.filter_cons_of_neg hx',
        ← List.filter_append] at this

/-- Children in another order change a value alike, if those of different names are apart. -/
theorem Reordered.foldlM_eq (h : Reordered children children')
    (hd : ∀ name name', name ≠ name' → (d name).Apart (d name'))
    (hfold : children.foldlM (step d) acc = .ok result) :
    children'.foldlM (step d) acc = .ok result := by
  induction children generalizing children' acc with
  | nil =>
    obtain rfl := h.perm.nil_eq
    exact hfold
  | cons x children ih =>
    obtain ⟨change, hx⟩ := exists_foldlM_step_eq_ok_iff.mp ⟨result, hfold⟩ x (by simp)
    obtain ⟨name, hname, -⟩ := exists_of_read hx
    obtain ⟨before, after, rfl, hbefore, hrest⟩ := h.exists_of_cons hname
    refine foldlM_move hd hbefore ?_
    rw [List.foldlM_cons, step, hx] at hfold ⊢
    exact ih hrest hfold

end Child

/-! ### Revisions -/

namespace Decoder

variable {x x' : Child settings.checkEndNames}

/-- A child can be replaced by one that decodes to the same value. -/
theorem decode_replaced {context : String} {child : String → Decoder (σ → σ)} {zero a : σ}
    {layout layout' : Layout settings.checkEndNames} {name : String}
    (h : layout.Replaced layout' name x x')
    (hx : ∀ change, (child name).decode settings x.bytes = .ok change →
      (child name).decode settings x'.bytes = .ok change)
    (ha : (children context child zero).decode settings layout.child.bytes = .ok a) :
    (children context child zero).decode settings layout'.child.bytes = .ok a := by
  obtain ⟨before, after, helements, helements'⟩ := h.exists_elements
  rw [Layout.bytes_child, decode_children, helements] at ha
  rw [Layout.bytes_child, decode_children, helements']
  refine Child.foldlM_replace (fun change hchange => ?_) ha
  rw [Child.read, h.localName_eq] at hchange
  rw [Child.read, h.localName_eq']
  exact hx change hchange

/-- A revised element decodes to the same value. -/
theorem Revises.decode_eq {d : Decoder α} (h : d.Revises x x') (hd : d.OrderFree) {a : α}
    (ha : d.decode settings x.bytes = .ok a) : d.decode settings x'.bytes = .ok a := by
  induction h with
  | insert hname hfields helements helements' =>
    rw [record, Layout.bytes_child, decode_children, helements] at ha
    rw [record, Layout.bytes_child, decode_children, helements',
      Child.foldlM_insert (Child.read_of_not_mem hname hfields), ha]
  | reorder h =>
    rw [Layout.bytes_child, decode_children] at ha ⊢
    exact h.foldlM_eq hd.2 ha
  | inside h _ ih => exact decode_replaced h (fun change hchange => ih (hd.1 _) hchange) ha
  | @refine _ _ f d x x' _ ih =>
    rw [decode_refine] at ha ⊢
    cases hx : d.decode settings x.bytes with
    | error e => simp [hx, bind, Except.bind] at ha
    | ok b => rwa [ih hd hx, ← hx]
  | trans _ _ ih ih' => exact ih' hd (ih hd ha)

/-! ### Documents -/

/-- A document decodes as its root element does. -/
theorem decode_append (d : Decoder α) (prolog : Prolog settings.checkEndNames) (epilog : Bytes) :
    d.decode settings (prolog.bytes ++ (x.bytes ++ epilog)) = d.decode settings x.bytes := by
  have hbefore : ∀ e ∈ prolog.events, ∀ name, e ≠ .start name := by
    rintro e he name rfl
    exact prolog.not_isTag _ he trivial
  rw [x.decode_bytes]
  exact decode_of_tape hbefore x.closes (prolog.tape_append x epilog)

/-- A document that decodes consists of a prolog, a root element and what stands behind it. -/
theorem exists_append_of_decode_eq_ok {d : Decoder α} {document : Bytes} {a : α}
    (h : d.decode settings document = .ok a) :
    ∃ (prolog : Prolog settings.checkEndNames) (root : Child settings.checkEndNames)
      (epilog : Bytes), document = prolog.bytes ++ (root.bytes ++ epilog) := by
  obtain ⟨before, name, content, tape, hbefore, hcontent, htape⟩ := exists_of_decode_eq_ok h
  exact Prolog.exists_append hbefore hcontent htape

end Decoder

/-! ### Tables -/

namespace Field

variable {d : Decoder α} {d' : Decoder β} {field field' : Field ρ} {modify : (ρ → ρ) → τ → τ}

/-- What two lines change can be changed in any order. -/
def Apart (field field' : Field ρ) : Prop := field.change.Apart field'.change

instance : Std.Symm (@Apart ρ) := ⟨fun _ _ h => Decoder.Apart.symm h⟩

/-- What the line changes of a whole and what `modify` changes of it can be changed in any
order. -/
def Outside (modify : (ρ → ρ) → τ → τ) (field : Field τ) : Prop :=
  ∀ c, field.change.Yields c → ∀ c' t, c (modify c' t) = modify c' (c t)

/-- The lines can be read in any order, at every level. -/
structure Independent (fields : List (Field ρ)) : Prop where
  orderFree : ∀ field ∈ fields, field.change.OrderFree
  pairwise : fields.Pairwise Apart

@[simp] theorem orderFree_change_store (name : String) (d : Decoder α) (set : α → ρ → ρ) :
    (store name d set).change.OrderFree ↔ d.OrderFree := Iff.rfl

theorem apart_store {set : α → ρ → ρ} {set' : β → ρ → ρ}
    (h : ∀ a b r, set a (set' b r) = set' b (set a r)) (name name' : String) :
    (store name d set).Apart (store name' d' set') := Decoder.apart_map h

theorem outside_store {set : α → τ → τ} (h : ∀ a c t, set a (modify c t) = modify c (set a t))
    (name : String) : (store name d set).Outside modify := by
  intro c hc c' t
  obtain ⟨a, -, rfl⟩ := Decoder.exists_of_yields_map hc
  exact h a c' t

/-- Lines for a whole and lines for a part of it. -/
theorem Independent.append_lift {own : List (Field τ)} {fields : List (Field ρ)}
    (hown : Independent own) (hfields : Independent fields)
    (hcomp : ∀ c c' t, modify c (modify c' t) = modify (c ∘ c') t)
    (houtside : ∀ field ∈ own, field.Outside modify) :
    Independent (own ++ fields.map (lift modify)) where
  orderFree := by
    simp only [List.forall_mem_append, List.forall_mem_map]
    exact ⟨hown.orderFree, hfields.orderFree⟩
  pairwise := by
    refine List.pairwise_append.mpr ⟨hown.pairwise, List.pairwise_map.mpr ?_, ?_⟩
    · refine hfields.pairwise.imp fun {field field'} h c c' hc hc' t => ?_
      obtain ⟨c₀, hc₀, rfl⟩ := Decoder.exists_of_yields_map hc
      obtain ⟨c₀', hc₀', rfl⟩ := Decoder.exists_of_yields_map hc'
      have hcomm : c₀ ∘ c₀' = c₀' ∘ c₀ := funext fun r => h c₀ c₀' hc₀ hc₀' r
      rw [hcomp, hcomp, hcomm]
    · intro field hfield field' hfield' c c' hc hc' t
      obtain ⟨part, -, rfl⟩ := List.mem_map.mp hfield'
      obtain ⟨c₀, -, rfl⟩ := Decoder.exists_of_yields_map hc'
      exact houtside field hfield c hc c₀ t

end Field

namespace Decoder

variable {fields : List (Field ρ)}

/-- A record is read in any order if its lines can be. -/
theorem orderFree_record (h : Field.Independent fields) (context : String) (zero : ρ) :
    (record context fields zero).OrderFree := by
  constructor
  · intro name
    show ((Field.find? fields name).getD ignore).OrderFree
    cases hfind : Field.find? fields name with
    | none => exact trivial
    | some d =>
      obtain ⟨field, hfield, -, rfl⟩ := Field.exists_of_find? hfind
      exact h.orderFree field hfield
  · intro name name' hne
    show ((Field.find? fields name).getD ignore).Apart ((Field.find? fields name').getD ignore)
    cases hfind : Field.find? fields name with
    | none => exact apart_ignore _
    | some d =>
      cases hfind' : Field.find? fields name' with
      | none => exact (apart_ignore _).symm
      | some d' =>
        obtain ⟨field, hfield, rfl, rfl⟩ := Field.exists_of_find? hfind
        obtain ⟨field', hfield', rfl, rfl⟩ := Field.exists_of_find? hfind'
        exact h.pairwise.forall hfield hfield' fun heq => hne (congrArg Field.name heq)

/-- A list of equally named children. -/
theorem orderFree_items {d : Decoder α} (hd : d.OrderFree) (item : String) :
    (items item d).OrderFree :=
  orderFree_record ⟨by simpa using hd, List.pairwise_singleton _ _⟩ "list" []

end Decoder

/-! ### Simple values and dictionaries -/

namespace Decoder

@[simp] theorem orderFree_text : text.OrderFree := trivial

@[simp] theorem orderFree_boolean : boolean.OrderFree := trivial

@[simp] theorem orderFree_int64 : int64.OrderFree := trivial

@[simp] theorem orderFree_int32 : int32.OrderFree := trivial

@[simp] theorem orderFree_timestamp : timestamp.OrderFree := trivial

@[simp] theorem orderFree_tags : tags.OrderFree := trivial

end Decoder

/-- Keys that differ can be bound in any order. -/
theorem Dictionary.insert_comm {key key' : String} (hne : key ≠ key') (value value' : String)
    (d : Dictionary) :
    (d.insert key' value').insert key value = (d.insert key value).insert key' value' := by
  refine ext_find? fun k => ?_
  simp only [find?_insert]
  by_cases hk : k = key
  · rw [if_pos hk, if_neg (fun h => hne (hk.symm.trans h)), if_pos hk]
  · rw [if_neg hk, if_neg hk]

@[simp] theorem Decoder.orderFree_metadata : metadata.OrderFree :=
  ⟨fun _ => trivial, fun _ _ hne => apart_map fun value value' d => d.insert_comm hne value value'⟩

end BucketWire

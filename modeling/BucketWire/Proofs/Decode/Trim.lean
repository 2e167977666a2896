import BucketWire.Decode.Field
import BucketWire.Decode.Scalar
import BucketWire.Proofs.Decode.Extent
import BucketWire.Proofs.Text.Blank

/-!
# Decoding with trimmed texts

Every text can be trimmed while a document is decoded, or all of them afterwards. Two runs of a
decoder, one with and one without trimming, go through the same events and fail in the same way, and
what they read differs in its texts alone. Values that are made of texts do not differ, because they
are trimmed by themselves.

## Main definitions

* `Decoder.Trims` — what a decoder reads with trimming, given what it reads without
* `Decoder.TrimsTo` — the same by a function
* `Field.Trims` — a line of a table changes the trimmed record as it changes the record
* `Dictionary.trimmed` — a dictionary with trimmed values

## Main results

* `Decoder.trims_children`, `Decoder.trimsTo_record` — a record is trimmed if its fields are
* `Decoder.TrimsTo.decode_eq` — trimming while decoding is trimming afterwards
-/

namespace BucketWire

/-! ### Values of trimmed texts -/

namespace Scalar

theorem boolean_trim (s : String) : boolean (Text.trim s) = boolean s := by
  simp only [boolean, Text.trim_trim]

theorem int64_trim (s : String) : int64 (Text.trim s) = int64 s := by
  simp only [int64, integer, Text.trim_trim]

theorem int32_trim (s : String) : int32 (Text.trim s) = int32 s := by
  simp only [int32, integer, Text.trim_trim]

theorem timestamp_trim (s : String) : timestamp (Text.trim s) = timestamp s := by
  simp only [timestamp, Text.trim_trim]

theorem tags_trim (s : String) : tags (Text.trim s) = tags s := by
  simp only [tags, Text.trim_trim]

end Scalar

variable {α β ρ σ τ : Type}

namespace Decoder

/-! ### Two runs of a decoder -/

/-- Two outcomes of reading are alike: the same error, or values that are related and the same
events left over. -/
inductive Alike (R : α → α → Prop) :
    Except DecodeError (α × Tape) → Except DecodeError (α × Tape) → Prop where
  | error (e : DecodeError) : Alike R (.error e) (.error e)
  | ok {a a' : α} (h : R a a') (tape : Tape) : Alike R (.ok (a, tape)) (.ok (a', tape))

/-- What `d` reads without trimming and what it reads with trimming are alike. -/
def Trims (R : α → α → Prop) (d : Decoder α) : Prop :=
  ∀ tape, Alike R (d.run false tape) (d.run true tape)

/-- What `d` reads with trimming is what it reads without, changed by `f`. -/
def TrimsTo (f : α → α) (d : Decoder α) : Prop := d.Trims fun a a' => a' = f a

theorem Alike.exists_eq {R : α → α → Prop} {outcome outcome' : Except DecodeError (α × Tape)}
    (h : Alike R outcome outcome') : (∃ e, outcome = .error e ∧ outcome' = .error e) ∨
      ∃ a a' tape, R a a' ∧ outcome = .ok (a, tape) ∧ outcome' = .ok (a', tape) := by
  cases h with
  | error e => exact .inl ⟨e, rfl, rfl⟩
  | ok h tape => exact .inr ⟨_, _, tape, h, rfl, rfl⟩

theorem trimsTo_text : text.TrimsTo Text.trim := by
  intro tape
  show Alike _ ((Reader.readText "" 0 tape).map _) ((Reader.readText "" 0 tape).map _)
  cases Reader.readText "" 0 tape with
  | error e => exact .error e
  | ok p =>
    simp only [Except.map, Bool.false_eq_true, if_false, if_true]
    refine .ok ?_ p.2
    rfl

theorem trims_skip {R : Unit → Unit → Prop} (h : R () ()) : skip.Trims R := by
  intro tape
  show Alike _ ((Reader.skipElement 0 tape).map _) ((Reader.skipElement 0 tape).map _)
  cases Reader.skipElement 0 tape with
  | error e => exact .error e
  | ok rest => exact .ok h rest

theorem trims_unrecognized (R : α → α → Prop) (name : String) :
    (unrecognized name : Decoder α).Trims R := fun _ => .error _

/-- Values that are made in the same way are alike. -/
theorem Trims.refine {R : α → α → Prop} {S : β → β → Prop} {f : α → Except ValueFault β}
    {d : Decoder α} (hd : d.Trims R)
    (hf : ∀ a a', R a a' → (∃ fault, f a = .error fault ∧ f a' = .error fault) ∨
      ∃ b b', f a = .ok b ∧ f a' = .ok b' ∧ S b b') : (d.refine f).Trims S := by
  intro tape
  rw [run_refine, run_refine]
  obtain ⟨e, he, he'⟩ | ⟨a, a', rest, h, ha, ha'⟩ := (hd tape).exists_eq
  · rw [he, he']
    exact .error e
  · rw [ha, ha']
    obtain ⟨fault, hfault, hfault'⟩ | ⟨b, b', hb, hb', hS⟩ := hf a a' h
    · simp only [hfault, hfault']
      exact .error _
    · simp only [hb, hb']
      exact .ok hS rest

theorem Trims.map {R : α → α → Prop} {S : β → β → Prop} {f : α → β} {d : Decoder α}
    (hd : d.Trims R) (hf : ∀ a a', R a a' → S (f a) (f a')) : (d.map f).Trims S :=
  hd.refine fun a a' h => .inr ⟨f a, f a', rfl, rfl, hf a a' h⟩

/-- A value that is made of a text in the same way as of the trimmed text is not changed. -/
theorem trimsTo_refine_text {f : String → Except ValueFault α}
    (hf : ∀ s, f (Text.trim s) = f s) : (text.refine f).TrimsTo id := by
  refine trimsTo_text.refine fun s s' hs => ?_
  rw [hs, hf]
  cases f s with
  | error fault => exact .inl ⟨fault, rfl, rfl⟩
  | ok a => exact .inr ⟨a, a, rfl, rfl, rfl⟩

/-- Records are alike if every child changes them alike. -/
theorem trims_children {S : σ → σ → Prop} {context : String} {child : String → Decoder (σ → σ)}
    {zero : σ} (hchild : ∀ name, (child name).Trims fun c c' => ∀ a a', S a a' → S (c a) (c' a'))
    (hzero : S zero zero) : (children context child zero).Trims S := by
  intro tape
  show Alike S (Reader.foldChildren context (fun name => (child name).reader) false zero tape)
    (Reader.foldChildren context (fun name => (child name).reader) true zero tape)
  generalize hn : tape.size = n
  suffices ∀ a a', S a a' →
      Alike S (Reader.foldChildren context (fun name => (child name).reader) false a tape)
        (Reader.foldChildren context (fun name => (child name).reader) true a' tape) from
    this zero zero hzero
  induction n using Nat.strongRecOn generalizing tape with
  | _ n ih =>
    intro a a' ha
    subst hn
    cases tape with
    | finished =>
      rw [Reader.foldChildren, Reader.foldChildren]
      exact .error _
    | broken fault =>
      rw [Reader.foldChildren, Reader.foldChildren]
      exact .error _
    | event e tape =>
      by_cases he : e.IsTag
      · cases e with
        | close name =>
          rw [Reader.foldChildren_close, Reader.foldChildren_close]
          exact .ok ha tape
        | start name =>
          rw [Reader.foldChildren_start, Reader.foldChildren_start, Reader.ofChild]
          cases Utf8.decode (Reader.localName name) with
          | error fault => exact .error _
          | ok localName =>
            simp only
            obtain ⟨e, he, he'⟩ | ⟨c, c', rest, hc, hrun, hrun'⟩ :=
              (hchild localName tape).exists_eq
            · rw [run] at he he'
              rw [he, he']
              exact .error e
            · rw [run] at hrun hrun'
              rw [hrun, hrun']
              have hlt := (child localName).reader.size_lt hrun
              exact ih _ (Nat.lt_succ_of_lt hlt) rest rfl _ _ (hc a a' ha)
        | _ => exact absurd he id
      · rw [Reader.foldChildren_of_not_isTag he, Reader.foldChildren_of_not_isTag he]
        exact ih _ (Nat.lt_succ_self _) tape rfl a a' ha

/-! ### Simple values -/

theorem trimsTo_boolean : boolean.TrimsTo id := trimsTo_refine_text Scalar.boolean_trim

theorem trimsTo_int64 : int64.TrimsTo id := trimsTo_refine_text Scalar.int64_trim

theorem trimsTo_int32 : int32.TrimsTo id := trimsTo_refine_text Scalar.int32_trim

theorem trimsTo_timestamp : timestamp.TrimsTo id := trimsTo_refine_text Scalar.timestamp_trim

theorem trimsTo_tags : tags.TrimsTo id :=
  trimsTo_refine_text fun s => congrArg Except.ok (Scalar.tags_trim s)

end Decoder

/-! ### Records -/

namespace Field

/-- The line changes a record with trimmed texts as it changes the record; `trimmed` trims the
texts of a record. -/
def Trims (trimmed : ρ → ρ) (field : Field ρ) : Prop :=
  field.change.Trims fun c c' => ∀ r, c' (trimmed r) = trimmed (c r)

variable {trimmed : ρ → ρ}

theorem Trims.store {name : String} {d : Decoder α} {set : α → ρ → ρ} {f : α → α}
    (hd : d.TrimsTo f) (hset : ∀ a r, set (f a) (trimmed r) = trimmed (set a r)) :
    (Field.store name d set).Trims trimmed := by
  refine hd.map fun a a' ha r => ?_
  rw [ha]
  exact hset a r

/-- A line for a part of a record; `modify` changes the part within the record. -/
theorem Trims.lift {field : Field ρ} {modify : (ρ → ρ) → τ → τ} {trimmed' : τ → τ}
    (h : field.Trims trimmed)
    (hmodify : ∀ c c' : ρ → ρ, (∀ r, c' (trimmed r) = trimmed (c r)) →
      ∀ t, modify c' (trimmed' t) = trimmed' (modify c t)) :
    (field.lift modify).Trims trimmed' :=
  Decoder.Trims.map h fun c c' hc => hmodify c c' hc

theorem trims_find? {fields : List (Field ρ)} (h : ∀ field ∈ fields, field.Trims trimmed)
    {name : String} {d : Decoder (ρ → ρ)} (hfind : find? fields name = some d) :
    d.Trims fun c c' => ∀ r, c' (trimmed r) = trimmed (c r) := by
  obtain ⟨field, hfield, rfl⟩ := Option.map_eq_some_iff.mp hfind
  exact h field (List.mem_of_find?_eq_some hfield)

end Field

namespace Decoder

variable {trimmed : ρ → ρ} {fields : List (Field ρ)} {zero : ρ}

theorem trims_change {d : Decoder (ρ → ρ)}
    (h : d.Trims fun c c' => ∀ r, c' (trimmed r) = trimmed (c r)) :
    d.Trims fun c c' => ∀ r r', r' = trimmed r → c' r' = trimmed (c r) := by
  intro tape
  obtain ⟨e, he, he'⟩ | ⟨c, c', rest, hc, hrun, hrun'⟩ := (h tape).exists_eq
  · rw [he, he']
    exact .error e
  · rw [hrun, hrun']
    exact .ok (fun r r' hr => by rw [hr, hc]) rest

/-- A record is trimmed if its fields are. -/
theorem trimsTo_record (h : ∀ field ∈ fields, field.Trims trimmed) (hzero : trimmed zero = zero)
    (context : String) : (record context fields zero).TrimsTo trimmed := by
  refine trims_children (fun name => ?_) hzero.symm
  cases hfind : Field.find? fields name with
  | none => exact (trims_skip trivial).map (R := fun _ _ => True) fun _ _ _ r r' hr => hr
  | some d => exact trims_change (Field.trims_find? h hfind)

/-- A record that has no children but its fields is trimmed if they are. -/
theorem trimsTo_strictRecord (h : ∀ field ∈ fields, field.Trims trimmed)
    (hzero : trimmed zero = zero) (context : String) :
    (strictRecord context fields zero).TrimsTo trimmed := by
  refine trims_children (fun name => ?_) hzero.symm
  cases hfind : Field.find? fields name with
  | none => exact trims_unrecognized _ name
  | some d => exact trims_change (Field.trims_find? h hfind)

/-- A list is trimmed if its items are. -/
theorem trimsTo_items {f : α → α} {d : Decoder α} (hd : d.TrimsTo f) (item : String) :
    (items item d).TrimsTo (List.map f) := by
  refine trimsTo_record (fun field hfield => ?_) rfl "list"
  rw [List.mem_singleton.mp hfield]
  exact .store hd fun a items => by rw [List.map_append, List.map_singleton]

/-- Trimming while decoding is trimming afterwards. -/
theorem TrimsTo.decode_eq {f : α → α} {d : Decoder α} (hd : d.TrimsTo f) (settings : Settings)
    (document : Bytes) :
    d.decode { settings with trimText := true } document =
      (d.decode { settings with trimText := false } document).map f := by
  rw [decode, decode]
  cases enterRoot (Tape.ofDocument settings.checkEndNames document) with
  | error e => rfl
  | ok tape =>
    show (d.run true tape >>= _) = (d.run false tape >>= _).map f
    obtain ⟨e, he, he'⟩ | ⟨a, a', rest, h, hrun, hrun'⟩ := (hd tape).exists_eq
    · rw [he, he']
      rfl
    · rw [hrun, hrun', h]
      rfl

end Decoder

/-! ### Dictionaries -/

namespace Dictionary

/-- A dictionary with trimmed values; its keys are not trimmed. -/
def trimmed (d : Dictionary) : Dictionary where
  entries := d.entries.map fun e => (e.1, Text.trim e.2)
  ascending := List.pairwise_map.mpr d.ascending

theorem map_insertEntry (f : String → String) (key value : String) (es : List (String × String)) :
    (insertEntry key value es).map (fun e => (e.1, f e.2)) =
      insertEntry key (f value) (es.map fun e => (e.1, f e.2)) := by
  induction es with
  | nil => rfl
  | cons e es ih =>
    obtain ⟨k, v⟩ := e
    rw [insertEntry, List.map_cons, insertEntry]
    split
    · rfl
    · split
      · rfl
      · rw [List.map_cons, ih]

theorem insert_trimmed (d : Dictionary) (key value : String) :
    d.trimmed.insert key (Text.trim value) = (d.insert key value).trimmed := by
  simp only [trimmed, insert, map_insertEntry]

end Dictionary

theorem Decoder.trimsTo_metadata : metadata.TrimsTo Dictionary.trimmed := by
  refine trims_children (fun name => ?_) rfl
  refine trimsTo_text.map fun value value' hvalue d d' hd => ?_
  rw [hvalue, hd]
  exact d.insert_trimmed name value

end BucketWire

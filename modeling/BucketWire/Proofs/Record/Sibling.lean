import BucketWire.Proofs.Decode.Sibling
import BucketWire.Proofs.Record.Classification

/-!
# One document as different records

The two listings of objects share a page, and a listed object and a version share an entry; owners
and initiators have all in common. A document that is decoded as either of two such records gives
the same common part.

## Main results

* `ObjectPage.extends_markerListing`, `ObjectPage.extends_tokenListing`,
  `ObjectEntry.extends_listedObject`, `ObjectEntry.extends_objectVersion` — the common parts
* `Decoder.decode_siblings` — what related records make of one document
-/

namespace BucketWire

open BucketWire.Field (Extends keeps_store)

variable {settings : Settings} {document : Bytes}

/-! ### Common parts -/

theorem ObjectPage.extends_markerListing :
    Extends MarkerListing.fields (MarkerListing.fields.take 2) ObjectPage.fields
      MarkerListing.toObjectPage
      fun change listing => { listing with toObjectPage := change listing.toObjectPage } where
  eq_append := rfl
  get_modify _ _ := rfl
  keeps := by simp [MarkerListing.fields, keeps_store]
  not_mem := by decide

theorem ObjectPage.extends_tokenListing :
    Extends TokenListing.fields (TokenListing.fields.take 5) ObjectPage.fields
      TokenListing.toObjectPage
      fun change listing => { listing with toObjectPage := change listing.toObjectPage } where
  eq_append := rfl
  get_modify _ _ := rfl
  keeps := by simp [TokenListing.fields, keeps_store]
  not_mem := by decide

theorem ObjectEntry.extends_listedObject :
    Extends ListedObject.fields (ListedObject.fields.take 1) ObjectEntry.fields
      ListedObject.toObjectEntry
      fun change object => { object with toObjectEntry := change object.toObjectEntry } where
  eq_append := rfl
  get_modify _ _ := rfl
  keeps := by simp [ListedObject.fields, keeps_store]
  not_mem := by decide

theorem ObjectEntry.extends_objectVersion :
    Extends ObjectVersion.fields [] ObjectEntry.fields ObjectVersion.toObjectEntry
      fun change version => { version with toObjectEntry := change version.toObjectEntry } where
  eq_append := rfl
  get_modify _ _ := rfl
  keeps := by simp
  not_mem := by simp

/-! ### Documents -/

namespace Decoder

/-- Of a complete element only a name or a value can be wrong, if every element is taken. -/
theorem Lenient.exists_eq_invalidValue {α : Type} {d : Decoder α} (hd : d.Lenient)
    {child : Child settings.checkEndNames} {e : DecodeError}
    (h : d.decode settings child.bytes = .error e) : ∃ fault, e = .invalidValue fault := by
  rw [child.decode_bytes] at h
  have hcontent := isOfContent_of_outcome child.closes h
  cases e with
  | invalidValue fault => exact ⟨fault, rfl⟩
  | unrecognized name =>
    have hrun := d.run_prepend settings.trimText child.closes .finished
    rw [h] at hrun
    exact absurd hrun (hd.run_ne_unrecognized name)
  | malformed fault => exact hcontent.elim
  | unexpectedEnd context => exact hcontent.elim
  | noRoot => exact hcontent.elim

/-- The shared page of a listing does not depend on which of the two listings is read. -/
theorem toObjectPage_eq {m : MarkerListing} {t : TokenListing}
    (hm : markerListing.decode settings document = .ok m)
    (ht : tokenListing.decode settings document = .ok t) : m.toObjectPage = t.toObjectPage := by
  have hpage := ObjectPage.extends_markerListing.get_of_decode "" hm
  have hpage' := ObjectPage.extends_tokenListing.get_of_decode "" ht
  exact Except.ok.inj (hpage.symm.trans hpage')

/-- An entry of a history that is decoded by itself is no delete marker. -/
theorem isDeleteMarker_eq_false {v : ObjectVersion}
    (hv : objectVersion.decode settings document = .ok v) : v.isDeleteMarker = false := by
  refine get_eq_of_keeps ObjectVersion.isDeleteMarker ?_ hv
  intro field hfield
  obtain ⟨field, -, rfl⟩ := List.mem_map.mp hfield
  refine Field.keeps_lift (fun change version => ?_) field
  rfl

/-- A listed object is decoded as a version as well, one that is no delete marker. -/
theorem decode_objectVersion_of_listedObject {o : ListedObject}
    (ho : listedObject.decode settings document = .ok o) :
    objectVersion.decode settings document =
      .ok { toObjectEntry := o.toObjectEntry, isDeleteMarker := false } := by
  have hentry := ObjectEntry.extends_listedObject.get_of_decode "" ho
  obtain ⟨v, hv, hget⟩ | ⟨e, -, elements, -, child, -, field, hfield, -⟩ :=
    ObjectEntry.extends_objectVersion.decode_of_part "Version" {} hentry
  · rw [← hget, ← isDeleteMarker_eq_false hv]
    exact hv
  · cases hfield

/-- A version is decoded as a listed object as well, unless a tag count cannot be read. -/
theorem decode_listedObject_of_objectVersion {v : ObjectVersion}
    (hv : objectVersion.decode settings document = .ok v) :
    (∃ o, listedObject.decode settings document = .ok o ∧ o.toObjectEntry = v.toObjectEntry) ∨
    ∃ fault, listedObject.decode settings document = .error (.invalidValue fault) ∧
      ∃ elements : List (Child settings.checkEndNames), Child.RootHas document elements ∧
        ∃ child ∈ elements, child.localName = .ok "UserTagCount" ∧
          int64.decode settings child.bytes = .error (.invalidValue fault) := by
  have hentry := ObjectEntry.extends_objectVersion.get_of_decode "" hv
  obtain hok | ⟨e, herror, elements, helements, child, hchild, field, hfield, hname, hread⟩ :=
    ObjectEntry.extends_listedObject.decode_of_part "Contents" {} hentry
  · exact .inl hok
  · obtain rfl := List.mem_singleton.mp hfield
    have hcount : int64.decode settings child.bytes = .error e := by
      have hread := (decode_map _ int64 child.bytes).symm.trans hread
      cases hcount : int64.decode settings child.bytes with
      | error e' =>
        rw [hcount] at hread
        cases hread
        rfl
      | ok count =>
        rw [hcount] at hread
        cases hread
    obtain ⟨fault, rfl⟩ := lenient_int64.exists_eq_invalidValue hcount
    exact .inr ⟨fault, herror, elements, helements, child, hchild, hname, hcount⟩

/-- What related records make of one document: the two listings have the same page; a listed object
is a version with the same entry, and a version is a listed object with the same entry unless a tag
count cannot be read; owners are initiators. -/
theorem decode_siblings (settings : Settings) (document : Bytes) :
    (∀ m t, markerListing.decode settings document = .ok m →
      tokenListing.decode settings document = .ok t → m.toObjectPage = t.toObjectPage) ∧
    (∀ o, listedObject.decode settings document = .ok o →
      objectVersion.decode settings document =
        .ok { toObjectEntry := o.toObjectEntry, isDeleteMarker := false }) ∧
    (∀ v, objectVersion.decode settings document = .ok v →
      (∃ o, listedObject.decode settings document = .ok o ∧ o.toObjectEntry = v.toObjectEntry) ∨
      ∃ fault, listedObject.decode settings document = .error (.invalidValue fault) ∧
        ∃ elements : List (Child settings.checkEndNames), Child.RootHas document elements ∧
          ∃ child ∈ elements, child.localName = .ok "UserTagCount" ∧
            int64.decode settings child.bytes = .error (.invalidValue fault)) ∧
    ∀ p, owner.decode settings document = .ok p ↔ initiator.decode settings document = .ok p := by
  refine ⟨fun m t => toObjectPage_eq, fun o => decode_objectVersion_of_listedObject,
    fun v => decode_listedObject_of_objectVersion, fun p => ⟨?_, ?_⟩⟩
  · exact fun h => decode_record_context h
  · exact fun h => decode_record_context h

/-- A tag count is skipped in a version, whatever it is, and has to be a number in an object. -/
example :
    let document := Utf8.encode "<Version><UserTagCount>x</UserTagCount></Version>"
    (objectVersion.decode {} document).toOption = some {} ∧
      (listedObject.decode {} document).toOption = none := by
  decide +kernel

end Decoder

end BucketWire

import BucketWire.Decode.Deletion
import BucketWire.Proofs.Decode.Tree
import BucketWire.Proofs.Request.Completion

/-!
# The shape of requests

A request to delete objects holds one element that says whether to be quiet, and one element for
each object, with one key and at most one version in it. A request to make a bucket holds one
element with the location. This is so whatever the keys, the versions and the location are: no text
opens, closes or adds an element, and different requests are never written in the same way.

## Main definitions

* `DeletionTarget.IsAskedBy` — an element asks for the deletion of an object
* `DeletionRequest.fields`, `BucketCreation.fields` — requests as records, to read them back

## Main results

* `DeletionRequest.decode_encode`, `BucketCreation.decode_encode` — requests are read back
* `Request.encode_shape` — the elements of requests
-/

namespace BucketWire

open Decoder (text ofElement_record ofElement_text fill_eq_some foldlM_cons_of_eq_some)
open Element (Shows)
open Markup (IsName isName_ofList)

/-! ### Names -/

theorem DeletionTarget.named (target : DeletionTarget) :
    (Element.node "Object" (Body.elements target)).Named :=
  ⟨isName_ofList (by decide), (isName_ofList (by decide) : IsName "Key"),
    Element.allNamed_optional (isName_ofList (by decide)) target.versionId⟩

theorem DeletionRequest.named (request : DeletionRequest) :
    (Element.node "Delete" (Body.elements request)).Named :=
  ⟨isName_ofList (by decide), (isName_ofList (by decide) : IsName "Quiet"),
    (Element.allNamed_map _ _).mpr fun target _ => target.named⟩

theorem BucketCreation.named (creation : BucketCreation) :
    (Element.node "CreateBucketConfiguration" (Body.elements creation)).Named :=
  ⟨isName_ofList (by decide), (isName_ofList (by decide) : IsName "LocationConstraint"), trivial⟩

/-! ### Objects to be deleted -/

/-- What is read of an object to be deleted, as if it had been deleted. -/
theorem DeletionTarget.ofElement_deletion (target : DeletionTarget) :
    Decoder.deletion.ofElement (.node "Object" (Body.elements target)) =
      some { key := target.key, versionId := target.versionId } := by
  have hkey : Decoder.fill Deletion.fields {} (.leaf "Key" target.key) =
      some { key := target.key } := rfl
  rw [Decoder.deletion, ofElement_record]
  show (Element.leaf _ _ :: Element.optional _ _).foldlM (Decoder.fill Deletion.fields) {} = _
  rw [foldlM_cons_of_eq_some hkey]
  refine Element.foldlM_optional rfl fun hempty => ?_
  rw [hempty]

/-- The element asks for the deletion of `target`: it holds one key, then one version if there is
one, and nothing else, and what it says alone is the key and the version. -/
structure DeletionTarget.IsAskedBy (target : DeletionTarget) (child : Child true) : Prop where
  shows : Shows (.node "Object" (.leaf "Key" target.key ::
    if target.versionId = "" then [] else [.leaf "VersionId" target.versionId])) child
  decode_deletion : Decoder.deletion.decode {} child.bytes =
    .ok { key := target.key, versionId := target.versionId }

theorem DeletionTarget.isAskedBy {indent depth : Nat} {target : DeletionTarget} {child : Child true}
    (h : Element.PrintedAs indent depth (.node "Object" (Body.elements target)) child) :
    target.IsAskedBy child := by
  obtain ⟨hbytes, hshows⟩ := h
  constructor
  · have helements : Body.elements target = .leaf "Key" target.key ::
        if target.versionId = "" then [] else [.leaf "VersionId" target.versionId] := by
      show Element.leaf _ _ :: Element.optional _ _ = _
      simp only [Element.optional, String.isEmpty_iff]
    rwa [← helements]
  · rw [hbytes]
    exact Decoder.deletion.decode_printed indent rfl target.named target.ofElement_deletion depth

/-! ### Requests read back -/

/-- The fields of an object to be deleted. -/
def DeletionTarget.fields : List (Field DeletionTarget) :=
  [.store "Key" text fun key target => { target with key },
    .store "VersionId" text fun versionId target => { target with versionId }]

/-- The fields of a request to delete objects. -/
def DeletionRequest.fields : List (Field DeletionRequest) :=
  [.store "Quiet" Decoder.boolean fun quiet request => { request with quiet },
    .store "Object" (Decoder.record "Object" DeletionTarget.fields {}) fun target request =>
      { request with objects := request.objects ++ [target] }]

/-- The fields of a request to make a bucket. -/
def BucketCreation.fields : List (Field BucketCreation) :=
  [.store "LocationConstraint" text fun location creation => { creation with location }]

theorem DeletionTarget.foldlM_elements (target : DeletionTarget) :
    (Body.elements target).foldlM (Decoder.fill fields) {} = some target := by
  have hkey : Decoder.fill fields {} (.leaf "Key" target.key) = some { key := target.key } := rfl
  show (Element.leaf _ _ :: Element.optional _ _).foldlM (Decoder.fill fields) {} = _
  rw [foldlM_cons_of_eq_some hkey]
  refine Element.foldlM_optional rfl fun hempty => ?_
  obtain ⟨key, versionId⟩ := target
  subst hempty
  rfl

/-- A request to delete objects is read back. -/
theorem DeletionRequest.decode_encode (request : DeletionRequest) (encoding : Settings) :
    (Decoder.record "Delete" fields {}).decode {} (Utf8.encode (encode encoding request)) =
      .ok request := by
  refine Decoder.decode_encodeAs _ rfl encoding request.named ?_
  have hquiet : Decoder.fill fields {} (.leaf "Quiet" (truthText request.quiet)) =
      some { quiet := request.quiet } :=
    fill_eq_some rfl (Decoder.ofElement_boolean "Quiet" request.quiet) rfl
  have hobjects :
      (request.objects.map fun target => Element.node "Object" (Body.elements target)).foldlM
        (Decoder.fill fields) { quiet := request.quiet } = some request :=
    Decoder.foldlM_list (fun objects => ({ quiet := request.quiet, objects } : DeletionRequest)) rfl
      (fun target _ => target.foldlM_elements) fun target before => rfl
  rw [ofElement_record]
  exact (foldlM_cons_of_eq_some hquiet).trans hobjects

/-- A request to make a bucket is read back. -/
theorem BucketCreation.decode_encode (creation : BucketCreation) (encoding : Settings) :
    (Decoder.record "CreateBucketConfiguration" fields {}).decode {}
      (Utf8.encode (encode encoding creation)) = .ok creation :=
  Decoder.decode_encodeAs _ rfl encoding creation.named rfl

/-! ### The shape of requests -/

namespace Request

/-- However it is laid out, a request to delete objects is one document whose root element holds one
element that says whether to be quiet and then one element for each object, in order; a request to
make a bucket is one whose root element holds the location. Requests that differ are written
differently, however each of them is laid out. -/
theorem encode_shape :
    (∀ (settings : Settings) (request : DeletionRequest),
      ∃ (root : Layout true) (quiet : Child true) (objects : List (Child true)),
        root.IsRootOf (Utf8.encode (encode settings request)) ∧
        root.rootName = Utf8.encode "Delete" ∧
        root.elements = quiet :: objects ∧
        quiet.IsLeaf "Quiet" (if request.quiet then "true" else "false") ∧
        List.Forall₂ DeletionTarget.IsAskedBy request.objects objects) ∧
    (∀ (settings : Settings) (creation : BucketCreation),
      ∃ (root : Layout true) (location : Child true),
        root.IsRootOf (Utf8.encode (encode settings creation)) ∧
        root.rootName = Utf8.encode "CreateBucketConfiguration" ∧
        root.elements = [location] ∧
        location.IsLeaf "LocationConstraint" creation.location) ∧
    (∀ (settings settings' : Settings) (request request' : DeletionRequest),
      request ≠ request' →
        Utf8.encode (encode settings request) ≠ Utf8.encode (encode settings' request')) ∧
    (∀ (settings settings' : Settings) (creation creation' : BucketCreation),
      creation ≠ creation' →
        Utf8.encode (encode settings creation) ≠ Utf8.encode (encode settings' creation')) := by
  refine ⟨fun settings request => ?_, fun settings creation => ?_,
    fun settings settings' request request' hne heq => ?_,
    fun settings settings' creation creation' hne heq => ?_⟩
  · obtain ⟨root, hname, hroot, hshown⟩ := encodeAs_shows settings request request.named
    obtain ⟨quiet, objects, hquiet, hobjects, helements⟩ :=
      List.forall₂_cons_left_iff.mp hshown
    refine ⟨root, quiet, objects, hroot, hname, helements, hquiet.2, ?_⟩
    rw [List.forall₂_map_left_iff] at hobjects
    exact List.Forall₂.imp (fun target child h => DeletionTarget.isAskedBy h) hobjects
  · obtain ⟨root, hname, hroot, hshown⟩ := encodeAs_shows settings creation creation.named
    obtain ⟨location, rest, hlocation, hrest, helements⟩ :=
      List.forall₂_cons_left_iff.mp hshown
    rw [List.forall₂_nil_left_iff.mp hrest] at helements
    exact ⟨root, location, hroot, hname, helements, hlocation.2⟩
  · have hread := request.decode_encode settings
    rw [heq, request'.decode_encode settings'] at hread
    exact hne (Except.ok.inj hread).symm
  · have hread := creation.decode_encode settings
    rw [heq, creation'.decode_encode settings'] at hread
    exact hne (Except.ok.inj hread).symm

/-- A key that spells a version is not written as a key with this version is. -/
theorem encode_shape_spelled_version :
    ({ objects := [{ key := "a</Key><VersionId>]]>" }] } : DeletionRequest) ≠
        { objects := [{ key := "a", versionId := "]]>" }] } ∧
      Utf8.encode (encode { indent := 2 }
          ({ objects := [{ key := "a</Key><VersionId>]]>" }] } : DeletionRequest)) ≠
        Utf8.encode (encode {}
          ({ objects := [{ key := "a", versionId := "]]>" }] } : DeletionRequest)) :=
  ⟨by decide, encode_shape.2.2.1 _ _ _ _ (by decide)⟩

end Request

end BucketWire

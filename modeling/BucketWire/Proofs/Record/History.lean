import BucketWire.Proofs.Decode.History
import BucketWire.Proofs.Decode.Sibling
import Mathlib.Data.List.Induction

/-!
# How a history comes about

A history starts empty. Entries are pushed one by one, or decoded with a document, which replaces
the history or is appended to it. Whatever an entry was before, its flag only says how it got into
the history: pushed as a delete marker, or decoded from an element that is called so.

## Main definitions

* `VersionListing.Step`, `VersionListing.after` — what can happen to a history
* `VersionListing.Origin` — where an entry comes from
* `VersionListing.Recorded` — the origins of the entries since the last replacement
* `VersionListing.Separates` — the entries of either kind

## Main results

* `VersionListing.append_eq` — all entries of another history are appended as they are
* `VersionListing.forall₂_after` — a step keeps to what is recorded of it
* `VersionListing.run_recorded` — the entries after any steps, and their kinds
-/

namespace BucketWire

variable {settings : Settings} {document : Bytes}

namespace VersionListing

variable {listing : VersionListing}

/-! ### Steps -/

/-- What can happen to a history. -/
inductive Step where
  /-- `version` is pushed as a live version. -/
  | version (version : ObjectVersion)
  /-- `marker` is pushed as a delete marker. -/
  | deleteMarker (marker : ObjectVersion)
  /-- The history is replaced by a decoded one. -/
  | replace (settings : Settings) (document : Bytes)
  /-- The entries of a decoded history are pushed, each as what it is. -/
  | append (settings : Settings) (document : Bytes)

/-- The history after a step. A document that does not decode leaves it as it is. -/
def after (listing : VersionListing) : Step → VersionListing
  | .version version => listing.pushVersion version
  | .deleteMarker marker => listing.pushDeleteMarker marker
  | .replace settings document =>
    match Decoder.versionListing.decode settings document with
    | .ok decoded => decoded
    | .error _ => listing
  | .append settings document =>
    match Decoder.versionListing.decode settings document with
    | .ok decoded => listing.append decoded
    | .error _ => listing

/-- The history after some steps. -/
def run (steps : List Step) : VersionListing := steps.foldl after {}

theorem push_eq (listing : VersionListing) (entry : ObjectVersion) :
    listing.push entry = { listing with versions := listing.versions ++ [entry] } := by
  obtain ⟨entry, flag⟩ := entry
  cases flag <;> rfl

/-- All entries are appended as they are, and nothing else changes. -/
theorem append_eq (listing other : VersionListing) :
    listing.append other = { listing with versions := listing.versions ++ other.versions } := by
  rw [append]
  induction other.versions generalizing listing with
  | nil => rw [List.foldl_nil, List.append_nil]
  | cons entry entries ih =>
    rw [List.foldl_cons, ih, push_eq, List.append_assoc, List.singleton_append]

/-! ### Origins -/

/-- Where an entry of a history comes from. -/
inductive Origin where
  /-- `value` was pushed, as a delete marker or as a live version. -/
  | pushed (value : ObjectVersion) (asMarker : Bool)
  /-- The element `child` was decoded. -/
  | decoded (settings : Settings) (child : Child settings.checkEndNames)

namespace Origin

/-- What was pushed or decoded. -/
def Value : Origin → ObjectVersion → Prop
  | pushed value _, version => version = value
  | decoded settings child, version =>
    Decoder.objectVersion.decode settings child.bytes = .ok version

/-- Whether it was pushed as a delete marker, or decoded from an element that is called so. -/
def isMarker : Origin → Bool
  | pushed _ asMarker => asMarker
  | decoded _ child => child.isNamed ["DeleteMarker"]

/-- The entry is what was pushed or decoded, but for the flag, which says how. -/
def Gives (origin : Origin) (entry : ObjectVersion) : Prop :=
  ∃ version, origin.Value version ∧ entry = { version with isDeleteMarker := origin.isMarker }

/-- The origins of the entries of a document: the versions and delete markers in its root. -/
def OfDocument (settings : Settings) (document : Bytes) (origins : List Origin) : Prop :=
  ∃ elements : List (Child settings.checkEndNames), Child.RootHas document elements ∧
    origins = (elements.filter (Child.isNamed ["Version", "DeleteMarker"])).map (decoded settings)

end Origin

/-- What a step does to the origins of the entries. -/
inductive Records : List Origin → Step → List Origin → Prop where
  | version (history : List Origin) (version : ObjectVersion) :
    Records history (.version version) (history ++ [.pushed version false])
  | deleteMarker (history : List Origin) (marker : ObjectVersion) :
    Records history (.deleteMarker marker) (history ++ [.pushed marker true])
  | replace (history : List Origin) {settings : Settings} {document : Bytes}
    {decoded : VersionListing} {origins : List Origin}
    (hdecode : Decoder.versionListing.decode settings document = .ok decoded)
    (horigins : Origin.OfDocument settings document origins) :
    Records history (.replace settings document) origins
  | append (history : List Origin) {settings : Settings} {document : Bytes}
    {decoded : VersionListing} {origins : List Origin}
    (hdecode : Decoder.versionListing.decode settings document = .ok decoded)
    (horigins : Origin.OfDocument settings document origins) :
    Records history (.append settings document) (history ++ origins)
  | keepOnReplace (history : List Origin) {settings : Settings} {document : Bytes}
    {e : DecodeError} (hdecode : Decoder.versionListing.decode settings document = .error e) :
    Records history (.replace settings document) history
  | keepOnAppend (history : List Origin) {settings : Settings} {document : Bytes}
    {e : DecodeError} (hdecode : Decoder.versionListing.decode settings document = .error e) :
    Records history (.append settings document) history

/-- The origins since the last replacement, after some steps from the empty history on. -/
inductive Recorded : List Step → List Origin → Prop where
  | nil : Recorded [] []
  | snoc {steps : List Step} {step : Step} {history history' : List Origin}
    (h : Recorded steps history) (hstep : Records history step history') :
    Recorded (steps ++ [step]) history'

variable {history history' : List Origin} {step : Step} {steps : List Step}

/-- A decoded history has one entry for each version and each delete marker in its root. -/
theorem forall₂_of_decode {origins : List Origin}
    (hdecode : Decoder.versionListing.decode settings document = .ok listing)
    (horigins : Origin.OfDocument settings document origins) :
    List.Forall₂ Origin.Gives origins listing.versions := by
  obtain ⟨elements, helements, rfl⟩ := horigins
  have hfold : elements.foldlM (Child.step childDecoder) {} = .ok listing :=
    (Decoder.decode_of_rootHas helements _ _ _).symm.trans hdecode
  have hentries := (holds_of_foldlM hfold).versions
  rw [List.forall₂_map_left_iff]
  exact hentries

/-- A step keeps to what is recorded of it. -/
theorem forall₂_after (hstep : Records history step history')
    (h : List.Forall₂ Origin.Gives history listing.versions) :
    List.Forall₂ Origin.Gives history' (listing.after step).versions := by
  cases hstep with
  | version version =>
    exact List.rel_append h (.cons ⟨version, rfl, rfl⟩ .nil)
  | deleteMarker marker =>
    exact List.rel_append h (.cons ⟨marker, rfl, rfl⟩ .nil)
  | replace hdecode horigins =>
    simp only [after, hdecode]
    exact forall₂_of_decode hdecode horigins
  | append hdecode horigins =>
    simp only [after, hdecode, append_eq]
    exact List.rel_append h (forall₂_of_decode hdecode horigins)
  | keepOnReplace hdecode | keepOnAppend hdecode =>
    simp only [after, hdecode]
    exact h

/-- Something is recorded of every step. -/
theorem exists_records (history : List Origin) (step : Step) :
    ∃ history', Records history step history' := by
  have horigins : ∀ {settings document decoded},
      Decoder.versionListing.decode settings document = .ok decoded →
      ∃ origins, Origin.OfDocument settings document origins := by
    intro settings document decoded hdecode
    obtain ⟨elements, helements⟩ := Decoder.exists_rootHas hdecode
    exact ⟨_, elements, helements, rfl⟩
  cases step with
  | version version => exact ⟨_, .version history version⟩
  | deleteMarker marker => exact ⟨_, .deleteMarker history marker⟩
  | replace settings document =>
    cases hdecode : Decoder.versionListing.decode settings document with
    | error e => exact ⟨_, .keepOnReplace history hdecode⟩
    | ok decoded =>
      obtain ⟨origins, h⟩ := horigins hdecode
      exact ⟨_, .replace history hdecode h⟩
  | append settings document =>
    cases hdecode : Decoder.versionListing.decode settings document with
    | error e => exact ⟨_, .keepOnAppend history hdecode⟩
    | ok decoded =>
      obtain ⟨origins, h⟩ := horigins hdecode
      exact ⟨_, .append history hdecode h⟩

theorem exists_recorded (steps : List Step) : ∃ history, Recorded steps history := by
  induction steps using List.reverseRecOn with
  | nil => exact ⟨[], .nil⟩
  | append_singleton steps step ih =>
    obtain ⟨history, hhistory⟩ := ih
    obtain ⟨history', hstep⟩ := exists_records history step
    exact ⟨history', hhistory.snoc hstep⟩

/-- After any steps the history has one entry for each of the recorded origins, in order. -/
theorem Recorded.forall₂_run (h : Recorded steps history) :
    List.Forall₂ Origin.Gives history (run steps).versions := by
  induction h with
  | nil => exact .nil
  | snoc _ hstep ih =>
    rw [run, List.foldl_append]
    exact forall₂_after hstep ih

/-! ### Kinds -/

/-- The entries of either kind are all entries, each once and in the same order. -/
structure Separates (markers live entries : List ObjectVersion) : Prop where
  sublist_markers : markers.Sublist entries
  sublist_live : live.Sublist entries
  perm : (markers ++ live).Perm entries
  isDeleteMarker_of_mem_markers : ∀ entry ∈ markers, entry.isDeleteMarker = true
  isDeleteMarker_of_mem_live : ∀ entry ∈ live, entry.isDeleteMarker = false

theorem separates (listing : VersionListing) :
    Separates listing.deleteMarkers listing.liveVersions listing.versions where
  sublist_markers := List.filter_sublist
  sublist_live := List.filter_sublist
  perm := List.filter_append_perm _ _
  isDeleteMarker_of_mem_markers := by simp [deleteMarkers]
  isDeleteMarker_of_mem_live := by simp [liveVersions]

/-- After any steps from the empty history on there is one entry for each origin since the last
replacement, in order, and its flag says how it got into the history. Pushing and appending only add
entries at the end, and the entries of either kind are all entries. -/
theorem run_recorded (steps : List Step) :
    (∃ history, Recorded steps history) ∧
    (∀ history, Recorded steps history →
      List.Forall₂ Origin.Gives history (run steps).versions) ∧
    (∀ version, (run steps).after (.version version) = { run steps with
      versions := (run steps).versions ++ [{ version with isDeleteMarker := false }] }) ∧
    (∀ marker, (run steps).after (.deleteMarker marker) = { run steps with
      versions := (run steps).versions ++ [{ marker with isDeleteMarker := true }] }) ∧
    (∀ settings document decoded,
      Decoder.versionListing.decode settings document = .ok decoded →
        (run steps).after (.replace settings document) = decoded ∧
        (run steps).after (.append settings document) = { run steps with
          versions := (run steps).versions ++ decoded.versions }) ∧
    (∀ settings document e, Decoder.versionListing.decode settings document = .error e →
      (run steps).after (.replace settings document) = run steps ∧
      (run steps).after (.append settings document) = run steps) ∧
    Separates (run steps).deleteMarkers (run steps).liveVersions (run steps).versions := by
  refine ⟨exists_recorded steps, fun history => Recorded.forall₂_run, fun version => rfl,
    fun marker => rfl, ?_, ?_, separates (run steps)⟩
  · intro settings document decoded hdecode
    simp only [after, hdecode, append_eq, and_self]
  · intro settings document e hdecode
    simp only [after, hdecode, and_self]

end VersionListing

end BucketWire

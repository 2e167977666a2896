import BucketWire.Decode.Field
import BucketWire.Decode.Scalar
import BucketWire.Proofs.Decode.Truncation

/-!
# Errors tell how far a document can be read

The events of a document are the same whatever is decoded from it. From them alone it can be said
whether there is a root element, whether the root is closed, and where the document ends or breaks
off. An error of decoding agrees with this: a fault of the markup is the first one of the document,
a document that ends too early ends there, and once the root is closed only its content can be
wrong.

## Main definitions

* `Tape.fault?`, `Tape.HasRoot`, `Tape.RootClosed` — how far a document can be read
* `DecodeError.IsOfContent` — errors that are not about the markup
* `Tape.Classifies` — an outcome of decoding agrees with the events of the document
* `Event.Siblings` — complete elements, with what stands between them
* `Decoder.Lenient` — decoders that take every element

## Main results

* `Reader.exists_of_foldChildren_eq_error` — the first child that fails gives the error
* `Decoder.run_eq_error_cases` — an error is of content, or it tells how the tape ends
* `Decoder.classifies_decode` — every outcome agrees with the events of the document
* `Decoder.Lenient.run_ne_unrecognized` — no element is refused for its name
-/

namespace BucketWire

open Event (Closes)
open Tape (prepend)
open Markup (Fault)

variable {α β ρ σ τ : Type}

/-! ### How far a document can be read -/

namespace Tape

variable {tape rest : Tape} {es : List Event}

/-- The events of a tape. -/
def events : Tape → List Event
  | finished => []
  | broken _ => []
  | event e rest => e :: rest.events

/-- The fault at which a tape breaks off. -/
def fault? : Tape → Option Fault
  | finished => none
  | broken fault => some fault
  | event _ rest => rest.fault?

/-- An element starts. -/
def HasRoot (tape : Tape) : Prop := ∃ name, .start name ∈ tape.events

/-- The first element that starts is closed. -/
def RootClosed (tape : Tape) : Prop := ∃ es rest, Event.ClosesRoot es ∧ tape = prepend es rest

@[simp] theorem fault?_prepend (es : List Event) (tape : Tape) :
    (prepend es tape).fault? = tape.fault? := by
  induction es with
  | nil => rfl
  | cons e es ih => exact ih

@[simp] theorem events_prepend (es : List Event) (tape : Tape) :
    (prepend es tape).events = es ++ tape.events := by
  induction es with
  | nil => rfl
  | cons e es ih => exact congrArg (e :: ·) ih

end Tape

namespace DecodeError

/-- Errors of a name or a value, and elements that cannot stand where they do. -/
def IsOfContent : DecodeError → Prop
  | invalidValue _ => True
  | unrecognized _ => True
  | _ => False

/-- The error tells that the tape breaks off within an element, and why, or that it ends there. -/
def TellsEnd (e : DecodeError) (tape : Tape) : Prop :=
  match tape.fault? with
  | some fault => e = malformed fault
  | none => ∃ context, e = unexpectedEnd context

@[simp] theorem tellsEnd_prepend {e : DecodeError} (es : List Event) (tape : Tape) :
    e.TellsEnd (prepend es tape) ↔ e.TellsEnd tape := by
  rw [TellsEnd, Tape.fault?_prepend, TellsEnd]

theorem not_tellsEnd_unrecognized (name : String) (tape : Tape) :
    ¬ (unrecognized name).TellsEnd tape := by
  rw [TellsEnd]
  cases tape.fault? <;> simp

end DecodeError

/-- The outcome of decoding a document agrees with its events. -/
structure Tape.Classifies (tape : Tape) (outcome : Except DecodeError α) : Prop where
  /-- There is no root element if the document can be read to its end and nothing starts in it. -/
  noRoot_iff : outcome = .error .noRoot ↔ tape.fault? = none ∧ ¬ tape.HasRoot
  /-- A fault of the markup is the first one of the document. -/
  fault?_of_malformed (fault : Fault) :
    outcome = .error (.malformed fault) → tape.fault? = some fault
  /-- A document that breaks off before its root is closed does not decode. -/
  of_fault?_of_not_rootClosed (fault : Fault) : tape.fault? = some fault → ¬ tape.RootClosed →
    ∃ e, outcome = .error e ∧ (e = .malformed fault ∨ e.IsOfContent)
  /-- A document ends too early only if it ends without a fault and the root is still open. -/
  of_unexpectedEnd (context : String) : outcome = .error (.unexpectedEnd context) →
    tape.fault? = none ∧ tape.HasRoot ∧ ¬ tape.RootClosed
  /-- A document that ends while the root is still open does not decode. -/
  of_not_rootClosed : tape.fault? = none → tape.HasRoot → ¬ tape.RootClosed →
    ∃ e, outcome = .error e ∧ ((∃ context, e = .unexpectedEnd context) ∨ e.IsOfContent)
  /-- If the root is closed, only its content can be wrong. -/
  of_rootClosed : tape.RootClosed → ∀ e, outcome = .error e → e.IsOfContent

/-! ### Complete elements -/

namespace Event

/-- The events of complete elements and of what stands between them; the elements are given by
their full names and their events after the start. -/
inductive Siblings : List (Bytes × List Event) → List Event → Prop where
  | nil : Siblings [] []
  | gap {elements : List (Bytes × List Event)} {es : List Event} {e : Event} : ¬ e.IsTag →
    Siblings elements es → Siblings elements (e :: es)
  | element {elements : List (Bytes × List Event)} {es content : List Event} (name : Bytes) :
    Closes 0 content → Siblings elements es →
      Siblings ((name, content) :: elements) (start name :: (content ++ es))

end Event

/-! ### Where errors come from -/

namespace Decoder

variable {tape rest : Tape} {trim : Bool} {e : DecodeError}

/-- No element is refused for its name, at any level. -/
def Lenient : {α : Type} → Decoder α → Prop
  | _, .text => True
  | _, .skip => True
  | _, .unrecognized _ => False
  | _, .refine _ d => d.Lenient
  | _, .children _ child _ => ∀ name, (child name).Lenient

/-- A decoder that succeeds has read an element to its end. -/
theorem exists_closes_of_run {d : Decoder α} {a : α} (h : d.run trim tape = .ok (a, rest)) :
    ∃ es, Closes 0 es ∧ tape = prepend es rest ∧ d.outcome trim es = .ok a := by
  cases hskip : Reader.skipElement 0 tape with
  | error e =>
    obtain ⟨e', he'⟩ := d.run_eq_error trim ⟨e, hskip⟩
    simp [h] at he'
  | ok rest' =>
    obtain ⟨es, hes, rfl⟩ := Reader.exists_closes_of_skipElement hskip
    rw [d.run_prepend trim hes] at h
    obtain ⟨b, houtcome, hb⟩ := Outcome.exists_of_map_eq_ok h
    cases hb
    exact ⟨es, hes, rfl, houtcome⟩

end Decoder

namespace Reader

variable {tape : Tape} {e : DecodeError} {depth : Nat}

theorem tellsEnd_of_skipElement (h : skipElement depth tape = .error e) : e.TellsEnd tape := by
  induction tape generalizing depth with
  | finished =>
    cases h
    exact ⟨_, rfl⟩
  | broken fault =>
    cases h
    rfl
  | event head tape ih =>
    cases head with
    | close name =>
      cases depth with
      | zero => simp [skipElement] at h
      | succ depth => exact @ih depth h
    | start name => exact @ih (depth + 1) h
    | _ => exact @ih depth h

theorem readText_eq_error_cases {before : String} (h : readText before depth tape = .error e) :
    e.TellsEnd tape ∨ ∃ fault, e = .invalidValue fault := by
  induction tape generalizing before depth with
  | finished =>
    cases h
    exact .inl ⟨_, rfl⟩
  | broken fault =>
    cases h
    exact .inl rfl
  | event head tape ih =>
    by_cases hhead : head.IsTag
    · cases head with
      | start name => exact @ih (depth + 1) before h
      | close name =>
        cases depth with
        | zero => simp [readText] at h
        | succ depth => exact @ih depth before h
      | _ => exact absurd hhead id
    · rw [readText_of_not_isTag hhead] at h
      cases hpiece : piece head with
      | error fault =>
        rw [hpiece] at h
        cases h
        exact .inr ⟨fault, rfl⟩
      | ok text =>
        rw [hpiece] at h
        exact ih h

/-- If the children of an element cannot all be read, the tape ends before the element does, or
there is a first child that cannot be read, and the error is its error. -/
theorem exists_of_foldChildren_eq_error {context : String} {child : String → Decoder (σ → σ)}
    {trim : Bool} {acc : σ}
    (h : foldChildren context (fun name => (child name).reader) trim acc tape = .error e) :
    e.TellsEnd tape ∨ ∃ elements es name rest,
      tape = prepend es (.event (.start name) rest) ∧ Event.Siblings elements es ∧
      (∀ element ∈ elements, ∃ localName change,
        Utf8.decode (Reader.localName element.1) = .ok localName ∧
          (child localName).outcome trim element.2 = .ok change) ∧
      (ofChild (fun name => (child name).reader) name).run trim rest = .error e := by
  induction hn : tape.size using Nat.strongRecOn generalizing tape acc with
  | _ n ih =>
    subst hn
    cases tape with
    | finished =>
      rw [foldChildren] at h
      cases h
      exact .inl ⟨_, rfl⟩
    | broken fault =>
      rw [foldChildren] at h
      cases h
      exact .inl rfl
    | event head tape =>
      by_cases hhead : head.IsTag
      · cases head with
        | close name => simp [foldChildren_close] at h
        | start name =>
          rw [foldChildren_start] at h
          cases hlocal : Utf8.decode (Reader.localName name) with
          | error fault =>
            have hrun : (ofChild (fun name => (child name).reader) name).run trim tape =
                .error (.invalidValue (.name fault)) := by
              rw [ofChild, hlocal]
              rfl
            rw [hrun] at h
            cases h
            exact .inr ⟨[], [], name, tape, rfl, .nil, by simp, hrun⟩
          | ok localName =>
            have hofChild : ofChild (fun name => (child name).reader) name =
                (child localName).reader := by rw [ofChild, hlocal]
            rw [hofChild] at h
            cases hrun : (child localName).reader.run trim tape with
            | error e' =>
              rw [hrun] at h
              cases h
              exact .inr ⟨[], [], name, tape, rfl, .nil, by simp, by rw [hofChild, hrun]⟩
            | ok p =>
              obtain ⟨change, rest⟩ := p
              rw [hrun] at h
              obtain ⟨content, hcontent, rfl, houtcome⟩ := Decoder.exists_closes_of_run hrun
              have hlt := (child localName).reader.size_lt hrun
              obtain hend | ⟨elements, es, name', rest', rfl, hes, helements, herror⟩ :=
                ih _ (Nat.lt_succ_of_lt hlt) h rfl
              · exact .inl (by rwa [← Tape.prepend_cons, DecodeError.tellsEnd_prepend])
              · refine .inr ⟨(name, content) :: elements, .start name :: (content ++ es), name',
                  rest', ?_, .element name hcontent hes, ?_, herror⟩
                · rw [Tape.prepend_cons, Tape.prepend_append]
                · exact List.forall_mem_cons.mpr ⟨⟨localName, change, hlocal, houtcome⟩, helements⟩
        | _ => exact absurd hhead id
      · rw [foldChildren_of_not_isTag hhead] at h
        obtain hend | ⟨elements, es, name, rest, rfl, hes, helements, herror⟩ :=
          ih _ (Nat.lt_succ_self _) h rfl
        · exact .inl hend
        · exact .inr ⟨elements, head :: es, name, rest, rfl, .gap hhead hes, helements, herror⟩

end Reader

namespace Decoder

variable {d : Decoder α} {tape : Tape} {trim : Bool} {e : DecodeError} {es : List Event}

/-- An error tells how the tape ends, or it is of a name or a value, or an element is refused. -/
theorem run_eq_error_cases (d : Decoder α) (h : d.run trim tape = .error e) :
    e.TellsEnd tape ∨ (∃ fault, e = .invalidValue fault) ∨
      ∃ name, e = .unrecognized name ∧ ¬ d.Lenient := by
  induction d generalizing tape with
  | text =>
    have hrun : (Reader.readText "" 0 tape).map _ = .error e := h
    cases htext : Reader.readText "" 0 tape with
    | error e' =>
      rw [htext] at hrun
      cases hrun
      obtain hend | hvalue := Reader.readText_eq_error_cases htext
      · exact .inl hend
      · exact .inr (.inl hvalue)
    | ok p => simp [htext, Except.map] at hrun
  | skip =>
    have hrun : (Reader.skipElement 0 tape).map _ = .error e := h
    cases hskip : Reader.skipElement 0 tape with
    | error e' =>
      rw [hskip] at hrun
      cases hrun
      exact .inl (Reader.tellsEnd_of_skipElement hskip)
    | ok rest => simp [hskip, Except.map] at hrun
  | unrecognized name =>
    cases h
    exact .inr (.inr ⟨name, rfl, id⟩)
  | refine f d ih =>
    rw [run_refine] at h
    cases hd : d.run trim tape with
    | error e' =>
      rw [hd] at h
      cases h
      exact ih hd
    | ok p =>
      simp only [hd] at h
      cases hf : f p.1 with
      | error fault =>
        rw [hf] at h
        cases h
        exact .inr (.inl ⟨fault, rfl⟩)
      | ok b => simp [hf] at h
  | children context child zero ih =>
    obtain hend | ⟨elements, es, name, rest, rfl, -, -, herror⟩ :=
      Reader.exists_of_foldChildren_eq_error h
    · exact .inl hend
    · rw [Reader.ofChild] at herror
      split at herror
      · cases herror
        exact .inr (.inl ⟨_, rfl⟩)
      · rename_i localName _
        obtain hend | hvalue | ⟨name', rfl, hstrict⟩ := ih localName herror
        · refine .inl ?_
          rw [DecodeError.tellsEnd_prepend]
          exact hend
        · exact .inr (.inl hvalue)
        · exact .inr (.inr ⟨name', rfl, fun h => hstrict (h localName)⟩)

/-- An error tells how the tape ends, or it is of content. -/
theorem tellsEnd_or_isOfContent (h : d.run trim tape = .error e) :
    e.TellsEnd tape ∨ e.IsOfContent := by
  obtain hend | ⟨fault, rfl⟩ | ⟨name, rfl, -⟩ := d.run_eq_error_cases h
  · exact .inl hend
  · exact .inr trivial
  · exact .inr trivial

theorem Lenient.run_ne_unrecognized (hd : d.Lenient) (name : String) :
    d.run trim tape ≠ .error (.unrecognized name) := by
  intro h
  obtain hend | ⟨fault, hfault⟩ | ⟨-, -, hstrict⟩ := d.run_eq_error_cases h
  · exact DecodeError.not_tellsEnd_unrecognized name tape hend
  · cases hfault
  · exact hstrict hd

/-- Of a complete element only the content can be wrong. -/
theorem isOfContent_of_outcome (hes : Closes 0 es) (h : d.outcome trim es = .error e) :
    e.IsOfContent := by
  -- What follows the element is not looked at, so the error tells of no end.
  have hrun : ∀ tape, d.run trim (prepend es tape) = .error e := fun tape => by
    rw [d.run_prepend trim hes, h]
    rfl
  obtain hend | hcontent := tellsEnd_or_isOfContent (hrun .finished)
  · obtain hend' | hcontent := tellsEnd_or_isOfContent (hrun (.broken .danglingReference))
    · rw [DecodeError.tellsEnd_prepend] at hend hend'
      obtain ⟨context, rfl⟩ := hend
      cases hend'
    · exact hcontent
  · exact hcontent

/-! ### Whole documents -/

/-- There is no root element, or the events up to it are known. -/
theorem enterRoot_cases (tape : Tape) :
    (¬ tape.HasRoot ∧ ¬ tape.RootClosed ∧
      enterRoot tape = .error (tape.fault?.elim .noRoot .malformed)) ∨
    ∃ before name rest, (∀ e ∈ before, ∀ name, e ≠ .start name) ∧
      tape = prepend before (.event (.start name) rest) ∧ enterRoot tape = .ok rest := by
  cases hroot : enterRoot tape with
  | ok rest =>
    obtain ⟨before, name, hbefore, rfl⟩ := exists_of_enterRoot hroot
    exact .inr ⟨before, name, rest, hbefore, rfl, rfl⟩
  | error e =>
    refine .inl ⟨?_, ?_, ?_⟩
    · rintro ⟨name, hname⟩
      induction tape with
      | finished => cases hname
      | broken fault => cases hname
      | event head tape ih =>
        cases head with
        | start name => cases hroot
        | _ => exact ih hroot (by simpa [Tape.events] using hname)
    · rintro ⟨es, rest, ⟨before, name, content, rfl, hbefore, -⟩, rfl⟩
      rw [Tape.prepend_append, Tape.prepend_cons, enterRoot_prepend hbefore] at hroot
      cases hroot
    · induction tape with
      | finished => exact hroot.symm
      | broken fault => exact hroot.symm
      | event head tape ih =>
        cases head with
        | start name => cases hroot
        | _ => exact ih hroot

theorem rootClosed_iff {before : List Event} {name : Bytes} {rest : Tape}
    (h : ∀ e ∈ before, ∀ name, e ≠ .start name) :
    (prepend before (.event (.start name) rest)).RootClosed ↔
      ∃ es rest', Closes 0 es ∧ rest = prepend es rest' := by
  constructor
  · rintro ⟨_, rest', ⟨before', name', es, rfl, hbefore', hes⟩, heq⟩
    have hroot := congrArg enterRoot heq
    rw [Tape.prepend_append, Tape.prepend_cons, enterRoot_prepend h,
      enterRoot_prepend hbefore'] at hroot
    exact ⟨es, rest', hes, Except.ok.inj hroot⟩
  · rintro ⟨es, rest', hes, rfl⟩
    refine ⟨_, rest', ⟨before, name, es, rfl, h, hes⟩, ?_⟩
    rw [Tape.prepend_append, Tape.prepend_cons]

/-- A document has no root element, or its root is closed, or it ends or breaks off before that. -/
theorem decode_cases (d : Decoder α) {settings : Settings} {document : Bytes}
    (h : Tape.ofDocument settings.checkEndNames document = tape) :
    (¬ tape.HasRoot ∧ ¬ tape.RootClosed ∧
      d.decode settings document = .error (tape.fault?.elim .noRoot .malformed)) ∨
    (tape.HasRoot ∧ tape.RootClosed ∧
      ∀ e, d.decode settings document = .error e → e.IsOfContent) ∨
    (tape.HasRoot ∧ ¬ tape.RootClosed ∧
      ∃ e, d.decode settings document = .error e ∧ (e.TellsEnd tape ∨ e.IsOfContent)) := by
  obtain ⟨hnone, hopen, hroot⟩ | ⟨before, name, rest, hbefore, rfl, hroot⟩ := enterRoot_cases tape
  · refine .inl ⟨hnone, hopen, ?_⟩
    rw [decode, h, hroot]
    rfl
  · have hhas : (prepend before (.event (.start name) rest)).HasRoot := ⟨name, by
      simp [Tape.events]⟩
    refine .inr ?_
    cases hskip : Reader.skipElement 0 rest with
    | ok rest' =>
      obtain ⟨es, hes, rfl⟩ := Reader.exists_closes_of_skipElement hskip
      refine .inl ⟨hhas, (rootClosed_iff hbefore).mpr ⟨es, rest', hes, rfl⟩, fun e he => ?_⟩
      rw [decode_of_tape hbefore hes h] at he
      exact isOfContent_of_outcome hes he
    | error e =>
      refine .inr ⟨hhas, fun hclosed => ?_, ?_⟩
      · obtain ⟨es, rest', hes, rfl⟩ := (rootClosed_iff hbefore).mp hclosed
        rw [Reader.skipElement_prepend hes] at hskip
        cases hskip
      · obtain ⟨e', he'⟩ := d.run_eq_error settings.trimText ⟨e, hskip⟩
        refine ⟨e', ?_, ?_⟩
        · rw [decode, h, hroot]
          simp only [bind, Except.bind, he']
        · rw [DecodeError.tellsEnd_prepend]
          exact (tellsEnd_or_isOfContent he' : e'.TellsEnd rest ∨ e'.IsOfContent)

/-- Every outcome of decoding agrees with the events of the document. -/
theorem classifies_decode (d : Decoder α) (settings : Settings) (document : Bytes) :
    (Tape.ofDocument settings.checkEndNames document).Classifies (d.decode settings document) := by
  generalize htape : Tape.ofDocument settings.checkEndNames document = tape
  obtain ⟨hnone, hopen, he⟩ | ⟨hroot, hclosed, hcontent⟩ | ⟨hroot, hopen, e, he, hcases⟩ :=
    d.decode_cases htape
  · cases hfault : tape.fault? with
    | none => constructor <;> simp_all
    | some fault => constructor <;> simp_all
  · constructor
    · exact ⟨fun h => absurd (hcontent _ h) id, fun h => absurd hroot h.2⟩
    · exact fun fault h => absurd (hcontent _ h) id
    · exact fun fault _ h => absurd hclosed h
    · exact fun context h => absurd (hcontent _ h) id
    · exact fun _ _ h => absurd hclosed h
    · exact fun _ => hcontent
  · have heq : ∀ {e'}, d.decode settings document = .error e' → e = e' := fun h =>
      Except.error.inj (he.symm.trans h)
    rw [DecodeError.TellsEnd] at hcases
    cases hfault : tape.fault? with
    | none =>
      rw [hfault] at hcases
      constructor
      · refine ⟨fun h => ?_, fun h => absurd hroot h.2⟩
        obtain rfl := heq h
        obtain ⟨context, h⟩ | h := hcases <;> cases h
      · intro fault h
        obtain rfl := heq h
        obtain ⟨context, h⟩ | h := hcases <;> cases h
      · intro fault h
        rw [hfault] at h
        cases h
      · exact fun context _ => ⟨hfault, hroot, hopen⟩
      · exact fun _ _ _ => ⟨e, he, hcases⟩
      · exact fun h => absurd h hopen
    | some fault =>
      rw [hfault] at hcases
      constructor
      · refine ⟨fun h => ?_, fun h => absurd hroot h.2⟩
        obtain rfl := heq h
        obtain h | h := hcases <;> cases h
      · intro fault' h
        obtain rfl := heq h
        obtain h | h := hcases <;> cases h
        exact hfault
      · intro fault' h _
        rw [hfault, Option.some.injEq] at h
        rw [← h]
        exact ⟨e, he, hcases⟩
      · intro context h
        obtain rfl := heq h
        obtain h | h := hcases <;> cases h
      · intro h
        rw [hfault] at h
        cases h
      · exact fun h => absurd h hopen

/-- An element that is refused for its name stands in the root element. -/
theorem exists_run_of_decode_eq_unrecognized {settings : Settings} {document : Bytes}
    {name : String} (h : d.decode settings document = .error (.unrecognized name)) :
    ∃ before root rest, (∀ e ∈ before, ∀ name, e ≠ .start name) ∧
      Tape.ofDocument settings.checkEndNames document =
        prepend before (.event (.start root) rest) ∧
      d.run settings.trimText rest = .error (.unrecognized name) := by
  rw [decode] at h
  obtain ⟨-, -, hroot⟩ | ⟨before, root, rest, hbefore, htape, hroot⟩ :=
    enterRoot_cases (Tape.ofDocument settings.checkEndNames document)
  · rw [hroot] at h
    cases hfault : (Tape.ofDocument settings.checkEndNames document).fault? <;>
      simp [hfault, bind, Except.bind] at h
  · refine ⟨before, root, rest, hbefore, htape, ?_⟩
    rw [hroot] at h
    simp only [bind, Except.bind] at h
    cases hrun : d.run settings.trimText rest with
    | error e =>
      simp only [hrun] at h
      rw [Except.error.inj h]
    | ok p => simp [hrun, pure, Except.pure] at h

end Decoder

/-! ### Lenient records -/

namespace Field

@[simp] theorem lenient_change_store (name : String) (d : Decoder α) (set : α → ρ → ρ) :
    (store name d set).change.Lenient ↔ d.Lenient := Iff.rfl

@[simp] theorem lenient_change_lift (modify : (ρ → ρ) → τ → τ) (field : Field ρ) :
    (field.lift modify).change.Lenient ↔ field.change.Lenient := Iff.rfl

end Field

namespace Decoder

theorem lenient_ignore : (ignore : Decoder (ρ → ρ)).Lenient := trivial

/-- A record is lenient if its fields are: other children are skipped. -/
theorem lenient_record {fields : List (Field ρ)} (h : ∀ field ∈ fields, field.change.Lenient)
    (context : String) (zero : ρ) : (record context fields zero).Lenient := by
  intro name
  show ((Field.find? fields name).getD ignore).Lenient
  cases hfind : Field.find? fields name with
  | none => exact lenient_ignore
  | some d =>
    obtain ⟨field, hfield, rfl⟩ := Option.map_eq_some_iff.mp hfind
    exact h field (List.mem_of_find?_eq_some hfield)

@[simp] theorem lenient_items {d : Decoder α} (hd : d.Lenient) (item : String) :
    (items item d).Lenient :=
  lenient_record (by simpa using hd) "list" []

@[simp] theorem lenient_text : text.Lenient := trivial

@[simp] theorem lenient_boolean : boolean.Lenient := trivial

@[simp] theorem lenient_int64 : int64.Lenient := trivial

@[simp] theorem lenient_int32 : int32.Lenient := trivial

@[simp] theorem lenient_timestamp : timestamp.Lenient := trivial

@[simp] theorem lenient_tags : tags.Lenient := trivial

@[simp] theorem lenient_metadata : metadata.Lenient := fun _ => trivial

end Decoder

end BucketWire

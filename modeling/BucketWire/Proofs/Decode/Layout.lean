import BucketWire.Proofs.Decode.Truncation
import BucketWire.Proofs.Markup.Layout

/-!
# Decoding a root element by its children

A decoder that lets every child of an element change a value goes through the children from front to
back. Each child is decoded from its own bytes, as if it were a document; what stands between the
children says nothing. The first child that cannot be decoded decides on the error.

## Main definitions

* `Child.localName`, `Child.read` — what a child says by itself

## Main results

* `Decoder.decode_children` — a root element is decoded by a fold over its children
* `Child.foldlM_step_eq_error_iff` — the first child that cannot be read gives the error
-/

namespace BucketWire

open Tape (prepend)

variable {α β σ : Type} {settings : Settings}

/-! ### Children by themselves -/

namespace Child

variable (child : Child settings.checkEndNames)

/-- The local name of an element, if it is UTF-8. -/
def localName {checkNames : Bool} (child : Child checkNames) : Except Utf8.Fault String :=
  Utf8.decode (Reader.localName child.name)

/-- What an element says by itself, if `d` gives the decoder of every local name. -/
def read (d : String → Decoder α) : Except DecodeError α :=
  match child.localName with
  | .error fault => .error (.invalidValue (.name fault))
  | .ok name => (d name).decode settings child.bytes

/-- An element that is a document of its own. -/
theorem decode_bytes (d : Decoder α) :
    d.decode settings child.bytes = d.outcome settings.trimText child.content := by
  have htape : Tape.ofDocument settings.checkEndNames child.bytes =
      prepend [] (.event (.start child.name) (prepend child.content .finished)) :=
    child.ofDocument_bytes
  exact Decoder.decode_of_tape (by simp) child.closes htape

/-- An element among others is read as it is by itself. -/
theorem run_ofChild (d : String → Decoder α) (tape : Tape) :
    (Reader.ofChild (fun name => (d name).reader) child.name).run settings.trimText
        (prepend child.content tape) = (child.read d).map fun a => (a, tape) := by
  rw [Reader.ofChild, read, localName]
  cases Utf8.decode (Reader.localName child.name) with
  | error fault => rfl
  | ok name =>
    simp only
    rw [child.decode_bytes]
    exact (d name).run_prepend _ child.closes tape

end Child

/-! ### All children -/

section Fold

variable {context : String} {d : String → Decoder (σ → σ)} {tape : Tape} {acc : σ}

/-- How a child changes a value. -/
def Child.step (d : String → Decoder (σ → σ)) (acc : σ) (child : Child settings.checkEndNames) :
    Except DecodeError σ :=
  (child.read d).map fun change => change acc

theorem Reader.foldChildren_gap {child : String → Reader (σ → σ)} {trim : Bool}
    {gap : List Event} (hgap : ∀ e ∈ gap, ¬ e.IsTag) :
    foldChildren context child trim acc (prepend gap tape) =
      foldChildren context child trim acc tape := by
  induction gap with
  | nil => rfl
  | cons e gap ih =>
    rw [Tape.prepend_cons, foldChildren_of_not_isTag (hgap e (by simp))]
    exact ih fun e he => hgap e (by simp [he])

theorem Child.foldChildren_events (child : Child settings.checkEndNames) :
    Reader.foldChildren context (fun name => (d name).reader) settings.trimText acc
        (prepend child.events tape) =
      child.step d acc >>= fun acc =>
        Reader.foldChildren context (fun name => (d name).reader) settings.trimText acc tape := by
  rw [Child.events, Tape.prepend_cons, Reader.foldChildren_start, child.run_ofChild, Child.step]
  cases child.read d <;> rfl

theorem Layout.foldChildren_pieces
    (pieces : List (Child settings.checkEndNames × Gap settings.checkEndNames)) (acc : σ) :
    Reader.foldChildren context (fun name => (d name).reader) settings.trimText acc
        (prepend (pieces.flatMap fun piece => piece.1.events ++ piece.2.events) tape) =
      (pieces.map Prod.fst).foldlM (Child.step d) acc >>= fun acc =>
        Reader.foldChildren context (fun name => (d name).reader) settings.trimText acc tape := by
  induction pieces generalizing acc with
  | nil => rfl
  | cons piece pieces ih =>
    rw [List.flatMap_cons, Tape.prepend_append, Tape.prepend_append, piece.1.foldChildren_events,
      List.map_cons, List.foldlM_cons, bind_assoc]
    congr
    funext acc
    rw [Reader.foldChildren_gap piece.2.not_isTag, ih]

/-- A root element is decoded by a fold over its children, from front to back. -/
theorem Decoder.decode_children (context : String) (d : String → Decoder (σ → σ)) (zero : σ)
    (layout : Layout settings.checkEndNames) :
    (Decoder.children context d zero).decode settings layout.document =
      layout.elements.foldlM (Child.step d) zero := by
  rw [decode, layout.tape_eq, enterRoot, Layout.content, Tape.prepend_append, Tape.prepend_append]
  simp only [bind, Except.bind, Decoder.run, Decoder.reader, Reader.children]
  rw [Reader.foldChildren_gap layout.front.not_isTag, Layout.foldChildren_pieces]
  cases h : (layout.pieces.map Prod.fst).foldlM (Child.step d) zero with
  | error e => simp [Layout.elements, h, bind, Except.bind]
  | ok acc =>
    simp [Layout.elements, h, bind, Except.bind, Reader.foldChildren_close, pure, Except.pure]

/-! ### Success and failure -/

variable {elements : List (Child settings.checkEndNames)} {result : σ}

/-- What holds at the start and is kept by every child that is read holds of the result. -/
theorem Child.foldlM_invariant {P : List (Child settings.checkEndNames) → σ → Prop}
    (hzero : P [] acc)
    (hstep : ∀ before child change acc, P before acc → child.read d = .ok change →
      P (before ++ [child]) (change acc))
    (h : elements.foldlM (step d) acc = .ok result) : P elements result := by
  suffices ∀ before acc, P before acc → elements.foldlM (step d) acc = .ok result →
      P (before ++ elements) result from this [] acc hzero h
  clear h hzero
  induction elements with
  | nil =>
    intro before acc hbefore h
    rw [List.foldlM_nil] at h
    cases h
    rwa [List.append_nil]
  | cons child elements ih =>
    intro before acc hbefore h
    rw [List.foldlM_cons, step] at h
    cases hread : child.read d with
    | error e => simp [hread, Except.map, bind, Except.bind] at h
    | ok change =>
      rw [hread] at h
      have := ih _ _ (hstep before child change acc hbefore hread) h
      rwa [List.append_assoc] at this

/-- The children are all read, or one of them is the first that cannot be read. -/
theorem Child.foldlM_step_eq_error_iff {e : DecodeError} :
    elements.foldlM (step d) acc = .error e ↔
      ∃ before child after, elements = before ++ child :: after ∧
        (∀ child' ∈ before, ∃ change, child'.read d = .ok change) ∧ child.read d = .error e := by
  induction elements generalizing acc with
  | nil => simp [pure, Except.pure]
  | cons child elements ih =>
    rw [List.foldlM_cons, step]
    cases hread : child.read d with
    | error e' =>
      constructor
      · intro h
        cases h
        exact ⟨[], child, elements, rfl, by simp, hread⟩
      · rintro ⟨before, child', after, heq, hbefore, hchild'⟩
        cases before with
        | nil =>
          simp only [List.nil_append, List.cons.injEq] at heq
          rw [← heq.1, hread] at hchild'
          cases hchild'
          rfl
        | cons b before =>
          simp only [List.cons_append, List.cons.injEq] at heq
          obtain ⟨change, hchange⟩ := hbefore b (by simp)
          rw [← heq.1, hread] at hchange
          cases hchange
    | ok change =>
      show elements.foldlM (step d) (change acc) = .error e ↔ _
      rw [ih]
      constructor
      · rintro ⟨before, child', after, rfl, hbefore, hchild'⟩
        refine ⟨child :: before, child', after, rfl, ?_, hchild'⟩
        intro b hb
        rcases List.mem_cons.mp hb with rfl | hb
        · exact ⟨change, hread⟩
        · exact hbefore b hb
      · rintro ⟨before, child', after, heq, hbefore, hchild'⟩
        cases before with
        | nil =>
          simp only [List.nil_append, List.cons.injEq] at heq
          rw [← heq.1, hread] at hchild'
          cases hchild'
        | cons b before =>
          simp only [List.cons_append, List.cons.injEq] at heq
          exact ⟨before, child', after, heq.2, fun b hb => hbefore b (by simp [hb]), hchild'⟩

theorem Child.exists_foldlM_step_eq_ok_iff :
    (∃ result, elements.foldlM (step d) acc = .ok result) ↔
      ∀ child ∈ elements, ∃ change, child.read d = .ok change := by
  induction elements generalizing acc with
  | nil => simp [pure, Except.pure]
  | cons child elements ih =>
    rw [List.foldlM_cons, step, List.forall_mem_cons]
    cases hread : child.read d with
    | error e => simp [Except.map, bind, Except.bind]
    | ok change =>
      have ih := @ih (change acc)
      rw [← ih]
      simp [Except.map, bind, Except.bind]

end Fold

end BucketWire

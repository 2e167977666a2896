import BucketWire.Decode.Decoder
import BucketWire.Proofs.Markup.Extent

/-!
# Decoders read their own element

A decoder reads the events of its element and no others: what it makes of them does not depend on
what follows, and it leaves what follows as it was. If the element has no end, the decoder fails.

## Main definitions

* `Reader.Confined` — a reader reads its own element
* `Decoder.outcome` — what a decoder makes of the events of an element

## Main results

* `Decoder.confined` — every decoder is confined
* `Decoder.run_prepend` — a decoder on the events of an element and what follows them
-/

namespace BucketWire

open Event (Closes)
open Tape (prepend)

namespace Reader

variable {α β σ : Type} {depth : Nat} {es : List Event} {tape rest : Tape}

/-! ### Skipping -/

theorem skipElement_of_not_isTag {e : Event} (he : ¬ e.IsTag) (tape : Tape) :
    skipElement depth (.event e tape) = skipElement depth tape := by
  cases e with
  | start name => exact absurd trivial he
  | close name => exact absurd trivial he
  | _ => rfl

theorem skipElement_prepend (h : Closes depth es) (tape : Tape) :
    skipElement depth (prepend es tape) = .ok tape := by
  induction h with
  | last name => rfl
  | leave name _ ih => exact ih
  | enter name _ ih => exact ih
  | stay he _ ih => rw [Tape.prepend_cons, skipElement_of_not_isTag he, ih]

/-- Past an element within others, the others are still to be skipped. -/
theorem skipElement_prepend_outer (h : Closes depth es) (outer : Nat) (tape : Tape) :
    skipElement (depth + outer + 1) (prepend es tape) = skipElement outer tape := by
  induction h with
  | last name => rw [Nat.zero_add]; rfl
  | @leave depth es name _ ih =>
    rw [show depth + 1 + outer + 1 = depth + outer + 1 + 1 by omega]
    exact ih
  | @enter depth es name _ ih =>
    rw [show depth + 1 + outer + 1 = depth + outer + 1 + 1 by omega] at ih
    exact ih
  | stay he _ ih => rw [Tape.prepend_cons, skipElement_of_not_isTag he, ih]

theorem exists_closes_of_skipElement (h : skipElement depth tape = .ok rest) :
    ∃ es, Closes depth es ∧ tape = prepend es rest := by
  induction tape generalizing depth with
  | finished => simp [skipElement] at h
  | broken fault => simp [skipElement] at h
  | event e tape ih =>
    cases e with
    | start name =>
      obtain ⟨es, hes, rfl⟩ := ih h
      exact ⟨_, .enter name hes, rfl⟩
    | close name =>
      cases depth with
      | zero =>
        simp only [skipElement, Except.ok.injEq] at h
        subst h
        exact ⟨_, .last name, rfl⟩
      | succ depth =>
        obtain ⟨es, hes, rfl⟩ := ih h
        exact ⟨_, .leave name hes, rfl⟩
    | _ =>
      obtain ⟨es, hes, rfl⟩ := ih h
      exact ⟨_, .stay id hes, rfl⟩

/-- No skipping past the end of an element that has none. -/
theorem skipElement_eq_error_of_tagless (htape : tape.IsTagless) (depth : Nat) :
    ∃ e, skipElement depth tape = .error e := by
  cases tape with
  | finished => exact ⟨_, rfl⟩
  | broken fault => exact ⟨_, rfl⟩
  | event e tape =>
    cases e <;> cases tape <;> simp_all [Tape.IsTagless, skipElement]

/-- If the events of an element are cut short, it has no end. -/
theorem skipElement_part {es₁ es₂ : List Event} {e : Event} (h : Closes depth (es₁ ++ e :: es₂))
    (htape : tape.IsTagless) : ∃ e, skipElement depth (prepend es₁ tape) = .error e := by
  induction es₁ generalizing depth with
  | nil => exact skipElement_eq_error_of_tagless htape depth
  | cons e' es₁ ih =>
    generalize hes : e' :: es₁ ++ e :: es₂ = es at h
    rw [List.cons_append] at hes
    cases h with
    | last => simp at hes
    | leave name h =>
      obtain ⟨rfl, rfl⟩ := List.cons.inj hes
      exact ih h
    | enter name h =>
      obtain ⟨rfl, rfl⟩ := List.cons.inj hes
      exact ih h
    | stay he h =>
      obtain ⟨rfl, rfl⟩ := List.cons.inj hes
      rw [Tape.prepend_cons, skipElement_of_not_isTag he]
      exact ih h

/-! ### Confined readers -/

/-- A reader reads the events of its element alone, and fails if it has no end. -/
structure Confined (r : Reader α) : Prop where
  /-- What is read does not depend on what follows the element, which is left over. -/
  exists_outcome (trim : Bool) {es : List Event} (h : Closes 0 es) :
    ∃ outcome : Except DecodeError α, ∀ tape,
      r.run trim (prepend es tape) = outcome.map fun a => (a, tape)
  /-- Nothing is read from an element without an end. -/
  run_eq_error (trim : Bool) {tape : Tape} (h : ∃ e, skipElement 0 tape = .error e) :
    ∃ e, r.run trim tape = .error e

theorem confined_fail (e : DecodeError) : (fail e : Reader α).Confined where
  exists_outcome _ _ _ := ⟨.error e, fun _ => rfl⟩
  run_eq_error _ _ _ := ⟨e, rfl⟩

theorem Confined.refine {r : Reader α} (hr : r.Confined) (f : α → Except ValueFault β) :
    (r.refine f).Confined where
  exists_outcome trim es h := by
    obtain ⟨outcome, houtcome⟩ := hr.exists_outcome trim h
    cases outcome with
    | error e => exact ⟨.error e, fun tape => by simp [Reader.refine, houtcome, Except.map]⟩
    | ok a =>
      cases hf : f a with
      | error fault =>
        exact ⟨.error (.invalidValue fault), fun tape => by
          simp [Reader.refine, houtcome, Except.map, hf]⟩
      | ok b => exact ⟨.ok b, fun tape => by simp [Reader.refine, houtcome, Except.map, hf]⟩
  run_eq_error trim tape h := by
    obtain ⟨e, he⟩ := hr.run_eq_error trim h
    exact ⟨e, by simp [Reader.refine, he]⟩

theorem confined_skip : skip.Confined where
  exists_outcome trim es h := ⟨.ok (), fun tape => by
    simp [skip, skipElement_prepend h, Except.map]⟩
  run_eq_error trim tape h := by
    obtain ⟨e, he⟩ := h
    exact ⟨e, by simp [skip, he, Except.map]⟩

/-! ### Text -/

theorem readText_of_not_isTag {before : String} {e : Event} (he : ¬ e.IsTag) (tape : Tape) :
    readText before depth (.event e tape) =
      match piece e with
      | .error fault => .error (.invalidValue fault)
      | .ok text => readText (before ++ text) depth tape := by
  cases e with
  | start name => exact absurd trivial he
  | close name => exact absurd trivial he
  | _ => rfl

theorem exists_outcome_readText (h : Closes depth es) (before : String) :
    ∃ outcome : Except DecodeError String, ∀ tape,
      readText before depth (prepend es tape) = outcome.map fun text => (text, tape) := by
  induction h generalizing before with
  | last name => exact ⟨.ok before, fun tape => rfl⟩
  | leave name _ ih => exact ih before
  | enter name _ ih => exact ih before
  | @stay depth e es he _ ih =>
    cases hpiece : piece e with
    | error fault =>
      exact ⟨.error (.invalidValue fault), fun tape => by
        rw [Tape.prepend_cons, readText_of_not_isTag he, hpiece]
        rfl⟩
    | ok text =>
      obtain ⟨outcome, houtcome⟩ := ih (before ++ text)
      refine ⟨outcome, fun tape => ?_⟩
      rw [Tape.prepend_cons, readText_of_not_isTag he, hpiece]
      exact houtcome tape

theorem readText_eq_error (h : ∃ e, skipElement depth tape = .error e) (before : String) :
    ∃ e, readText before depth tape = .error e := by
  induction tape generalizing depth before with
  | finished => exact ⟨_, rfl⟩
  | broken fault => exact ⟨_, rfl⟩
  | event e tape ih =>
    by_cases he : e.IsTag
    · cases e with
      | start name => exact ih h before
      | close name =>
        cases depth with
        | zero => simp [skipElement] at h
        | succ depth => exact ih h before
      | _ => exact absurd he id
    · rw [skipElement_of_not_isTag he] at h
      rw [readText_of_not_isTag he]
      cases piece e with
      | error fault => exact ⟨_, rfl⟩
      | ok text => exact ih h (before ++ text)

theorem confined_text : text.Confined where
  exists_outcome trim es h := by
    obtain ⟨outcome, houtcome⟩ := exists_outcome_readText h ""
    refine ⟨outcome.map fun text => if trim then Text.trim text else text, fun tape => ?_⟩
    cases outcome <;> simp [text, houtcome, Except.map]
  run_eq_error trim tape h := by
    obtain ⟨e, he⟩ := readText_eq_error h ""
    exact ⟨e, by simp [text, he, Except.map]⟩

/-! ### Children -/

section Children

variable {context : String} {child : String → Reader (σ → σ)} {trim : Bool} {acc : σ}

theorem foldChildren_start {name : Bytes} :
    foldChildren context child trim acc (.event (.start name) tape) =
      match (ofChild child name).run trim tape with
      | .error e => .error e
      | .ok (change, rest) => foldChildren context child trim (change acc) rest := by
  rw [foldChildren]
  split <;> simp_all

theorem foldChildren_close {name : Bytes} :
    foldChildren context child trim acc (.event (.close name) tape) = .ok (acc, tape) := by
  rw [foldChildren]

theorem foldChildren_of_not_isTag {e : Event} (he : ¬ e.IsTag) :
    foldChildren context child trim acc (.event e tape) =
      foldChildren context child trim acc tape := by
  cases e with
  | start name => exact absurd trivial he
  | close name => exact absurd trivial he
  | _ => rw [foldChildren] <;> simp

theorem confined_ofChild (hchild : ∀ name, (child name).Confined) (name : Bytes) :
    (ofChild child name).Confined := by
  rw [ofChild]
  split
  · exact confined_fail _
  · exact hchild _

theorem exists_outcome_foldChildren (hchild : ∀ name, (child name).Confined) (context : String)
    (h : Closes 0 es) (acc : σ) :
    ∃ outcome : Except DecodeError σ, ∀ tape,
      foldChildren context child trim acc (prepend es tape) = outcome.map fun a => (a, tape) := by
  induction hn : es.length using Nat.strongRecOn generalizing es acc with
  | _ n ih =>
    subst hn
    cases h with
    | last name => exact ⟨.ok acc, fun tape => foldChildren_close⟩
    | @enter _ es name h =>
      obtain ⟨es₁, es₂, rfl, h₁, h₂⟩ := Closes.exists_append 0 0 h
      obtain ⟨outcome₁, houtcome₁⟩ := (confined_ofChild hchild name).exists_outcome trim h₁
      cases outcome₁ with
      | error e =>
        refine ⟨.error e, fun tape => ?_⟩
        rw [Tape.prepend_cons, foldChildren_start, Tape.prepend_append, houtcome₁]
        rfl
      | ok change =>
        have hlt : es₂.length < (Event.start name :: (es₁ ++ es₂)).length := by
          rw [List.length_cons, List.length_append]
          omega
        obtain ⟨outcome₂, houtcome₂⟩ := ih es₂.length hlt h₂ (change acc) rfl
        refine ⟨outcome₂, fun tape => ?_⟩
        rw [Tape.prepend_cons, foldChildren_start, Tape.prepend_append, houtcome₁]
        exact houtcome₂ tape
    | @stay _ e es he h =>
      obtain ⟨outcome, houtcome⟩ := ih es.length (by simp) h acc rfl
      refine ⟨outcome, fun tape => ?_⟩
      rw [Tape.prepend_cons, foldChildren_of_not_isTag he, houtcome]

theorem foldChildren_eq_error (hchild : ∀ name, (child name).Confined) (context : String)
    (h : ∃ e, skipElement 0 tape = .error e) (acc : σ) :
    ∃ e, foldChildren context child trim acc tape = .error e := by
  induction hn : tape.size using Nat.strongRecOn generalizing tape acc with
  | _ n ih =>
    subst hn
    cases tape with
    | finished => exact ⟨_, by rw [foldChildren]⟩
    | broken fault => exact ⟨_, by rw [foldChildren]⟩
    | event e tape =>
      by_cases he : e.IsTag
      · cases e with
        | close name => simp [skipElement] at h
        | start name =>
          rw [foldChildren_start]
          cases hskip : skipElement 0 tape with
          | error e =>
            obtain ⟨e', he'⟩ := (confined_ofChild hchild name).run_eq_error trim ⟨e, hskip⟩
            exact ⟨e', by rw [he']⟩
          | ok rest =>
            obtain ⟨es, hes, rfl⟩ := exists_closes_of_skipElement hskip
            obtain ⟨outcome, houtcome⟩ := (confined_ofChild hchild name).exists_outcome trim hes
            cases outcome with
            | error e => exact ⟨e, by rw [houtcome]; rfl⟩
            | ok change =>
              have hrest : ∃ e, skipElement 0 rest = .error e := by
                obtain ⟨e, he⟩ := h
                exact ⟨e, by rw [← he, ← skipElement_prepend_outer hes]; rfl⟩
              have hlt := size_lt_of_skipElement hskip
              obtain ⟨e, he⟩ := ih rest.size (Nat.lt_succ_of_lt hlt) hrest (change acc) rfl
              exact ⟨e, by rw [houtcome]; exact he⟩
        | _ => exact absurd he id
      · rw [skipElement_of_not_isTag he] at h
        rw [foldChildren_of_not_isTag he]
        exact ih tape.size (Nat.lt_succ_self _) h acc rfl

theorem confined_children (hchild : ∀ name, (child name).Confined) (context : String) (zero : σ) :
    (children context child zero).Confined where
  exists_outcome _ _ h := exists_outcome_foldChildren hchild context h zero
  run_eq_error _ _ h := foldChildren_eq_error hchild context h zero

end Children

end Reader

namespace Decoder

variable {α : Type} {es : List Event}

/-- Every decoder reads its own element. -/
theorem confined (d : Decoder α) : d.reader.Confined := by
  induction d with
  | text => exact Reader.confined_text
  | skip => exact Reader.confined_skip
  | unrecognized name => exact Reader.confined_fail _
  | refine f d ih => exact ih.refine f
  | children context child zero ih => exact Reader.confined_children ih context zero

/-- A decoder that refines another one reads what that one reads. -/
theorem run_refine {β : Type} (f : α → Except ValueFault β) (d : Decoder α) (trim : Bool)
    (tape : Tape) : (d.refine f).run trim tape =
      match d.run trim tape with
      | .error e => .error e
      | .ok (a, rest) =>
        match f a with
        | .error fault => .error (.invalidValue fault)
        | .ok b => .ok (b, rest) := rfl

/-- What `d` makes of the events of an element after its start. -/
def outcome (d : Decoder α) (trim : Bool) (es : List Event) : Except DecodeError α :=
  (d.run trim (prepend es .finished)).map Prod.fst

/-- A decoder reads the events of its element and leaves those that follow. -/
theorem run_prepend (d : Decoder α) (trim : Bool) (h : Closes 0 es) (tape : Tape) :
    d.run trim (prepend es tape) = (d.outcome trim es).map fun a => (a, tape) := by
  obtain ⟨outcome, houtcome⟩ := d.confined.exists_outcome trim h
  rw [Decoder.outcome, run, houtcome, run, houtcome]
  cases outcome <;> rfl

/-- A decoder fails if its element has no end. -/
theorem run_eq_error (d : Decoder α) (trim : Bool) {tape : Tape}
    (h : ∃ e, Reader.skipElement 0 tape = .error e) : ∃ e, d.run trim tape = .error e :=
  d.confined.run_eq_error trim h

/-- What stands before the root element is not looked at. -/
theorem enterRoot_of_ne_start {e : Event} (he : ∀ name, e ≠ .start name) (tape : Tape) :
    enterRoot (.event e tape) = enterRoot tape := by
  cases e with
  | start name => exact absurd rfl (he name)
  | _ => rfl

end Decoder

end BucketWire

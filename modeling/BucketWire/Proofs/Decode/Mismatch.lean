import BucketWire.Proofs.Decode.Extent
import BucketWire.Proofs.Markup.Mismatch

/-!
# Decoding with end tags checked

Decoders do not look at the names of end tags; they count starts and ends. A check of end tags only
breaks the tape off, at the first end that does not name the innermost open element. On the part of
a tape a decoder reads what it reads on the whole tape, with the same error or the same value,
unless it comes to the place where the part breaks off.

## Main definitions

* `Decoder.StopsShort` — what is read from a part of a tape, and what is read from the whole

## Main results

* `Decoder.run_breaksOff` — a decoder on a tape that breaks off
* `Decoder.decode_checking` — checking end tags only adds rejections
-/

namespace BucketWire

open Markup (Fault)
open Tape (BreaksOff)

variable {α β σ : Type} {fault : Fault} {trim : Bool} {part tape : Tape} {depth : Nat}

/-- What is read from a tape that breaks off with `fault`, and what is read from the whole tape: the
fault is met, or both are the same but for the events that are left over. -/
inductive Decoder.StopsShort (fault : Fault) :
    Except DecodeError (α × Tape) → Except DecodeError (α × Tape) → Prop where
  | broken (outcome : Except DecodeError (α × Tape)) :
    StopsShort fault (.error (.malformed fault)) outcome
  | error (e : DecodeError) : StopsShort fault (.error e) (.error e)
  | ok (a : α) {part tape : Tape} (h : BreaksOff fault part tape) :
    StopsShort fault (.ok (a, part)) (.ok (a, tape))

open Decoder (StopsShort)

/-! ### Readers -/

namespace Reader

theorem skipElement_breaksOff (h : BreaksOff fault part tape) :
    StopsShort fault ((skipElement depth part).map fun rest => ((), rest))
      ((skipElement depth tape).map fun rest => ((), rest)) := by
  induction h generalizing depth with
  | here tape => exact .broken _
  | event e h ih =>
    by_cases he : e.IsTag
    · cases e with
      | start name => exact ih
      | close name =>
        cases depth with
        | zero => exact .ok () h
        | succ depth => exact ih
      | _ => exact absurd he id
    · rw [skipElement_of_not_isTag he, skipElement_of_not_isTag he]
      exact ih

theorem readText_breaksOff (h : BreaksOff fault part tape) (before : String) :
    StopsShort fault (readText before depth part) (readText before depth tape) := by
  induction h generalizing before depth with
  | here tape => exact .broken _
  | event e h ih =>
    by_cases he : e.IsTag
    · cases e with
      | start name => exact ih before
      | close name =>
        cases depth with
        | zero => exact .ok before h
        | succ depth => exact ih before
      | _ => exact absurd he id
    · rw [readText_of_not_isTag he, readText_of_not_isTag he]
      cases piece e with
      | error fault' => exact .error _
      | ok text => exact ih (before ++ text)

theorem foldChildren_breaksOff {context : String} {child : String → Reader (σ → σ)} {acc : σ}
    (hchild : ∀ name {part tape : Tape}, BreaksOff fault part tape →
      StopsShort fault ((child name).run trim part) ((child name).run trim tape))
    (h : BreaksOff fault part tape) :
    StopsShort fault (foldChildren context child trim acc part)
      (foldChildren context child trim acc tape) := by
  -- A child may take any number of events off the tape, so the induction is on what is left of it.
  induction hn : part.size using Nat.strongRecOn generalizing part tape acc with
  | _ n ih =>
    subst hn
    cases h with
    | here tape =>
      rw [foldChildren]
      exact .broken _
    | @event e part tape h =>
      by_cases he : e.IsTag
      · cases e with
        | close name =>
          rw [foldChildren_close, foldChildren_close]
          exact .ok acc h
        | start name =>
          rw [foldChildren_start, foldChildren_start]
          have hofChild : StopsShort fault ((ofChild child name).run trim part)
              ((ofChild child name).run trim tape) := by
            rw [ofChild]
            split
            · exact .error _
            · exact hchild _ h
          have hlt : ∀ {change rest}, (ofChild child name).run trim part = .ok (change, rest) →
              rest.size < part.size + 1 :=
            fun hrun => Nat.lt_succ_of_lt ((ofChild child name).size_lt hrun)
          generalize (ofChild child name).run trim part = outcome at hofChild hlt ⊢
          generalize (ofChild child name).run trim tape = outcome' at hofChild ⊢
          cases hofChild with
          | broken outcome' => exact .broken _
          | error e => exact .error e
          | ok change h => exact ih _ (hlt rfl) h rfl
        | _ => exact absurd he id
      · rw [foldChildren_of_not_isTag he, foldChildren_of_not_isTag he]
        exact ih _ (Nat.lt_succ_self _) h rfl

end Reader

/-! ### Decoders -/

namespace Decoder

/-- From a tape that breaks off a decoder reads what it reads from the whole tape, unless it comes
to the place where the tape breaks off. -/
theorem run_breaksOff (d : Decoder α) (h : BreaksOff fault part tape) :
    StopsShort fault (d.run trim part) (d.run trim tape) := by
  induction d generalizing part tape with
  | text =>
    show StopsShort fault ((Reader.readText "" 0 part).map _) ((Reader.readText "" 0 tape).map _)
    have htext := @Reader.readText_breaksOff fault _ _ 0 h ""
    generalize Reader.readText "" 0 part = outcome at htext ⊢
    generalize Reader.readText "" 0 tape = outcome' at htext ⊢
    cases htext with
    | broken outcome' => exact .broken _
    | error e => exact .error e
    | ok text h => exact .ok _ h
  | skip => exact Reader.skipElement_breaksOff h
  | unrecognized name => exact .error _
  | refine f d ih =>
    rw [run_refine, run_refine]
    have hd := ih h
    generalize d.run trim part = outcome at hd ⊢
    generalize d.run trim tape = outcome' at hd ⊢
    cases hd with
    | broken outcome' => exact .broken _
    | error e => exact .error e
    | ok a h =>
      simp only
      cases f a with
      | error fault' => exact .error _
      | ok b => exact .ok b h
  | children context child zero ih => exact Reader.foldChildren_breaksOff (fun name => ih name) h

theorem enterRoot_breaksOff (h : BreaksOff fault part tape) :
    enterRoot part = .error (.malformed fault) ∨
      ∃ part' tape', BreaksOff fault part' tape' ∧ enterRoot part = .ok part' ∧
        enterRoot tape = .ok tape' := by
  induction h with
  | here tape => exact .inl rfl
  | event e h ih =>
    cases e with
    | start name => exact .inr ⟨_, _, h, rfl, rfl⟩
    | _ => exact ih

/-- A document is decoded with end tags checked as it is without, or its first mismatch is the
error. -/
theorem decode_checking_cases (d : Decoder α) (settings : Settings) (document : Bytes) :
    d.decode { settings with checkEndNames := true } document =
        d.decode { settings with checkEndNames := false } document ∨
      ∃ expected found,
        (Tape.ofDocument false document).mismatch? [] = some (expected, found) ∧
        found ≠ expected ∧
        d.decode { settings with checkEndNames := true } document =
          .error (.malformed (.mismatchedEnd expected found)) := by
  simp only [decode]
  obtain ⟨-, heq⟩ | ⟨expected, found, hfound, hne, hbreaks⟩ :=
    Tape.ofDocument_checking_cases document
  · exact .inl (by rw [heq])
  · obtain hbroken | ⟨part, tape, h, hpart, htape⟩ := enterRoot_breaksOff hbreaks
    · exact .inr ⟨expected, found, hfound, hne, by rw [hbroken]; rfl⟩
    · rw [hpart, htape]
      simp only [bind, Except.bind]
      have hrun := @run_breaksOff _ _ settings.trimText _ _ d h
      generalize d.run settings.trimText part = outcome at hrun ⊢
      generalize d.run settings.trimText tape = outcome' at hrun ⊢
      cases hrun with
      | broken outcome' => exact .inr ⟨expected, found, hfound, hne, rfl⟩
      | error e => exact .inl rfl
      | ok a h => exact .inl rfl

/-- Checking end tags only adds rejections. A document is decoded with the check as it is without,
or there is an end tag that does not name the innermost open element, and the error tells the names
of the first one. So a document that decodes with the check decodes to the same value without, and
one that does not decode without the check does not decode with it. -/
theorem decode_checking (d : Decoder α) (settings : Settings) (document : Bytes) :
    (d.decode { settings with checkEndNames := true } document =
        d.decode { settings with checkEndNames := false } document ∨
      ∃ expected found,
        (Tape.ofDocument false document).mismatch? [] = some (expected, found) ∧
        found ≠ expected ∧
        d.decode { settings with checkEndNames := true } document =
          .error (.malformed (.mismatchedEnd expected found))) ∧
    (∀ a, d.decode { settings with checkEndNames := true } document = .ok a →
      d.decode { settings with checkEndNames := false } document = .ok a) ∧
    ∀ e, d.decode { settings with checkEndNames := false } document = .error e →
      ∃ e', d.decode { settings with checkEndNames := true } document = .error e' := by
  have hcases := d.decode_checking_cases settings document
  refine ⟨hcases, fun a ha => ?_, fun e he => ?_⟩
  · obtain heq | ⟨expected, found, -, -, herror⟩ := hcases
    · rw [← heq, ha]
    · rw [herror] at ha
      cases ha
  · obtain heq | ⟨expected, found, -, -, herror⟩ := hcases
    · exact ⟨e, by rw [heq, he]⟩
    · exact ⟨_, herror⟩

/-- The second end names the innermost open element, the third one does not. -/
example : (Tape.ofDocument false (Utf8.encode "<a><b/><c></c></d></a>")).mismatch? [] =
    some (Utf8.encode "a", Utf8.encode "d") := by decide +kernel

end Decoder

end BucketWire

import BucketWire.Proofs.Decode.Loop
import BucketWire.Proofs.Markup.Progress

/-!
# Every decode comes to an end

No loop over events knows a bound for its calls. It comes to an end because every call for an event
either brings the cursor on or ends the decode: at the end of the document and at a fault no loop
goes on, and those around it do not go on either. So from every place, and whatever loops are under
way, there are no more calls than bytes and one.

## Main definitions

* `Decoder.Loop.atEnd` — why a loop fails at the end of the document

## Main results

* `Decoder.Loop.call_cases` — a call brings the cursor on or ends the decode
* `Decoder.exists_calls_ended` — all loops come to an end
* `Decoder.Calls.length_le` — the number of calls
* `Decoder.decode_ends` — every decode comes to an end
-/

namespace BucketWire

open Markup (Fault)

namespace Decoder

variable {γ : Type}

/-! ### One call -/

namespace Loop

/-- Why a loop fails at the end of the document. -/
def atEnd : Loop γ → DecodeError
  | root _ => .noRoot
  | content context .. => .unexpectedEnd context
  | children context .. => .unexpectedEnd context

variable {trim : Bool} {loop : Loop γ} {c c' : Cursor}

theorem take_error (fault : Fault) :
    loop.take trim (.error fault) = .ended (.error (.malformed fault)) := by
  cases loop <;> rfl

theorem take_none : loop.take trim (.ok none) = .ended (.error loop.atEnd) := by
  cases loop <;> rfl

/-- A call brings the cursor on. Otherwise the decode fails at once: nothing of what waits calls
again. -/
theorem call_cases (trim : Bool) (loop : Loop γ) (c : Cursor) :
    (∃ e c', c.next = .ok (some (e, c')) ∧ c.Advances e c' ∧
      loop.call trim c = (loop.take trim (.ok (some e)), c')) ∨
    (c.next = .ok none ∧ loop.call trim c = (.ended (.error loop.atEnd), c)) ∨
    ∃ fault, c.next = .error fault ∧
      loop.call trim c = (.ended (.error (.malformed fault)), c) := by
  obtain (hnext | ⟨fault, hnext⟩) | ⟨e, c', hnext⟩ := c.isStuck_or_exists_next
  · exact .inr (.inl ⟨hnext, by rw [call_of_finished trim loop hnext, take_none]⟩)
  · exact .inr (.inr ⟨fault, hnext, by rw [call_of_broken trim loop hnext, take_error]⟩)
  · exact .inl ⟨e, c', hnext, Cursor.advances_of_next hnext, call_of_next trim loop hnext⟩

/-- A call that came to `stage` at `c'` has read an event, or it has ended the decode where it was
made. -/
theorem cases_of_call {stage : Stage γ} (h : loop.call trim c = (stage, c')) :
    (∃ e, c.next = .ok (some (e, c'))) ∨
      c.IsStuck ∧ c' = c ∧ ∃ reason, stage = .ended (.error reason) := by
  obtain ⟨e, c₁, hnext, -, hcall⟩ | ⟨hnext, hcall⟩ | ⟨fault, hnext, hcall⟩ := loop.call_cases trim c
  · obtain ⟨-, rfl⟩ := Prod.mk.inj (h.symm.trans hcall)
    exact .inl ⟨e, hnext⟩
  · obtain ⟨rfl, rfl⟩ := Prod.mk.inj (h.symm.trans hcall)
    exact .inr ⟨.inl hnext, rfl, _, rfl⟩
  · obtain ⟨rfl, rfl⟩ := Prod.mk.inj (h.symm.trans hcall)
    exact .inr ⟨.inr ⟨fault, hnext⟩, rfl, _, rfl⟩

end Loop

/-! ### All calls -/

variable {trim : Bool} {stage stage' : Stage γ} {c c' : Cursor} {calls : List Cursor}

/-- Whatever loops are under way, they come to an end from every place. -/
theorem exists_calls_ended (trim : Bool) (stage : Stage γ) (c : Cursor) :
    ∃ calls outcome place, Calls trim stage c calls (.ended outcome) place := by
  -- A call that does not end the decode leaves less to be read.
  induction hn : c.unread using WellFoundedLT.induction generalizing stage c with
  | ind n ih =>
    subst hn
    cases stage with
    | ended outcome => exact ⟨[], outcome, c, .refl _ c⟩
    | running loop =>
      rcases hcall : loop.call trim c with ⟨stage, c'⟩
      obtain ⟨e, hnext⟩ | ⟨-, -, reason, rfl⟩ := Loop.cases_of_call hcall
      · obtain ⟨calls, outcome, place, hcalls⟩ :=
          ih _ (Cursor.advances_of_next hnext).unread_lt stage c' rfl
        exact ⟨c :: calls, outcome, place, .call hcall hcalls⟩
      · exact ⟨[c], _, c', .call hcall (.refl _ c')⟩

namespace Calls

theorem eq_nil_of_ended {outcome : Except DecodeError γ}
    (h : Calls trim (.ended outcome) c calls stage c') :
    calls = [] ∧ stage = .ended outcome ∧ c' = c := by
  cases h
  exact ⟨rfl, rfl, rfl⟩

/-- There is a call for each event, and one more at most. -/
theorem length_le (h : Calls trim stage c calls stage' c') : calls.length ≤ c.eventBound + 1 := by
  induction h with
  | refl => exact Nat.zero_le _
  | call hcall hrest ih =>
    rw [List.length_cons]
    obtain ⟨e, hnext⟩ | ⟨-, -, reason, rfl⟩ := Loop.cases_of_call hcall
    · have hlt := Cursor.eventBound_lt_of_next hnext
      omega
    · obtain ⟨rfl, -⟩ := hrest.eq_nil_of_ended
      exact Nat.le_add_left _ _

/-- Each call is made at the place to which the event before it led. -/
theorem isChain (h : Calls trim stage c calls stage' c') :
    calls.IsChain fun c c' => ∃ e, c.next = .ok (some (e, c')) := by
  induction h with
  | refl => exact .nil
  | call hcall hrest ih =>
    cases hrest with
    | refl => exact .singleton _
    | call =>
      obtain hnext | ⟨-, -, reason, hended⟩ := Loop.cases_of_call hcall
      · exact .cons_cons hnext ih
      · cases hended

/-- A call at a place where nothing is reported is the last one, and the decode fails by it. -/
theorem of_isStuck (h : Calls trim stage c calls stage' c') {place : Cursor}
    (hmem : place ∈ calls) (hstuck : place.IsStuck) :
    calls.getLast? = some place ∧ c' = place ∧ ∃ reason, stage' = .ended (.error reason) := by
  induction h with
  | refl => cases hmem
  | call hcall hrest ih =>
    obtain rfl | hmem := List.mem_cons.mp hmem
    · obtain ⟨e, hnext⟩ | ⟨-, rfl, reason, rfl⟩ := Loop.cases_of_call hcall
      · obtain h | ⟨fault, h⟩ := hstuck <;> simp [h] at hnext
      · obtain ⟨rfl, rfl, rfl⟩ := hrest.eq_nil_of_ended
        exact ⟨rfl, rfl, reason, rfl⟩
    · obtain ⟨hlast, hplace⟩ := ih hmem
      rw [List.getLast?_cons, hlast]
      exact ⟨rfl, hplace⟩

end Calls

/-- Every decode comes to an end, because the cursor always advances.

A document is decoded by loops within loops, which call for one event after the other. The calls
lead to what the document decodes to, and cannot lead to anything else; there are no more of them
than the document has bytes, and one. Each is made at the place to which the event before it led.
An event advances the cursor: less is left to be read, and if an end is owed for a self-closing
element, it is what is reported before any further byte is read. Where no event is reported the call
is the last one, and the decode fails.

This is so because of what one call comes to, wherever any loop makes it: an event advances the
cursor, and without an event the loop fails at once, and so does all that waits for it. So whatever
loops are under way, they come to an end from every place. -/
theorem decode_ends {α : Type} :
    (∀ (d : Decoder α) (settings : Settings) (document : Bytes), ∃ calls place,
      Calls settings.trimText (.running (.root d)) (.ofDocument settings.checkEndNames document)
        calls (.ended (d.decode settings document)) place ∧
      (∀ calls' stage place', Calls settings.trimText (.running (.root d))
        (.ofDocument settings.checkEndNames document) calls' stage place' → calls' <+: calls) ∧
      calls.length ≤ document.length + 1 ∧
      (calls.IsChain fun c c' => ∃ e, c.next = .ok (some (e, c'))) ∧
      ∀ c ∈ calls, (∃ e c', c.next = .ok (some (e, c')) ∧ c.Advances e c') ∨
        c.IsStuck ∧ calls.getLast? = some c ∧ place = c ∧
          ∃ reason, d.decode settings document = .error reason) ∧
    (∀ (trim : Bool) (loop : Loop α) (c : Cursor),
      (∃ e c', c.next = .ok (some (e, c')) ∧ c.Advances e c' ∧
        loop.call trim c = (loop.take trim (.ok (some e)), c')) ∨
      (c.next = .ok none ∧ loop.call trim c = (.ended (.error loop.atEnd), c)) ∨
      ∃ fault, c.next = .error fault ∧
        loop.call trim c = (.ended (.error (.malformed fault)), c)) ∧
    ∀ (trim : Bool) (stage : Stage α) (c : Cursor), ∃ calls outcome place,
      Calls trim stage c calls (.ended outcome) place ∧ calls.length ≤ c.eventBound + 1 := by
  refine ⟨fun d settings document => ?_, Loop.call_cases, fun trim stage c => ?_⟩
  · obtain ⟨calls, place, hcalls⟩ := d.exists_calls_decode settings document
    refine ⟨calls, place, hcalls, fun calls' stage place' h => hcalls.prefix_of_ended h, ?_,
      hcalls.isChain, fun c hc => ?_⟩
    · have hbound := Cursor.eventBound_ofDocument settings.checkEndNames document
      exact hcalls.length_le.trans (Nat.succ_le_succ hbound)
    · obtain hstuck | ⟨e, c', hnext⟩ := c.isStuck_or_exists_next
      · obtain ⟨hlast, hplace, reason, hended⟩ := hcalls.of_isStuck hc hstuck
        exact .inr ⟨hstuck, hlast, hplace, reason, Stage.ended.inj hended⟩
      · exact .inl ⟨e, c', hnext, Cursor.advances_of_next hnext⟩
  · obtain ⟨calls, outcome, place, hcalls⟩ := exists_calls_ended trim stage c
    exact ⟨calls, outcome, place, hcalls, hcalls.length_le⟩

end Decoder

end BucketWire

import Mathlib.Data.Prod.Lex
import BucketWire.Proofs.Markup.Tag

/-!
# Every event brings a cursor on

What is still to be reported is measured by two numbers: the bytes that are left, and the end that
is owed for a self-closing element. Either an event takes bytes, or it is the end that is owed,
which takes none but is owed no longer. So in lexicographic order the two numbers go down with every
event.

An end is owed only after a tag of two bytes or more. So the sum of the two numbers goes down as
well, and there are no more events than bytes.

## Main definitions

* `Cursor.unread` — the bytes that are left, and whether an end is owed
* `Cursor.Advances` — what an event does to a cursor
* `Cursor.IsStuck` — a place where nothing more is reported
* `Cursor.eventBound` — the number of events that may still come

## Main results

* `Cursor.advances_of_next` — every event advances the cursor
* `Cursor.eventBound_lt_of_next` — after every event fewer may come
-/

namespace BucketWire

namespace Cursor

variable {c c' : Cursor} {e : Event}

/-- The number of bytes that are left, and after it whether an end is owed. The number of bytes
counts first. -/
def unread (c : Cursor) : ℕ ×ₗ ℕ := toLex (c.rest.length, c.owed.isSome.toNat)

/-- The cursor `c` reports `e` and advances to `c'` by it. -/
structure Advances (c : Cursor) (e : Event) (c' : Cursor) : Prop where
  /-- Less is left to be reported. -/
  unread_lt : c'.unread < c.unread
  /-- If an end is owed, it is what is reported, and no byte is read for it. -/
  of_owed {name : Bytes} (howed : c.owed = some name) :
    e = .close name ∧ c'.rest = c.rest ∧ c'.owed = none
  /-- If an end is owed afterwards, the tag of a self-closing element has just been read. -/
  owes {name : Bytes} (howed : c'.owed = some name) :
    e = .start name ∧ c.owed = none ∧
      Token.scan c.rest = .ok (some (.startTag name true, c'.rest))

/-- Nothing is reported at `c`: the document is at its end there, or it cannot be read on. -/
def IsStuck (c : Cursor) : Prop := c.next = .ok none ∨ ∃ fault, c.next = .error fault

theorem isStuck_or_exists_next (c : Cursor) :
    c.IsStuck ∨ ∃ e c', c.next = .ok (some (e, c')) := by
  cases hnext : c.next with
  | error fault => exact .inl (.inr ⟨fault, hnext⟩)
  | ok reported =>
    cases reported with
    | none => exact .inl (.inl hnext)
    | some p => exact .inr ⟨p.1, p.2, rfl⟩

/-- What a token is reported as leaves an end owed only if the token is a self-closing tag. -/
theorem owed_of_report {rest : Bytes} {token : Token} (howed : c.owed = none)
    (h : c.report rest token = .ok (e, c')) :
    c'.owed = none ∨ ∃ name, token = .startTag name true ∧ e = .start name ∧
      c'.owed = some name := by
  cases token with
  | endTag name =>
    obtain ⟨-, -, -, -, -, rfl⟩ := close_cases h
    exact .inl howed
  | startTag name selfClosing =>
    cases selfClosing with
    | false =>
      simp only [report, Except.ok.injEq, Prod.mk.injEq] at h
      rw [← h.2]
      exact .inl howed
    | true =>
      simp only [report, Except.ok.injEq, Prod.mk.injEq] at h
      exact .inr ⟨name, rfl, h.1.symm, by rw [← h.2]⟩
  | _ =>
    simp only [report, Except.ok.injEq, Prod.mk.injEq] at h
    rw [← h.2]
    exact .inl howed

/-- An event takes bytes, two of them if it leaves an end owed, or it is the end that is owed. -/
theorem next_takes (h : c.next = .ok (some (e, c'))) :
    (∃ name, c.owed = some name ∧ e = .close name ∧ c'.rest = c.rest ∧ c'.owed = none) ∨
      (c.owed = none ∧ c'.rest.length < c.rest.length ∧ c'.owed = none) ∨
      ∃ name, c.owed = none ∧ c'.rest.length + 1 < c.rest.length ∧ c'.owed = some name ∧
        e = .start name ∧ Token.scan c.rest = .ok (some (.startTag name true, c'.rest)) := by
  obtain ⟨name, howed, rfl, rfl⟩ | ⟨rest, token, howed, hscan, hr⟩ := next_cases h
  · exact .inl ⟨name, howed, rfl, rfl, rfl⟩
  · obtain rfl := rest_of_report hr
    have hlt := Token.length_lt_of_scan hscan
    obtain hnone | ⟨name, rfl, rfl, howes⟩ := owed_of_report howed hr
    · exact .inr (.inl ⟨howed, hlt, hnone⟩)
    · refine .inr (.inr ⟨name, howed, ?_, howes, rfl, hscan⟩)
      -- The tag has its `<` and its `>`.
      obtain ⟨content, hbytes, -⟩ | ⟨content, -, htoken⟩ :=
        Token.exists_tag_of_scan hscan (.inl ⟨name, true, rfl⟩)
      · rw [hbytes, List.length_cons, List.length_append, List.length_cons]
        omega
      · cases htoken

/-- Every event advances the cursor. -/
theorem advances_of_next (h : c.next = .ok (some (e, c'))) : c.Advances e c' := by
  obtain ⟨name, howed, rfl, hrest, hnone⟩ | ⟨howed, hlt, hnone⟩ |
    ⟨name, howed, hlt, howes, rfl, hscan⟩ := next_takes h
  · refine ⟨?_, fun {name'} howed' => ?_, fun howes => ?_⟩
    · rw [unread, unread, hrest, howed, hnone]
      exact Prod.Lex.right _ Nat.zero_lt_one
    · obtain rfl := Option.some.inj (howed.symm.trans howed')
      exact ⟨rfl, hrest, hnone⟩
    · simp [hnone] at howes
  · refine ⟨Prod.Lex.left _ _ hlt, fun howed' => ?_, fun howes => ?_⟩
    · simp [howed] at howed'
    · simp [hnone] at howes
  · refine ⟨Prod.Lex.left _ _ (by omega), fun howed' => ?_, fun {name'} howes' => ?_⟩
    · simp [howed] at howed'
    · obtain rfl := Option.some.inj (howes.symm.trans howes')
      exact ⟨rfl, howed, hscan⟩

/-! ### Counting events -/

/-- No more events than this are still to come: one for each byte, and the end that is owed. -/
def eventBound (c : Cursor) : ℕ := c.rest.length + c.owed.isSome.toNat

/-- After every event fewer may come. -/
theorem eventBound_lt_of_next (h : c.next = .ok (some (e, c'))) : c'.eventBound < c.eventBound := by
  obtain ⟨name, howed, -, hrest, hnone⟩ | ⟨howed, hlt, hnone⟩ | ⟨name, howed, hlt, howes, -⟩ :=
    next_takes h
  · simp [eventBound, howed, hrest, hnone]
  · simpa [eventBound, howed, hnone] using hlt
  · simpa [eventBound, howed, howes] using hlt

theorem eventBound_ofDocument (checkNames : Bool) (document : Bytes) :
    (ofDocument checkNames document).eventBound ≤ document.length := by
  simp only [eventBound, ofDocument, Option.isSome_none, Bool.toNat_false, Nat.add_zero]
  split
  · rw [List.length_drop]
    exact Nat.sub_le _ _
  · exact Nat.le_refl _

end Cursor

end BucketWire

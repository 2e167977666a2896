/-!
# Outcomes of readers

A reader that goes on with what another reader found has a result only if the other one has.

## Main results

* `Outcome.exists_of_bind_eq_ok`, `Outcome.exists_of_map_eq_ok` — the result that a result is
  made of
-/

namespace BucketWire

namespace Outcome

variable {ε α β : Type} {x : Except ε α} {r : β}

theorem exists_of_bind_eq_ok {f : α → Except ε β} (h : x >>= f = .ok r) :
    ∃ v, x = .ok v ∧ f v = .ok r := by
  cases x with
  | error fault => cases h
  | ok v => exact ⟨v, rfl, h⟩

theorem exists_of_map_eq_ok {f : α → β} (h : x.map f = .ok r) : ∃ v, x = .ok v ∧ f v = r := by
  cases x with
  | error fault => cases h
  | ok v => exact ⟨v, rfl, Except.ok.inj h⟩

end Outcome

end BucketWire

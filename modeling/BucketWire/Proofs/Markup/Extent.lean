import BucketWire.Proofs.Markup.Walk

/-!
# The extent of an element

The events of an element after its start go up to the first end that has no start among them. That
end closes the element. Which events these are does not depend on what they say, only on which of
them are starts and ends.

## Main definitions

* `Event.IsTag` — starts and ends of elements
* `Event.Closes` — the events up to the end of an element, and no more
* `Cursor.path` — the elements whose ends are still to be reported

## Main results

* `Event.Closes.append`, `Event.Closes.exists_append` — an element within another one
* `Cursor.Walk.path_of_closes` — past an element the same elements are open as before it
-/

namespace BucketWire

namespace Event

/-- Starts and ends of elements. -/
def IsTag : Event → Prop
  | start _ => True
  | close _ => True
  | _ => False

/-- The events go up to the end of the element that is open around `depth` others, and stop
there. -/
inductive Closes : Nat → List Event → Prop where
  | last (name : Bytes) : Closes 0 [close name]
  | leave {depth : Nat} {es : List Event} (name : Bytes) :
    Closes depth es → Closes (depth + 1) (close name :: es)
  | enter {depth : Nat} {es : List Event} (name : Bytes) :
    Closes (depth + 1) es → Closes depth (start name :: es)
  | stay {depth : Nat} {e : Event} {es : List Event} :
    ¬ e.IsTag → Closes depth es → Closes depth (e :: es)

variable {depth : Nat} {e : Event} {es es' : List Event}

theorem Closes.gap_append {gap : List Event} (hgap : ∀ e ∈ gap, ¬ e.IsTag)
    (h : Closes depth es) : Closes depth (gap ++ es) := by
  induction gap with
  | nil => exact h
  | cons e gap ih => exact .stay (hgap e (by simp)) (ih fun e he => hgap e (by simp [he]))

/-- An element ends with a tag. -/
theorem Closes.exists_getLast? (h : Closes depth es) : ∃ name, es.getLast? = some (close name) := by
  induction h with
  | last name => exact ⟨name, rfl⟩
  | leave _ _ ih | enter _ _ ih | stay _ _ ih =>
    obtain ⟨name, ih⟩ := ih
    exact ⟨name, by rw [List.getLast?_cons, ih]; rfl⟩

/-- After an element within another one comes the rest of the outer one. -/
theorem Closes.append (h : Closes depth es) {outer : Nat} (h' : Closes outer es') :
    Closes (depth + outer + 1) (es ++ es') := by
  induction h with
  | last name => exact .leave name (by rwa [Nat.zero_add])
  | @leave depth es name _ ih =>
    rw [show depth + 1 + outer + 1 = depth + outer + 1 + 1 by omega]
    exact .leave name ih
  | @enter depth es name _ ih =>
    rw [show depth + 1 + outer + 1 = depth + outer + 1 + 1 by omega] at ih
    exact .enter name ih
  | stay he _ ih => exact .stay he ih

/-- The rest of an outer element starts with the rest of the element within it. -/
theorem Closes.exists_append (inner outer : Nat) (h : Closes (inner + outer + 1) es) :
    ∃ es₁ es₂, es = es₁ ++ es₂ ∧ Closes inner es₁ ∧ Closes outer es₂ := by
  generalize hdepth : inner + outer + 1 = depth at h
  induction h generalizing inner with
  | last => omega
  | @leave depth es name h ih =>
    cases inner with
    | zero =>
      obtain rfl : outer = depth := by omega
      exact ⟨[close name], es, rfl, .last name, h⟩
    | succ inner =>
      obtain ⟨es₁, es₂, rfl, h₁, h₂⟩ := ih inner (by omega)
      exact ⟨close name :: es₁, es₂, rfl, .leave name h₁, h₂⟩
  | enter name _ ih =>
    obtain ⟨es₁, es₂, rfl, h₁, h₂⟩ := ih (inner + 1) (by omega)
    exact ⟨start name :: es₁, es₂, rfl, .enter name h₁, h₂⟩
  | stay he _ ih =>
    obtain ⟨es₁, es₂, rfl, h₁, h₂⟩ := ih inner hdepth
    exact ⟨_ :: es₁, es₂, rfl, .stay he h₁, h₂⟩

end Event

namespace Cursor

variable {c c' : Cursor} {e : Event} {es : List Event} {depth : Nat}

/-- The elements whose ends are still to be reported, innermost first. -/
def path (c : Cursor) : List Bytes := c.owed.toList ++ c.opened

theorem path_of_next_start {name : Bytes} (h : c.next = .ok (some (.start name, c'))) :
    c'.path = name :: c.path := by
  obtain ⟨_, -, he, -⟩ | ⟨rest, token, howed, -, hr⟩ := next_cases h
  · cases he
  · cases token with
    | startTag name' selfClosing =>
      cases selfClosing <;>
        (simp only [report, Except.ok.injEq, Prod.mk.injEq, Event.start.injEq] at hr
         obtain ⟨rfl, rfl⟩ := hr
         simp [path, howed])
    | endTag name' =>
      obtain ⟨-, -, -, -, he, -⟩ := close_cases hr
      cases he
    | _ => simp [report] at hr

theorem path_of_next_close {name : Bytes} (h : c.next = .ok (some (.close name, c'))) :
    (∃ expected, c.path = expected :: c'.path) ∧ c'.owed = none := by
  obtain ⟨name', howed, -, rfl⟩ | ⟨rest, token, howed, -, hr⟩ := next_cases h
  · exact ⟨⟨name', by simp [path, howed]⟩, rfl⟩
  · cases token with
    | startTag name' selfClosing => cases selfClosing <;> simp [report] at hr
    | endTag name' =>
      obtain ⟨expected, outer, hopened, -, -, rfl⟩ := close_cases hr
      exact ⟨⟨expected, by simp [path, howed, hopened]⟩, howed⟩
    | _ => simp [report] at hr

theorem path_of_next_of_not_isTag (h : c.next = .ok (some (e, c'))) (he : ¬ e.IsTag) :
    c'.path = c.path ∧ c'.owed = none := by
  obtain ⟨_, -, rfl, -⟩ | ⟨rest, token, howed, -, hr⟩ := next_cases h
  · exact absurd trivial he
  · cases token with
    | startTag name' selfClosing =>
      cases selfClosing <;>
        (simp only [report, Except.ok.injEq, Prod.mk.injEq] at hr
         obtain ⟨rfl, -⟩ := hr
         exact absurd trivial he)
    | endTag name' =>
      obtain ⟨-, -, -, -, rfl, -⟩ := close_cases hr
      exact absurd trivial he
    | _ =>
      simp only [report, Except.ok.injEq, Prod.mk.injEq] at hr
      rw [← hr.2]
      exact ⟨by simp [path, howed], howed⟩

/-- Events without a tag leave the open elements as they are. -/
theorem Walk.path_of_not_isTag (h : Walk c es c') (hes : ∀ e ∈ es, ¬ e.IsTag) :
    c'.path = c.path := by
  induction h with
  | refl c => rfl
  | step hnext _ ih =>
    rw [ih fun e he => hes e (by simp [he])]
    exact (path_of_next_of_not_isTag hnext (hes _ (by simp))).1

/-- Past the end of an element those elements are open that were open around it, and no end is
owed. -/
theorem Walk.path_of_closes (h : Walk c es c') (hes : Event.Closes depth es) :
    c'.path = c.path.drop (depth + 1) ∧ c'.owed = none := by
  induction hes generalizing c with
  | last name =>
    obtain _ | ⟨hnext, hwalk⟩ := h
    cases hwalk
    obtain ⟨⟨expected, hpath⟩, howed⟩ := path_of_next_close hnext
    exact ⟨by rw [hpath]; rfl, howed⟩
  | leave name _ ih =>
    obtain _ | ⟨hnext, hwalk⟩ := h
    obtain ⟨⟨expected, hpath⟩, -⟩ := path_of_next_close hnext
    rw [hpath, List.drop_succ_cons]
    exact ih hwalk
  | enter name _ ih =>
    obtain _ | ⟨hnext, hwalk⟩ := h
    have := ih hwalk
    rwa [path_of_next_start hnext, List.drop_succ_cons] at this
  | stay he _ ih =>
    obtain _ | ⟨hnext, hwalk⟩ := h
    rw [← (path_of_next_of_not_isTag hnext he).1]
    exact ih hwalk

end Cursor

end BucketWire

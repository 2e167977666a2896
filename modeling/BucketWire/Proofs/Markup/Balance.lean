import BucketWire.Proofs.Markup.Extent

/-!
# Counting starts and ends

The extent of an element can be found by counting: it goes up to the first event by which the ends
outnumber the starts by one. There is at most one such event, and a cursor always comes to the same
place with it.

## Main definitions

* `Event.surplus` — by how many the ends among events outnumber the starts
* `Event.IsExtent` — the events up to the first by which the ends outnumber the starts by one
* `Cursor.BreaksOff` — a document ends, or cannot be read on, within an element

## Main results

* `Event.closes_iff` — events up to the end of an element that is open around others
* `Event.isExtent_iff_closes` — the extent of an element is what closes it
* `Cursor.Walk.eq_of_closes` — there is one walk to the end of an element
* `Cursor.exists_isExtent_or_breaksOff` — an element has its extent, or the document breaks off
-/

namespace BucketWire

namespace Event

/-- Starts of elements. -/
def isStart : Event → Bool
  | start _ => true
  | _ => false

/-- Ends of elements. -/
def isClose : Event → Bool
  | close _ => true
  | _ => false

/-- By how many the ends among `es` outnumber the starts. -/
def surplus (es : List Event) : Int := es.countP isClose - es.countP isStart

/-- The ends among `es` outnumber the starts by `n`, and do so for no smaller front of `es`. -/
structure FirstReaches (n : Int) (es : List Event) : Prop where
  surplus_eq : surplus es = n
  eq_of_surplus_eq {front : List Event} (hfront : front <+: es) (h : surplus front = n) : front = es

/-- The events of an element after its start: those up to the first by which the ends outnumber the
starts by one. -/
def IsExtent (es : List Event) : Prop := FirstReaches 1 es

variable {n : Int} {depth : Nat} {e : Event} {es es' : List Event}

@[simp] theorem surplus_nil : surplus [] = 0 := rfl

theorem surplus_cons (e : Event) (es : List Event) : surplus (e :: es) = surplus [e] + surplus es := by
  simp only [surplus, List.countP_cons, List.countP_nil]
  push_cast
  omega

theorem firstReaches_zero : FirstReaches 0 es ↔ es = [] := by
  constructor
  · intro h
    exact (h.eq_of_surplus_eq List.nil_prefix rfl).symm
  · rintro rfl
    exact ⟨rfl, fun hfront _ => List.prefix_nil.mp hfront⟩

/-- After the first event, as much is still to be reached as it does not make up for. -/
theorem firstReaches_cons (hn : n ≠ 0) :
    FirstReaches n (e :: es) ↔ FirstReaches (n - surplus [e]) es := by
  constructor
  · rintro ⟨hes, hleast⟩
    rw [surplus_cons] at hes
    refine ⟨by omega, fun {front} hfront h => ?_⟩
    have hcons : e :: front <+: e :: es := (List.prefix_cons_inj e).mpr hfront
    refine (List.cons.inj (hleast hcons ?_)).2
    rw [surplus_cons]
    omega
  · rintro ⟨hes, hleast⟩
    refine ⟨by rw [surplus_cons]; omega, fun {front} hfront h => ?_⟩
    obtain rfl | ⟨front, rfl, hrest⟩ := List.prefix_cons_iff.mp hfront
    · exact absurd h.symm hn
    · rw [surplus_cons] at h
      exact congrArg (e :: ·) (hleast hrest (by omega))

/-! ### Closing elements -/

theorem closes_start_cons {name : Bytes} :
    Closes depth (start name :: es) ↔ Closes (depth + 1) es := by
  refine ⟨fun h => ?_, .enter name⟩
  cases h with
  | enter _ h => exact h
  | stay he => exact absurd trivial he

theorem closes_zero_close_cons {name : Bytes} : Closes 0 (close name :: es) ↔ es = [] := by
  constructor
  · intro h
    cases h with
    | last => rfl
    | stay he => exact absurd trivial he
  · rintro rfl
    exact .last name

theorem closes_succ_close_cons {name : Bytes} :
    Closes (depth + 1) (close name :: es) ↔ Closes depth es := by
  refine ⟨fun h => ?_, .leave name⟩
  cases h with
  | leave _ h => exact h
  | stay he => exact absurd trivial he

theorem closes_cons_of_not_isTag (he : ¬ e.IsTag) : Closes depth (e :: es) ↔ Closes depth es := by
  refine ⟨fun h => ?_, .stay he⟩
  cases h with
  | stay _ h => exact h
  | _ => exact absurd trivial he

theorem not_closes_nil : ¬ Closes depth [] := nofun

/-- An event closes the element, or leaves as much to be closed whatever comes after it. -/
theorem closes_cons_cases (depth : Nat) (e : Event) :
    Closes depth [e] ∨ ∃ depth', ∀ es, Closes depth (e :: es) ↔ Closes depth' es := by
  cases e with
  | start name => exact .inr ⟨depth + 1, fun _ => closes_start_cons⟩
  | close name =>
    cases depth with
    | zero => exact .inl (.last name)
    | succ depth => exact .inr ⟨depth, fun _ => closes_succ_close_cons⟩
  | _ => exact .inr ⟨depth, fun _ => closes_cons_of_not_isTag id⟩

/-- The events up to the end of the element that is open around `depth` others are those up to the
first by which the ends outnumber the starts by more than `depth`. -/
theorem closes_iff : Closes depth es ↔ FirstReaches (depth + 1) es := by
  induction es generalizing depth with
  | nil =>
    refine ⟨nofun, fun h => ?_⟩
    have := h.surplus_eq
    rw [surplus_nil] at this
    omega
  | cons e es ih =>
    rw [firstReaches_cons (by omega)]
    cases e with
    | start name =>
      have hrest : (depth : Int) + 1 - surplus [start name] = ((depth + 1 : Nat) : Int) + 1 := by
        rw [show surplus [start name] = -1 from rfl]
        omega
      rw [hrest, ← ih, closes_start_cons]
    | close name =>
      have hone : surplus [close name] = 1 := rfl
      cases depth with
      | zero =>
        have hrest : ((0 : Nat) : Int) + 1 - surplus [close name] = 0 := rfl
        rw [hrest, firstReaches_zero, closes_zero_close_cons]
      | succ depth =>
        have hrest : ((depth + 1 : Nat) : Int) + 1 - surplus [close name] = (depth : Int) + 1 := by
          omega
        rw [hrest, ← ih, closes_succ_close_cons]
    | _ =>
      rw [closes_cons_of_not_isTag id, ih]
      exact iff_of_eq (congrArg (FirstReaches · es) (Int.sub_zero _).symm)

theorem isExtent_iff_closes : IsExtent es ↔ Closes 0 es := closes_iff.symm

end Event

/-! ### Walks to the end of an element -/

namespace Cursor

variable {c c' c'' : Cursor} {depth : Nat} {es es' : List Event}

/-- Before a start no end is owed. -/
theorem owed_of_next_start {name : Bytes} (h : c.next = .ok (some (.start name, c'))) :
    c.owed = none := by
  obtain ⟨_, -, he, -⟩ | ⟨_, _, howed, -⟩ := next_cases h
  · cases he
  · exact howed

theorem next_inj {e e' : Event} (h : c.next = .ok (some (e, c')))
    (h' : c.next = .ok (some (e', c''))) : e = e' ∧ c' = c'' :=
  Prod.mk.inj (Option.some.inj (Except.ok.inj (h.symm.trans h')))

theorem Walk.unique (h : Walk c es c') (h' : Walk c es c'') : c' = c'' := by
  induction h with
  | refl c =>
    cases h'
    rfl
  | step hnext _ ih =>
    obtain _ | ⟨hnext', hwalk⟩ := h'
    obtain ⟨-, rfl⟩ := next_inj hnext hnext'
    exact ih hwalk

theorem Walk.remaining_lt (h : Walk c es c') (hes : es ≠ []) : c'.remaining < c.remaining := by
  induction h with
  | refl c => exact absurd rfl hes
  | @step c c₁ c' e es hnext hrest ih =>
    have hlt := remaining_lt_of_next hnext
    cases hrest with
    | refl => exact hlt
    | step => exact (ih (List.cons_ne_nil _ _)).trans hlt

/-- Of two walks from one place, one goes on from the end of the other. -/
theorem Walk.prefix_or_prefix (h : Walk c es c') (h' : Walk c es' c'') :
    es <+: es' ∨ es' <+: es := by
  induction h generalizing es' with
  | refl c => exact .inl List.nil_prefix
  | step hnext _ ih =>
    cases h' with
    | refl => exact .inr List.nil_prefix
    | step hnext' hwalk =>
      obtain ⟨rfl, rfl⟩ := next_inj hnext hnext'
      simp only [List.prefix_cons_inj]
      exact ih hwalk

/-- There is one walk to the end of an element. -/
theorem Walk.eq_of_closes (h : Walk c es c') (h' : Walk c es' c'') (hes : Event.Closes depth es)
    (hes' : Event.Closes depth es') : es = es' ∧ c' = c'' := by
  have heq : es = es' := by
    rw [Event.closes_iff] at hes hes'
    rcases h.prefix_or_prefix h' with hpart | hpart
    · exact hes'.eq_of_surplus_eq hpart hes.surplus_eq
    · exact (hes.eq_of_surplus_eq hpart hes'.surplus_eq).symm
  subst heq
  exact ⟨rfl, h.unique h'⟩

/-! ### Elements that do not end -/

/-- To show something of every place it is enough to show it where nothing more is reported, and
before an event from all places that are nearer to the end. -/
@[elab_as_elim]
theorem next_induction {motive : Cursor → Prop} (c : Cursor)
    (broken : ∀ c fault, c.next = .error fault → motive c)
    (finished : ∀ c, c.next = .ok none → motive c)
    (step : ∀ c e c', c.next = .ok (some (e, c')) →
      (∀ c'' : Cursor, c''.remaining < c.remaining → motive c'') → motive c) : motive c := by
  induction hn : c.remaining using Nat.strongRecOn generalizing c with
  | _ n ih =>
    subst hn
    cases hnext : c.next with
    | error fault => exact broken c fault hnext
    | ok reported =>
      cases reported with
      | none => exact finished c hnext
      | some p => exact step c p.1 p.2 hnext fun c'' hlt => ih c''.remaining hlt c'' rfl

/-- From `c` on the document ends, or cannot be read on, before the extent of an element is
complete. -/
def BreaksOff (c : Cursor) : Prop :=
  ∃ es c', Walk c es c' ∧ (∀ e c'', c'.next ≠ .ok (some (e, c''))) ∧
    ∀ front, front <+: es → ¬ Event.IsExtent front

/-- No walk leads past a place where nothing more is reported. -/
theorem Walk.prefix_of_stuck (h : Walk c es c') (hstuck : ∀ e c'', c'.next ≠ .ok (some (e, c'')))
    (h' : Walk c es' c'') : es' <+: es := by
  induction h generalizing es' with
  | refl c =>
    cases h' with
    | refl => exact List.prefix_rfl
    | step hnext => exact absurd hnext (hstuck _ _)
  | step hnext _ ih =>
    cases h' with
    | refl => exact List.nil_prefix
    | step hnext' hrest =>
      obtain ⟨rfl, rfl⟩ := next_inj hnext hnext'
      exact (List.prefix_cons_inj _).mpr (ih hstuck hrest)

/-- The events from `c` on go up to the end of the element that is open around `depth` others, or
the document breaks off before. -/
theorem exists_closes_or_stuck (c : Cursor) (depth : Nat) :
    (∃ es c', Event.Closes depth es ∧ Walk c es c') ∨
      ∃ es c', Walk c es c' ∧ (∀ e c'', c'.next ≠ .ok (some (e, c''))) ∧
        ∀ front, front <+: es → ¬ Event.Closes depth front := by
  have hnil {depth : Nat} (front : List Event) (hfront : front <+: []) :
      ¬ Event.Closes depth front := by
    rw [List.prefix_nil.mp hfront]
    exact Event.not_closes_nil
  induction c using Cursor.next_induction generalizing depth with
  | broken c fault hnext =>
    exact .inr ⟨[], c, .refl c, fun e c'' h => by simp [hnext] at h, hnil⟩
  | finished c hnext =>
    exact .inr ⟨[], c, .refl c, fun e c'' h => by simp [hnext] at h, hnil⟩
  | step c e c₁ hnext ih =>
    rcases Event.closes_cons_cases depth e with hlast | ⟨depth', hcloses⟩
    · exact .inl ⟨[e], c₁, hlast, .single hnext⟩
    · rcases ih c₁ (remaining_lt_of_next hnext) depth' with
        ⟨es, c', hes, hwalk⟩ | ⟨es, c', hwalk, hstuck, hnone⟩
      · exact .inl ⟨e :: es, c', (hcloses es).mpr hes, .step hnext hwalk⟩
      · refine .inr ⟨e :: es, c', .step hnext hwalk, hstuck, fun front hfront h => ?_⟩
        obtain rfl | ⟨front, rfl, hrest⟩ := List.prefix_cons_iff.mp hfront
        · exact Event.not_closes_nil h
        · exact hnone front hrest ((hcloses front).mp h)

/-- The events from `c` on make up the extent of an element, or the document breaks off before. -/
theorem exists_isExtent_or_breaksOff (c : Cursor) :
    (∃ es c', Event.IsExtent es ∧ Walk c es c') ∨ c.BreaksOff := by
  simpa only [BreaksOff, Event.isExtent_iff_closes] using c.exists_closes_or_stuck 0

theorem BreaksOff.not_isExtent (h : c.BreaksOff) (hwalk : Walk c es c') : ¬ Event.IsExtent es := by
  obtain ⟨whole, c₁, hwhole, hstuck, hnone⟩ := h
  exact hnone es (hwhole.prefix_of_stuck hstuck hwalk)

end Cursor

end BucketWire

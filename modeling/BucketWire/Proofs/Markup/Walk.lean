import BucketWire.Markup.Tape
import BucketWire.Proofs.Markup.Boundary

/-!
# Walks through a document

A walk is a stretch of a document that a cursor has read. What a cursor reports on a walk depends on
the bytes of the stretch alone, so the same stretch reads in the same way in any document and within
any open elements. If the stretch is cut short, the cursor reports fewer events and no tag besides.

## Main definitions

* `Tape.prepend` — events in front of a tape
* `Cursor.Walk` — the events that a cursor reports between two places
* `Cursor.embed` — a cursor within further open elements, with other bytes before it

## Main results

* `Cursor.Walk.tape_eq`, `Cursor.exists_walk_of_tape_eq` — walks and the fronts of tapes
* `Cursor.Walk.exists_taken` — a walk reads its own bytes, whatever surrounds them
* `Cursor.Walk.tape_part` — the tape of a stretch that is cut short
-/

namespace BucketWire

open Markup (Fault)

namespace Tape

/-- The events `es` in front of `tape`. -/
def prepend (es : List Event) (tape : Tape) : Tape := es.foldr .event tape

@[simp] theorem prepend_nil (tape : Tape) : prepend [] tape = tape := rfl

@[simp] theorem prepend_cons (e : Event) (es : List Event) (tape : Tape) :
    prepend (e :: es) tape = .event e (prepend es tape) := rfl

theorem prepend_append (es es' : List Event) (tape : Tape) :
    prepend (es ++ es') tape = prepend es (prepend es' tape) := by
  rw [prepend, List.foldr_append]
  rfl

/-- The end of a tape without any tag: the end or a fault, or a last run of text. -/
def IsTagless : Tape → Prop
  | finished => True
  | broken _ => True
  | event (.text _) finished => True
  | event _ _ => False

end Tape

namespace Cursor

/-! ### Walks -/

/-- On the way from one place to another the cursor reports these events. -/
inductive Walk : Cursor → List Event → Cursor → Prop where
  | refl (c : Cursor) : Walk c [] c
  | step {c c' c'' : Cursor} {e : Event} {es : List Event} :
    c.next = .ok (some (e, c')) → Walk c' es c'' → Walk c (e :: es) c''

variable {c c' c'' : Cursor} {e : Event} {es es' : List Event}

theorem Walk.trans (h : Walk c es c') (h' : Walk c' es' c'') : Walk c (es ++ es') c'' := by
  induction h with
  | refl c => exact h'
  | step hnext _ ih => exact .step hnext (ih h')

theorem Walk.single (h : c.next = .ok (some (e, c'))) : Walk c [e] c' := .step h (.refl c')

/-- The tape of a cursor holds what the cursor reports on any walk. -/
theorem Walk.tape_eq (h : Walk c es c') : c.tape = Tape.prepend es c'.tape := by
  induction h with
  | refl c => rfl
  | step hnext _ ih => rw [Cursor.tape_eq, hnext, Tape.prepend_cons, ← ih]

theorem exists_walk_of_tape_eq {tape : Tape} (h : c.tape = Tape.prepend es tape) :
    ∃ c', Walk c es c' ∧ c'.tape = tape := by
  induction es generalizing c with
  | nil => exact ⟨c, .refl c, h⟩
  | cons e es ih =>
    rw [Cursor.tape_eq, Tape.prepend_cons] at h
    split at h
    · cases h
    · cases h
    · rename_i e' c' hnext
      simp only [Tape.event.injEq] at h
      obtain ⟨rfl, h⟩ := h
      obtain ⟨c'', hwalk, htape⟩ := ih h
      exact ⟨c'', .step hnext hwalk, htape⟩

/-! ### One event -/

/-- An event is the end that is owed, or what a token stands for. -/
theorem next_cases (h : c.next = .ok (some (e, c'))) :
    (∃ name, c.owed = some name ∧ e = .close name ∧ c' = { c with owed := none }) ∨
      ∃ rest token, c.owed = none ∧ Token.scan c.rest = .ok (some (token, rest)) ∧
        c.report rest token = .ok (e, c') := by
  rw [next] at h
  split at h
  · rename_i name howed
    simp only [Except.ok.injEq, Option.some.injEq, Prod.mk.injEq] at h
    exact .inl ⟨name, howed, h.1.symm, h.2.symm⟩
  · rename_i howed
    split at h
    · cases h
    · cases h
    · rename_i token rest hscan
      cases hr : c.report rest token with
      | error fault => simp [hr, Except.map] at h
      | ok p =>
        simp only [hr, Except.map, Except.ok.injEq, Option.some.injEq] at h
        subst h
        exact .inr ⟨rest, token, howed, hscan, hr⟩

theorem next_of_owed {name : Bytes} (h : c.owed = some name) :
    c.next = .ok (some (.close name, { c with owed := none })) := by
  rw [next, h]

theorem next_of_scan {rest : Bytes} {token : Token} (howed : c.owed = none)
    (hscan : Token.scan c.rest = .ok (some (token, rest))) :
    c.next = (c.report rest token).map some := by
  rw [next, howed]
  simp only [hscan]

/-- The place after the end tag `name` within the element `expected`. -/
theorem close_of_opened {name expected rest : Bytes} {outer : List Bytes}
    (hopened : c.opened = expected :: outer) (hname : c.checkNames → name = expected) :
    c.close name rest = .ok (.close name, { c with rest, opened := outer }) := by
  rw [close, hopened]
  simp only
  rw [if_neg (by rintro ⟨hcheck, hne⟩; exact hne (hname hcheck))]

theorem close_cases {name rest : Bytes} (h : c.close name rest = .ok (e, c')) :
    ∃ expected outer, c.opened = expected :: outer ∧ (c.checkNames → name = expected) ∧
      e = .close name ∧ c' = { c with rest, opened := outer } := by
  rw [close] at h
  split at h
  · cases h
  · rename_i expected outer hopened
    split at h
    · cases h
    · rename_i hname
      simp only [Except.ok.injEq, Prod.mk.injEq] at h
      refine ⟨expected, outer, hopened, fun hcheck => ?_, h.1.symm, h.2.symm⟩
      by_contra hne
      exact hname ⟨hcheck, hne⟩

/-- `c` within the open elements `outer`, with `bytes` still to be read. -/
def embed (c : Cursor) (outer : List Bytes) (bytes : Bytes) : Cursor :=
  { c with rest := bytes, opened := c.opened ++ outer }

/-- What a token is reported as does not depend on what surrounds the open elements. -/
theorem report_embed {rest : Bytes} {token : Token} (h : c.report rest token = .ok (e, c'))
    (outer : List Bytes) (bytes more : Bytes) :
    (c.embed outer bytes).report more token = .ok (e, c'.embed outer more) := by
  cases token with
  | endTag name =>
    obtain ⟨expected, outer', hopened, hname, rfl, rfl⟩ := close_cases h
    have hopened' : (c.embed outer bytes).opened = expected :: (outer' ++ outer) := by
      rw [embed, hopened, List.cons_append]
    exact close_of_opened hopened' hname
  | startTag name selfClosing =>
    cases selfClosing <;>
      (simp only [report, Except.ok.injEq, Prod.mk.injEq] at h
       obtain ⟨rfl, rfl⟩ := h
       rfl)
  | _ =>
    simp only [report, Except.ok.injEq, Prod.mk.injEq] at h
    obtain ⟨rfl, rfl⟩ := h
    rfl

theorem rest_of_report {rest : Bytes} {token : Token} (h : c.report rest token = .ok (e, c')) :
    c'.rest = rest := by
  cases token with
  | endTag name =>
    obtain ⟨expected, outer', -, -, -, rfl⟩ := close_cases h
    rfl
  | startTag name selfClosing =>
    cases selfClosing <;>
      (simp only [report, Except.ok.injEq, Prod.mk.injEq] at h
       rw [← h.2])
  | _ =>
    simp only [report, Except.ok.injEq, Prod.mk.injEq] at h
    rw [← h.2]

theorem checkNames_of_next (h : c.next = .ok (some (e, c'))) : c'.checkNames = c.checkNames := by
  obtain ⟨name, -, -, rfl⟩ | ⟨rest, token, -, -, hr⟩ := next_cases h
  · rfl
  · cases token with
    | endTag name =>
      obtain ⟨-, -, -, -, -, rfl⟩ := close_cases hr
      rfl
    | startTag name selfClosing =>
      cases selfClosing <;>
        (simp only [report, Except.ok.injEq, Prod.mk.injEq] at hr
         rw [← hr.2])
    | _ =>
      simp only [report, Except.ok.injEq, Prod.mk.injEq] at hr
      rw [← hr.2]

theorem Walk.checkNames_eq (h : Walk c es c') : c'.checkNames = c.checkNames := by
  induction h with
  | refl c => rfl
  | step hnext _ ih => rw [ih, checkNames_of_next hnext]

/-- The event of a run of text, and of no other token, is a text. -/
theorem eq_text_of_report {rest raw : Bytes} {token : Token}
    (h : c.report rest token = .ok (.text raw, c')) : token = .text raw := by
  cases token with
  | text raw' =>
    simp only [report, Except.ok.injEq, Prod.mk.injEq, Event.text.injEq] at h
    rw [h.1]
  | endTag name =>
    obtain ⟨-, -, -, -, he, -⟩ := close_cases h
    cases he
  | startTag name selfClosing => cases selfClosing <;> simp [report] at h
  | _ => simp [report] at h

/-- The event of a start tag, and of no other token, is a start. -/
theorem eq_startTag_of_report {name rest : Bytes} {token : Token}
    (h : c.report rest token = .ok (.start name, c')) :
    ∃ selfClosing, token = .startTag name selfClosing := by
  cases token with
  | startTag name' selfClosing =>
    refine ⟨selfClosing, ?_⟩
    cases selfClosing <;>
      (simp only [report, Except.ok.injEq, Prod.mk.injEq, Event.start.injEq] at h
       rw [h.1])
  | endTag name' =>
    obtain ⟨-, -, -, -, he, -⟩ := close_cases h
    cases he
  | _ => simp [report] at h

/-- A run of text goes on to the next sign of markup or to the end. -/
theorem endsText_of_next {raw : Bytes} (h : c.next = .ok (some (.text raw, c'))) :
    c.owed = none ∧ c.rest = raw ++ c'.rest ∧ c' = { c with rest := c'.rest } ∧
      Token.scan c.rest = .ok (some (.text raw, c'.rest)) := by
  obtain ⟨name, -, he, -⟩ | ⟨rest, token, howed, hscan, hr⟩ := next_cases h
  · cases he
  · obtain rfl := eq_text_of_report hr
    simp only [report, Except.ok.injEq, Prod.mk.injEq] at hr
    obtain ⟨-, rfl⟩ := hr
    exact ⟨howed, (Token.scan_eq_text_iff.mp hscan).1, rfl, hscan⟩

/-- One event is read from bytes of its own. Only a run of text minds what follows it. -/
theorem exists_taken_of_next (h : c.next = .ok (some (e, c'))) :
    ∃ taken, c.rest = taken ++ c'.rest ∧ ∀ outer more,
      ((∃ raw, e = .text raw) → Token.EndsText more) →
        (c.embed outer (taken ++ more)).next = .ok (some (e, c'.embed outer more)) := by
  obtain ⟨name, howed, rfl, rfl⟩ | ⟨rest, token, howed, hscan, hr⟩ := next_cases h
  · exact ⟨[], rfl, fun outer more _ => next_of_owed howed⟩
  · have hrest := rest_of_report hr
    subst hrest
    by_cases htext : ∃ raw, token = .text raw
    · obtain ⟨raw, rfl⟩ := htext
      obtain ⟨heq, hne, hraw, -⟩ := Token.scan_eq_text_iff.mp hscan
      refine ⟨raw, heq, fun outer more hmore => ?_⟩
      have he : e = .text raw := by
        simp only [report, Except.ok.injEq, Prod.mk.injEq] at hr
        exact hr.1.symm
      have hscan' : Token.scan (c.embed outer (raw ++ more)).rest =
          .ok (some (.text raw, more)) :=
        Token.scan_eq_text_iff.mpr ⟨rfl, hne, hraw, hmore ⟨raw, he⟩⟩
      have howed' : (c.embed outer (raw ++ more)).owed = none := howed
      rw [next_of_scan howed' hscan', report_embed hr]
      rfl
    · obtain ⟨taken, heq, htaken⟩ := Token.stopsAt_scan hscan (by simpa using htext)
      refine ⟨taken, heq, fun outer more _ => ?_⟩
      have hscan' : Token.scan (c.embed outer (taken ++ more)).rest = .ok (some (token, more)) :=
        htaken more
      have howed' : (c.embed outer (taken ++ more)).owed = none := howed
      rw [next_of_scan howed' hscan', report_embed hr]
      rfl

/-- A run of text is not followed by another one. -/
theorem endsText_of_next_text {raw : Bytes} (h : c.next = .ok (some (.text raw, c'))) :
    Token.EndsText c'.rest := by
  obtain ⟨-, -, -, hscan⟩ := endsText_of_next h
  exact (Token.scan_eq_text_iff.mp hscan).2.2.2

/-- A start takes up its sign of markup. -/
theorem lessThan_mem_of_next_start {name taken : Bytes} (h : c.next = .ok (some (.start name, c')))
    (hrest : c.rest = taken ++ c'.rest) : Ascii.lessThan ∈ taken := by
  obtain ⟨_, -, he, -⟩ | ⟨rest, token, -, hscan, hr⟩ := next_cases h
  · cases he
  · obtain ⟨selfClosing, rfl⟩ := eq_startTag_of_report hr
    rw [rest_of_report hr] at hrest
    have hlt := Token.length_lt_of_scan hscan
    have hhead := Token.head?_of_scan_startTag hscan
    rw [hrest] at hlt hhead
    cases taken with
    | nil => simp at hlt
    | cons b taken => simp_all

/-! ### Stretches of bytes -/

/-- Every event on a walk brings the end nearer. -/
theorem Walk.remaining_le (h : Walk c es c') : c'.remaining + es.length ≤ c.remaining := by
  induction h with
  | refl c => simp
  | step hnext _ ih =>
    have := remaining_lt_of_next hnext
    rw [List.length_cons]
    omega

/-- A walk reads bytes of its own, in the same way within any open elements and before any bytes
that do not go on with a run of text at the end of the walk. -/
theorem Walk.exists_taken (h : Walk c es c') :
    ∃ taken, c.rest = taken ++ c'.rest ∧ ∀ outer more,
      ((∃ raw, es.getLast? = some (.text raw)) → Token.EndsText more) →
        Walk (c.embed outer (taken ++ more)) es (c'.embed outer more) := by
  induction h with
  | refl c => exact ⟨[], rfl, fun outer more _ => .refl _⟩
  | @step c c₁ c' e es hnext hwalk ih =>
    obtain ⟨taken, heq, htaken⟩ := exists_taken_of_next hnext
    obtain ⟨taken', heq', htaken'⟩ := ih
    refine ⟨taken ++ taken', by rw [heq, heq', List.append_assoc], fun outer more hmore => ?_⟩
    rw [List.append_assoc]
    refine .step (htaken outer (taken' ++ more) ?_) (htaken' outer more ?_)
    · rintro ⟨raw, rfl⟩
      have hends : Token.EndsText taken' :=
        (endsText_of_next_text hnext).of_part (heq' ▸ List.prefix_append _ _)
      cases taken' with
      | cons b taken' => exact Token.endsText_cons_iff.mpr (Token.endsText_cons_iff.mp hends)
      | nil =>
        -- Nothing follows the text, so it is the last event.
        have howed : c₁.owed = none := by
          rw [(endsText_of_next hnext).2.2.1]
          exact (endsText_of_next hnext).1
        have hle := hwalk.remaining_le
        simp only [remaining, howed, heq', List.nil_append] at hle
        obtain rfl : es = [] := by
          rw [← List.length_eq_zero_iff]
          simp at hle
          omega
        exact hmore ⟨raw, rfl⟩
    · rintro ⟨raw, hraw⟩
      refine hmore ⟨raw, ?_⟩
      rw [List.getLast?_cons, hraw]
      rfl

/-- The stretch of a walk that ends with a tag reads as it does wherever it stands. -/
theorem Walk.embed {taken : Bytes} (h : Walk c es c') (hrest : c.rest = taken ++ c'.rest)
    (hlast : ∀ raw, es.getLast? ≠ some (.text raw)) (outer : List Bytes) (more : Bytes) :
    Walk (c.embed outer (taken ++ more)) es (c'.embed outer more) := by
  obtain ⟨taken', heq, htaken⟩ := h.exists_taken
  obtain rfl : taken = taken' := List.append_cancel_right (hrest.symm.trans heq)
  exact htaken outer more fun ⟨raw, hraw⟩ => absurd hraw (hlast raw)

/-- A walk past a start takes up a sign of markup. -/
theorem Walk.lessThan_mem {taken name : Bytes} (h : Walk c es c') (hname : .start name ∈ es)
    (hrest : c.rest = taken ++ c'.rest) : Ascii.lessThan ∈ taken := by
  induction h generalizing taken with
  | refl c => simp at hname
  | @step c c₁ c' e es hnext hwalk ih =>
    obtain ⟨taken₁, heq, -⟩ := exists_taken_of_next hnext
    obtain ⟨taken₂, heq', -⟩ := hwalk.exists_taken
    obtain rfl : taken = taken₁ ++ taken₂ := by
      refine List.append_cancel_right (hrest.symm.trans ?_)
      rw [heq, heq', List.append_assoc]
    rw [List.mem_append]
    rcases List.mem_cons.mp hname with rfl | hname
    · exact .inl (lessThan_mem_of_next_start hnext heq)
    · exact .inr (ih hname heq')

/-! ### Stretches that are cut short -/

theorem embed_nil (bytes : Bytes) : c.embed [] bytes = { c with rest := bytes } := by
  rw [embed, List.append_nil]

theorem tape_eq_finished (howed : c.owed = none) (h : Token.scan c.rest = .ok none) :
    c.tape = .finished := by
  rw [Cursor.tape_eq, next, howed]
  simp only [h]

/-- At the end of a document nothing is left to be read. -/
theorem eq_nil_of_tape_eq_finished (h : c.tape = .finished) : c.owed = none ∧ c.rest = [] := by
  rw [Cursor.tape_eq] at h
  cases howed : c.owed with
  | some name => simp [next_of_owed howed] at h
  | none =>
    refine ⟨rfl, ?_⟩
    rw [next, howed] at h
    cases hrest : c.rest with
    | nil => rfl
    | cons b bytes =>
      simp only [hrest] at h
      cases hscan : Token.scan (b :: bytes) with
      | error fault => simp [hscan] at h
      | ok found =>
        cases found with
        | none => exact absurd hscan Token.scan_cons_ne_none
        | some p =>
          simp only [hscan] at h
          cases hr : c.report p.2 p.1 <;> simp [hr, Except.map] at h

theorem tape_eq_broken {fault : Fault} (howed : c.owed = none)
    (h : Token.scan c.rest = .error fault) : c.tape = .broken fault := by
  rw [Cursor.tape_eq, next, howed]
  simp only [h]

/-- A token that is cut short is no token, or it is a shorter run of text. -/
theorem tape_part_of_next {part : Bytes} (h : c.next = .ok (some (e, c')))
    (hpart : part <+: c.rest) (hlt : part.length + c'.rest.length < c.rest.length) :
    (Cursor.tape { c with rest := part }).IsTagless := by
  obtain ⟨name, -, -, rfl⟩ | ⟨rest, token, howed, hscan, hr⟩ := next_cases h
  · have : part.length + c.rest.length < c.rest.length := hlt
    omega
  · rw [rest_of_report hr] at hlt
    have howed' : ({ c with rest := part } : Cursor).owed = none := howed
    obtain hnone | ⟨fault, hfault⟩ | ⟨raw, hraw⟩ := Token.scan_part hscan hpart hlt
    · rw [tape_eq_finished howed' hnone]
      trivial
    · rw [tape_eq_broken howed' hfault]
      trivial
    · have hnext : ({ c with rest := part } : Cursor).next =
          .ok (some (.text raw, { c with rest := [] })) := by
        rw [next_of_scan howed' hraw]
        rfl
      have hend : ({ c with rest := [] } : Cursor).tape = .finished := tape_eq_finished howed rfl
      rw [(Walk.single hnext).tape_eq, hend]
      trivial

/-- If a stretch is cut short, a cursor reports some of its events, but not all, and no tag
besides. -/
theorem Walk.tape_part {taken part : Bytes} (h : Walk c es c') (hrest : c.rest = taken ++ c'.rest)
    (hpart : part <+: taken) (hlt : part.length < taken.length) :
    ∃ es₁ e es₂ tape, es = es₁ ++ e :: es₂ ∧ tape.IsTagless ∧
      Cursor.tape { c with rest := part } = Tape.prepend es₁ tape := by
  induction h generalizing taken part with
  | refl c =>
    have := congrArg List.length hrest
    rw [List.length_append] at this
    omega
  | @step c c₁ c' e es hnext hwalk ih =>
    obtain ⟨taken₁, heq, htaken₁⟩ := exists_taken_of_next hnext
    obtain ⟨taken₂, heq', -⟩ := hwalk.exists_taken
    obtain rfl : taken = taken₁ ++ taken₂ := by
      refine List.append_cancel_right (hrest.symm.trans ?_)
      rw [heq, heq', List.append_assoc]
    rcases Nat.lt_or_ge part.length taken₁.length with hshort | hlong
    · -- The cut lies within the first token.
      have hpart' : part <+: c.rest := hpart.trans (hrest ▸ List.prefix_append _ _)
      have hlt' : part.length + c₁.rest.length < c.rest.length := by
        rw [heq, List.length_append]
        omega
      exact ⟨[], e, es, _, rfl, tape_part_of_next hnext hpart' hlt', rfl⟩
    · -- The first token is there as a whole, and the cut lies behind it.
      obtain ⟨part₂, rfl⟩ : taken₁ <+: part :=
        List.prefix_of_prefix_length_le (List.prefix_append _ _) hpart hlong
      have hpart₂ : part₂ <+: taken₂ := (List.prefix_append_right_inj taken₁).mp hpart
      have hlt₂ : part₂.length < taken₂.length := by
        simp only [List.length_append] at hlt
        omega
      obtain ⟨es₁, e', es₂, tape, rfl, htape, hprepend⟩ := ih heq' hpart₂ hlt₂
      have hstep := htaken₁ [] part₂ (by
        rintro ⟨raw, rfl⟩
        exact (endsText_of_next_text hnext).of_part
          (hpart₂.trans (heq' ▸ List.prefix_append _ _)))
      rw [embed_nil, embed_nil] at hstep
      refine ⟨e :: es₁, e', es₂, tape, rfl, htape, ?_⟩
      rw [(Walk.single hstep).tape_eq, hprepend]
      rfl

end Cursor

end BucketWire

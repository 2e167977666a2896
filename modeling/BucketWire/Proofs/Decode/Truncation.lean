import BucketWire.Decode.Shared
import BucketWire.Proofs.Decode.Extent
import BucketWire.Proofs.Markup.Document

/-!
# Complete documents

A document decodes up to the end of its root element, at a place that depends on the document and
not on what is decoded from it. Cut off before that place it does not decode at all, and what
follows that place is not looked at.

## Main definitions

* `Event.ClosesRoot` — the events up to the end of the root element

## Main results

* `Decoder.existsUnique_completeAt` — where a document that decodes is complete
-/

namespace BucketWire

open Event (Closes)
open Tape (prepend prepend_cons)

namespace Event

/-- The events go up to the end of the first element, and stop there. -/
def ClosesRoot (es : List Event) : Prop :=
  ∃ before name content, es = before ++ start name :: content ∧
    (∀ e ∈ before, ∀ name, e ≠ start name) ∧ Closes 0 content

end Event

namespace Decoder

variable {α : Type} {d : Decoder α} {settings : Settings} {document : Bytes}

/-! ### The root element -/

theorem enterRoot_prepend {before : List Event} (h : ∀ e ∈ before, ∀ name, e ≠ .start name)
    (name : Bytes) (tape : Tape) :
    enterRoot (prepend before (.event (.start name) tape)) = .ok tape := by
  induction before with
  | nil => rfl
  | cons e before ih =>
    rw [prepend_cons, enterRoot_of_ne_start (h e (by simp))]
    exact ih fun e he => h e (by simp [he])

theorem exists_of_enterRoot {tape rest : Tape} (h : enterRoot tape = .ok rest) :
    ∃ before name, (∀ e ∈ before, ∀ name, e ≠ .start name) ∧
      tape = prepend before (.event (.start name) rest) := by
  induction tape with
  | finished => simp [enterRoot] at h
  | broken fault => simp [enterRoot] at h
  | event e tape ih =>
    cases e with
    | start name =>
      simp only [enterRoot, Except.ok.injEq] at h
      subst h
      exact ⟨[], name, by simp, rfl⟩
    | _ =>
      obtain ⟨before, name, hbefore, rfl⟩ := ih h
      refine ⟨_ :: before, name, ?_, rfl⟩
      intro e he
      rcases List.mem_cons.mp he with rfl | he
      · simp
      · exact hbefore e he

/-- A document decodes to what the decoder makes of its root element. -/
theorem decode_of_tape {before es : List Event} {name : Bytes} {tape : Tape}
    (hbefore : ∀ e ∈ before, ∀ name, e ≠ .start name) (hes : Closes 0 es)
    (h : Tape.ofDocument settings.checkEndNames document =
      prepend before (.event (.start name) (prepend es tape))) :
    d.decode settings document = d.outcome settings.trimText es := by
  rw [decode, h, enterRoot_prepend hbefore]
  simp only [bind, Except.bind]
  rw [d.run_prepend settings.trimText hes]
  cases d.outcome settings.trimText es <;> rfl

/-- A document that decodes has a root element that is closed. -/
theorem exists_of_decode_eq_ok {a : α} (h : d.decode settings document = .ok a) :
    ∃ before name es tape, (∀ e ∈ before, ∀ name, e ≠ .start name) ∧ Closes 0 es ∧
      Tape.ofDocument settings.checkEndNames document =
        prepend before (.event (.start name) (prepend es tape)) := by
  rw [decode] at h
  cases hroot : enterRoot (Tape.ofDocument settings.checkEndNames document) with
  | error e => simp [hroot, bind, Except.bind] at h
  | ok rest =>
    obtain ⟨before, name, hbefore, htape⟩ := exists_of_enterRoot hroot
    cases hskip : Reader.skipElement 0 rest with
    | error e =>
      obtain ⟨e', he'⟩ := d.run_eq_error settings.trimText ⟨e, hskip⟩
      simp [hroot, he', bind, Except.bind] at h
    | ok tape =>
      obtain ⟨es, hes, rfl⟩ := Reader.exists_closes_of_skipElement hskip
      exact ⟨before, name, es, tape, hbefore, hes, htape⟩

/-- There is no root element among events without a start. -/
theorem enterRoot_eq_error {before : List Event} {tape : Tape}
    (h : ∀ e ∈ before, ∀ name, e ≠ .start name) (htape : tape.IsTagless) :
    ∃ e, enterRoot (prepend before tape) = .error e := by
  induction before with
  | nil =>
    cases tape with
    | finished => exact ⟨_, rfl⟩
    | broken fault => exact ⟨_, rfl⟩
    | event e tape => cases e <;> cases tape <;> simp_all [Tape.IsTagless, enterRoot]
  | cons e before ih =>
    rw [prepend_cons, enterRoot_of_ne_start (h e (by simp))]
    exact ih fun e he => h e (by simp [he])

/-- A document whose root element is cut short does not decode. -/
theorem decode_eq_error_of_part (d : Decoder α) {es es₁ es₂ : List Event} {e : Event} {tape : Tape}
    (hes : Event.ClosesRoot es) (heq : es = es₁ ++ e :: es₂) (htape : tape.IsTagless)
    (h : Tape.ofDocument settings.checkEndNames document = prepend es₁ tape) :
    ∃ e, d.decode settings document = .error e := by
  obtain ⟨before, name, content, rfl, hbefore, hcontent⟩ := hes
  rw [decode, h]
  have hfront : es₁ <+: before → ∃ e, enterRoot (prepend es₁ tape) = .error e := fun hpart =>
    enterRoot_eq_error (fun e he => hbefore e (hpart.subset he)) htape
  -- The cut lies before the start of the root, or after it.
  have hcut : es₁ <+: before ∨
      ∃ content₁, es₁ = before ++ .start name :: content₁ ∧ content = content₁ ++ e :: es₂ := by
    rcases List.append_eq_append_iff.mp heq with ⟨as, rfl, has⟩ | ⟨bs, rfl, -⟩
    · cases as with
      | nil => exact .inl (by simp)
      | cons a as =>
        simp only [List.cons_append, List.cons.injEq] at has
        obtain ⟨rfl, rfl⟩ := has
        exact .inr ⟨as, rfl, rfl⟩
    · exact .inl (List.prefix_append _ _)
  rcases hcut with hpart | ⟨content₁, rfl, rfl⟩
  · obtain ⟨e, he⟩ := hfront hpart
    exact ⟨e, by rw [he]; rfl⟩
  · obtain ⟨e, he⟩ := d.run_eq_error settings.trimText (Reader.skipElement_part hcontent htape)
    refine ⟨e, ?_⟩
    rw [Tape.prepend_append, Tape.prepend_cons, enterRoot_prepend hbefore]
    simp only [bind, Except.bind, he]

/-! ### Where a document is complete -/

/-- The first `n` bytes of `document` go up to the end of its root element, and no further. -/
def EndsRootAt (checkNames : Bool) (document : Bytes) (n : Nat) : Prop :=
  ∃ es, Event.ClosesRoot es ∧ Tape.ofDocument checkNames (document.take n) = prepend es .finished

/-- The first `n` bytes of `document` decode to `a` whatever follows them, and no fewer bytes
decode at all. -/
structure CompleteAt (d : Decoder α) (settings : Settings) (document : Bytes) (a : α) (n : Nat) :
    Prop where
  le_length : n ≤ document.length
  decode_append (more : Bytes) : d.decode settings (document.take n ++ more) = .ok a
  decode_take {m : Nat} (h : m < n) : ∃ e, d.decode settings (document.take m) = .error e

theorem CompleteAt.le {a : α} {n n' : Nat} (h : d.CompleteAt settings document a n)
    (h' : d.CompleteAt settings document a n') : n' ≤ n := by
  by_contra hlt
  obtain ⟨e, he⟩ := h'.decode_take (Nat.lt_of_not_le hlt)
  have hok := h.decode_append []
  rw [List.append_nil, he] at hok
  cases hok

/-- A document that decodes is complete at one place, the end of its root element: what follows it
is not looked at, and a document that is cut off before it does not decode. -/
theorem existsUnique_completeAt (d : Decoder α) {a : α} (h : d.decode settings document = .ok a) :
    ∃ n, EndsRootAt settings.checkEndNames document n ∧ d.CompleteAt settings document a n ∧
      ∀ n', d.CompleteAt settings document a n' → n' = n := by
  obtain ⟨before, name, content, tape, hbefore, hcontent, htape⟩ := exists_of_decode_eq_ok h
  have hes : Event.ClosesRoot (before ++ .start name :: content) :=
    ⟨before, name, content, rfl, hbefore, hcontent⟩
  -- The walk to the end of the root element reads a front of the document.
  have hroot : Tape.ofDocument settings.checkEndNames document =
      prepend (before ++ [.start name]) (prepend content tape) := by
    rw [htape, Tape.prepend_append]
    rfl
  obtain ⟨c₁, hwalk₁, htape₁⟩ := Cursor.exists_walk_of_tape_eq hroot
  obtain ⟨c', hwalk₂, -⟩ := Cursor.exists_walk_of_tape_eq htape₁
  have howed : c'.owed = none := (hwalk₂.path_of_closes hcontent).2
  have hwalk := hwalk₁.trans hwalk₂
  rw [List.append_assoc, List.singleton_append] at hwalk
  have hlast : ∀ raw, (before ++ .start name :: content).getLast? ≠ some (.text raw) := by
    obtain ⟨name', hname'⟩ := hcontent.exists_getLast?
    intro raw
    rw [List.getLast?_append, List.getLast?_cons, hname']
    simp
  have hname : .start name ∈ before ++ .start name :: content := by simp
  obtain ⟨front, rfl, hfront, hpart⟩ := hwalk.exists_front hname hlast
  have hdecode : ∀ more, d.decode settings (front ++ more) =
      d.outcome settings.trimText content := by
    intro more
    have hmore : Tape.ofDocument settings.checkEndNames (front ++ more) =
        prepend before (.event (.start name) (prepend content
          (Cursor.tape { c' with rest := more }))) := by
      rw [Tape.ofDocument, (hfront more).tape_eq, Tape.prepend_append, Tape.prepend_cons]
    exact decode_of_tape hbefore hcontent hmore
  have htake : (front ++ c'.rest).take front.length = front := List.take_left
  have hcomplete : d.CompleteAt settings (front ++ c'.rest) a front.length := by
    constructor
    · simp
    · intro more
      rw [htake, hdecode, ← h, hdecode]
    · intro m hm
      rw [List.take_append_of_le_length hm.le]
      obtain ⟨es₁, e, es₂, tape', heq, htape', hprepend⟩ :=
        hpart (front.take m) (List.take_prefix _ _) (by rw [List.length_take]; omega)
      exact d.decode_eq_error_of_part hes heq htape' hprepend
  refine ⟨front.length, ?_, hcomplete, fun n' h' => (hcomplete.le h').antisymm (h'.le hcomplete)⟩
  refine ⟨_, hes, ?_⟩
  have hend : Cursor.tape { c' with rest := [] } = .finished := Cursor.tape_eq_finished howed rfl
  have hwhole := (hfront []).tape_eq
  rw [List.append_nil, hend] at hwhole
  rw [htake]
  exact hwhole

/-- An owner after a byte order mark, with a stray end tag after it. -/
theorem existsUnique_completeAt_owner :
    ∃ n, EndsRootAt true (Utf8.encode "\uFEFF<Owner><ID>a&lt;b</ID></Owner></x>") n ∧
      CompleteAt owner {} (Utf8.encode "\uFEFF<Owner><ID>a&lt;b</ID></Owner></x>")
        { id := "a<b" } n ∧
      ∀ n', CompleteAt owner {} (Utf8.encode "\uFEFF<Owner><ID>a&lt;b</ID></Owner></x>")
        { id := "a<b" } n' → n' = n := by
  have h : owner.decode {} (Utf8.encode "\uFEFF<Owner><ID>a&lt;b</ID></Owner></x>") =
      .ok { id := "a<b" } := by decide +kernel
  exact existsUnique_completeAt owner h

end Decoder

end BucketWire

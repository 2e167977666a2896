import BucketWire.Proofs.Markup.Walk

/-!
# Documents from their first byte

A document may start with a byte order mark, which says nothing. A walk from the start of a document
reads a front of the document, the mark included, whatever follows it. If this front is cut short,
what is left has fewer events and no tag besides.

## Main definitions

* `Cursor.mark` — the byte order mark

## Main results

* `Cursor.Walk.exists_front` — a walk from the start of a document, in every document with the same
  front
-/

namespace BucketWire

namespace Cursor

variable {checkNames : Bool} {document part rest taken : Bytes} {c' : Cursor} {es : List Event}

/-- The byte order mark. -/
def mark : Bytes := [0xEF, 0xBB, 0xBF]

theorem encode_mark : Utf8.encode "\uFEFF" = mark := by decide

theorem ofDocument_mark_append (rest : Bytes) :
    ofDocument checkNames (mark ++ rest) = { rest, checkNames } := by
  rw [ofDocument, encode_mark]
  simp

theorem ofDocument_of_unmarked (h : ¬ mark <+: document) :
    ofDocument checkNames document = { rest := document, checkNames } := by
  rw [← List.isPrefixOf_iff_prefix] at h
  simp only [ofDocument, encode_mark]
  rw [if_neg h]

/-- A document that starts with a sign of markup has no mark. -/
theorem ofDocument_of_lessThan (h : document.head? = some Ascii.lessThan) :
    ofDocument checkNames document = { rest := document, checkNames } := by
  refine ofDocument_of_unmarked ?_
  rintro ⟨rest, rfl⟩
  rw [mark, List.cons_append, List.head?_cons] at h
  exact absurd h (by decide)

/-- Part of a mark holds no tag. -/
theorem isTagless_of_prefix_mark (hpart : part <+: mark) (hlt : part.length < mark.length) :
    (Tape.ofDocument checkNames part).IsTagless := by
  have hne : ¬ mark <+: part := fun h => by
    have := h.length_le
    omega
  rw [Tape.ofDocument, ofDocument_of_unmarked hne]
  cases part with
  | nil =>
    rw [tape_eq_finished rfl rfl]
    trivial
  | cons b part =>
    have hscan : Token.scan (b :: part) = .ok (some (.text (b :: part), [])) := by
      refine Token.scan_eq_text_iff.mpr ⟨by simp, by simp, fun a ha => ?_, Token.endsText_nil⟩
      have hmark : mark.any Token.endsText = false := by decide
      exact List.any_eq_false.mp hmark a (hpart.subset ha)
    have hnext : ({ rest := b :: part, checkNames } : Cursor).next =
        .ok (some (.text (b :: part), { rest := [], checkNames })) := by
      rw [next_of_scan rfl hscan]
      rfl
    rw [(Walk.single hnext).tape_eq, tape_eq_finished rfl rfl]
    trivial

/-- A walk from the start of a document up to a tag reads a front of the document, and reads it in
the same way in every document with this front. In what is left when the front is cut short, the
events are fewer, and there is no tag besides. -/
theorem Walk.exists_front {name : Bytes} (h : Walk (ofDocument checkNames document) es c')
    (hname : .start name ∈ es) (hlast : ∀ raw, es.getLast? ≠ some (.text raw)) :
    ∃ front, document = front ++ c'.rest ∧
      (∀ more, Walk (ofDocument checkNames (front ++ more)) es { c' with rest := more }) ∧
      ∀ part, part <+: front → part.length < front.length →
        ∃ es₁ e es₂ tape, es = es₁ ++ e :: es₂ ∧ tape.IsTagless ∧
          Tape.ofDocument checkNames part = Tape.prepend es₁ tape := by
  by_cases hmark : mark <+: document
  · obtain ⟨rest, rfl⟩ := hmark
    rw [ofDocument_mark_append] at h
    obtain ⟨taken, hrest, -⟩ := h.exists_taken
    simp only at hrest
    refine ⟨mark ++ taken, by rw [hrest, List.append_assoc], fun more => ?_,
      fun part hpart hlt => ?_⟩
    · have := h.embed hrest hlast [] more
      rwa [embed_nil, embed_nil, ← ofDocument_mark_append, ← List.append_assoc] at this
    · rcases Nat.lt_or_ge part.length mark.length with hshort | hlong
      · have hpart' : part <+: mark :=
          List.prefix_of_prefix_length_le hpart (List.prefix_append _ _) hshort.le
        obtain ⟨e, es, rfl⟩ := List.exists_cons_of_ne_nil (List.ne_nil_of_mem hname)
        exact ⟨[], e, es, _, rfl, isTagless_of_prefix_mark hpart' hshort, rfl⟩
      · obtain ⟨part, rfl⟩ : mark <+: part :=
          List.prefix_of_prefix_length_le (List.prefix_append _ _) hpart hlong
        rw [Tape.ofDocument, ofDocument_mark_append]
        refine h.tape_part hrest ((List.prefix_append_right_inj mark).mp hpart) ?_
        simp only [List.length_append] at hlt
        omega
  · rw [ofDocument_of_unmarked hmark] at h
    obtain ⟨front, hrest, -⟩ := h.exists_taken
    simp only at hrest
    subst hrest
    have hsign : Ascii.lessThan ∈ front := h.lessThan_mem hname rfl
    refine ⟨front, rfl, fun more => ?_, fun part hpart hlt => ?_⟩
    · have hmark' : ¬ mark <+: front ++ more := by
        rw [← List.isPrefixOf_iff_prefix] at hmark ⊢
        rwa [Scan.isPrefixOf_append_of_mem hsign (by decide)] at hmark ⊢
      have := h.embed rfl hlast [] more
      rwa [embed_nil, embed_nil, ← ofDocument_of_unmarked hmark'] at this
    · have hmark' : ¬ mark <+: part := fun h =>
        hmark ((h.trans hpart).trans (List.prefix_append _ _))
      rw [Tape.ofDocument, ofDocument_of_unmarked hmark']
      exact h.tape_part rfl hpart hlt

end Cursor

end BucketWire

import BucketWire.Proofs.Decode.Pass
import BucketWire.Proofs.Markup.Balance
import BucketWire.Proofs.Markup.Parts

/-!
# What reads an element reads it exactly

Whatever reads an element is under a contract: when it succeeds it has read the extent of the
element and nothing else, and when it fails it has read nothing past it. A visitor of children is
under the same contract, although nothing in its type says so. All passes that follow decoders keep
it, and so does a pass over children if the visitors do.

In between, runs are looked at within any number of elements, because the loops go on after the
start and after the end of an element in the middle of another one.

## Main definitions

* `Pass.Exact` — the contract
* `Pass.Tracks` — how far a run has come within other elements

## Main results

* `Pass.tracks_content`, `Pass.tracks_foldChildren` — how far the loops come
* `Decoder.exact_pass` — every decoder keeps the contract
* `Pass.exact_decoder_children_skip` — what keeps the contract, visitors included
-/

namespace BucketWire

open Event (Closes IsExtent)
open Cursor (Walk)

/-! ### The contract -/

namespace Pass

variable {α β σ : Type}

/-- The contract, wherever `run` sets out just after the start of an element. -/
structure Exact (run : Bool → Cursor → Except DecodeError α × Cursor) : Prop where
  /-- If it succeeds it has read the extent of the element and nothing else, and those elements are
  open that were open before the start. -/
  of_ok {trim : Bool} {before c c' : Cursor} {name : Bytes} {a : α}
    (hstart : before.next = .ok (some (.start name, c))) (h : run trim c = (.ok a, c')) :
    ∃ es, IsExtent es ∧ Walk c es c' ∧ c'.opened = before.opened ∧ c'.owed = none
  /-- If it fails it has read at most the extent of the element, or the element has none because
  the document breaks off. -/
  of_error {trim : Bool} {before c c' : Cursor} {name : Bytes} {e : DecodeError}
    (hstart : before.next = .ok (some (.start name, c))) (h : run trim c = (.error e, c')) :
    ∃ taken, Walk c taken c' ∧
      ((∃ es c'', IsExtent es ∧ Walk c es c'' ∧ taken <+: es) ∨ c.BreaksOff)

/-- What succeeds by the contract has read an event, the end of the element at least. -/
theorem Exact.remaining_lt {run : Bool → Cursor → Except DecodeError α × Cursor} (hrun : Exact run)
    {trim : Bool} {before c c' : Cursor} {name : Bytes} {a : α}
    (hstart : before.next = .ok (some (.start name, c))) (h : run trim c = (.ok a, c')) :
    c'.remaining < c.remaining := by
  obtain ⟨es, hes, hwalk, -⟩ := hrun.of_ok hstart h
  refine hwalk.remaining_lt ?_
  rintro rfl
  exact Event.not_closes_nil (Event.isExtent_iff_closes.mp hes)

/-- Whatever keeps the contract is a pass. -/
def ofExact (run : Bool → Cursor → Except DecodeError α × Cursor) (h : Exact run) : Pass α where
  run
  remaining_lt := h.remaining_lt

/-- A run from `c` that ended like this has read up to the end of the element that is open around
`depth` others if it succeeded, and not past that end if it failed. -/
def Tracks (depth : Nat) (c : Cursor) : Except DecodeError α × Cursor → Prop
  | (.ok _, c') => ∃ es, Closes depth es ∧ Walk c es c'
  | (.error _, c') => ∃ taken, Walk c taken c' ∧
      ∀ es c'', Closes depth es → Walk c es c'' → taken <+: es

variable {depth depth' : Nat} {c c₁ c' : Cursor} {e : Event} {es : List Event}
  {ended : Except DecodeError α × Cursor}

theorem tracks_error_self (reason : DecodeError) :
    Tracks depth c ((.error reason : Except DecodeError α), c) :=
  ⟨[], .refl c, fun _ _ _ _ => List.nil_prefix⟩

theorem tracks_close {name : Bytes} (hnext : c.next = .ok (some (.close name, c'))) (a : α) :
    Tracks 0 c (.ok a, c') := ⟨[.close name], .last name, .single hnext⟩

/-- What holds after an event holds before it. -/
theorem Tracks.step (h : Tracks depth' c₁ ended) (hnext : c.next = .ok (some (e, c₁)))
    (hcloses : ∀ es, Closes depth (e :: es) ↔ Closes depth' es) : Tracks depth c ended := by
  rcases ended with ⟨reason | a, c'⟩
  · obtain ⟨taken, hwalk, hmost⟩ := h
    refine ⟨e :: taken, .step hnext hwalk, fun es c'' hes hall => ?_⟩
    cases hall with
    | refl => exact absurd hes Event.not_closes_nil
    | step hnext' hrest =>
      obtain ⟨rfl, rfl⟩ := Cursor.next_inj hnext hnext'
      exact (List.prefix_cons_inj e).mpr (hmost _ c'' ((hcloses _).mp hes) hrest)
  · obtain ⟨es, hes, hwalk⟩ := h
    exact ⟨e :: es, (hcloses es).mpr hes, .step hnext hwalk⟩

/-- What holds after an element holds before it, within the element around it. -/
theorem Tracks.outside (h : Tracks 0 c₁ ended) (hes : Closes 0 es) (hwalk : Walk c es c₁) :
    Tracks 1 c ended := by
  rcases ended with ⟨reason | a, c'⟩
  · obtain ⟨taken, htaken, hmost⟩ := h
    refine ⟨es ++ taken, hwalk.trans htaken, fun all c'' hall hwalk' => ?_⟩
    obtain ⟨es₁, es₂, rfl, hes₁, hes₂⟩ := hall.exists_append 0 0
    obtain ⟨c₂, hwalk₁, hwalk₂⟩ := hwalk'.exists_of_append
    obtain ⟨rfl, rfl⟩ := hwalk.eq_of_closes hwalk₁ hes hes₁
    exact (List.prefix_append_right_inj es).mpr (hmost es₂ c'' hes₂ hwalk₂)
  · obtain ⟨rest, hrest, hwalk'⟩ := h
    exact ⟨es ++ rest, hes.append hrest, hwalk.trans hwalk'⟩

/-- What fails within an element fails within the element around it. -/
theorem Tracks.error_outside {reason : DecodeError}
    (h : Tracks 0 c ((.error reason : Except DecodeError α), c')) :
    Tracks 1 c ((.error reason : Except DecodeError β), c') := by
  obtain ⟨taken, hwalk, hmost⟩ := h
  refine ⟨taken, hwalk, fun all c'' hall hwalk' => ?_⟩
  obtain ⟨es₁, es₂, rfl, hes₁, -⟩ := hall.exists_append 0 0
  obtain ⟨c₂, hwalk₁, -⟩ := hwalk'.exists_of_append
  exact (hmost es₁ c₂ hes₁ hwalk₁).trans (List.prefix_append es₁ es₂)

/-- Where the value of an element is refused, the whole element has been read and no more. -/
theorem Tracks.refused {a : α} (h : Tracks depth c (.ok a, c')) (reason : DecodeError) :
    Tracks depth c ((.error reason : Except DecodeError β), c') := by
  obtain ⟨es, hes, hwalk⟩ := h
  refine ⟨es, hwalk, fun es' c'' hes' hwalk' => ?_⟩
  obtain ⟨rfl, -⟩ := hwalk.eq_of_closes hwalk' hes hes'
  exact List.prefix_rfl

theorem exact_iff {run : Bool → Cursor → Except DecodeError α × Cursor} :
    Exact run ↔ ∀ (trim : Bool) {before c : Cursor} {name : Bytes},
      before.next = .ok (some (.start name, c)) → Tracks 0 c (run trim c) := by
  constructor
  · intro h trim before c name hstart
    rcases hrun : run trim c with ⟨reason | a, c'⟩
    · obtain ⟨taken, hwalk, hmost⟩ := h.of_error hstart hrun
      refine ⟨taken, hwalk, fun es c'' hes hwalk' => ?_⟩
      rcases hmost with ⟨es', c₁, hes', hwalk₁, htaken⟩ | hbreaks
      · rw [Event.isExtent_iff_closes] at hes'
        obtain ⟨rfl, -⟩ := hwalk'.eq_of_closes hwalk₁ hes hes'
        exact htaken
      · exact absurd (Event.isExtent_iff_closes.mpr hes) (hbreaks.not_isExtent hwalk')
    · obtain ⟨es, hes, hwalk, -⟩ := h.of_ok hstart hrun
      exact ⟨es, Event.isExtent_iff_closes.mp hes, hwalk⟩
  · intro h
    constructor
    · intro trim before c c' name a hstart hrun
      have htracks := h trim hstart
      rw [hrun] at htracks
      obtain ⟨es, hes, hwalk⟩ := htracks
      obtain ⟨hpath, howed⟩ := hwalk.path_of_closes hes
      rw [Cursor.path_of_next_start hstart] at hpath
      refine ⟨es, Event.isExtent_iff_closes.mpr hes, hwalk, ?_, howed⟩
      simpa [Cursor.path, howed, Cursor.owed_of_next_start hstart] using hpath
    · intro trim before c c' name reason hstart hrun
      have htracks := h trim hstart
      rw [hrun] at htracks
      obtain ⟨taken, hwalk, hmost⟩ := htracks
      refine ⟨taken, hwalk, ?_⟩
      rcases c.exists_isExtent_or_breaksOff with ⟨es, c'', hes, hwalk'⟩ | hbreaks
      · exact .inl ⟨es, c'', hes, hwalk', hmost es c'' (Event.isExtent_iff_closes.mp hes) hwalk'⟩
      · exact .inr hbreaks

/-! ### Passes that keep the contract -/

theorem exact_fail (reason : DecodeError) : Exact (fail reason : Pass α).run :=
  exact_iff.mpr fun _ _ _ _ _ => tracks_error_self reason

theorem Exact.refine {p : Pass α} (hp : Exact p.run) (f : α → Except ValueFault β) :
    Exact (p.refine f).run := by
  refine exact_iff.mpr fun trim _ c _ hstart => ?_
  have htracks := exact_iff.mp hp trim hstart
  simp only [Pass.refine]
  rcases hrun : p.run trim c with ⟨reason | a, c'⟩ <;> rw [hrun] at htracks
  · exact htracks
  · change Tracks 0 c ((f a).mapError DecodeError.invalidValue, c')
    cases f a with
    | ok b => exact htracks
    | error fault => exact htracks.refused (.invalidValue fault)

theorem tracks_content (context : String) (add : σ → Event → Except ValueFault σ) (s : σ)
    (depth : Nat) (c : Cursor) : Tracks depth c (content context add s depth c) := by
  induction c using Cursor.next_induction generalizing s depth with
  | broken c fault hnext =>
    rw [content_of_broken hnext]
    exact tracks_error_self _
  | finished c hnext =>
    rw [content_of_finished hnext]
    exact tracks_error_self _
  | step c e c₁ hnext ih =>
    have hlt := Cursor.remaining_lt_of_next hnext
    by_cases he : e.IsTag
    · cases e with
      | start name =>
        rw [content_start hnext]
        exact (ih c₁ hlt s (depth + 1)).step hnext fun _ => Event.closes_start_cons
      | close name =>
        cases depth with
        | zero =>
          rw [content_close_zero hnext]
          exact tracks_close hnext s
        | succ depth =>
          rw [content_close_succ hnext]
          exact (ih c₁ hlt s depth).step hnext fun _ => Event.closes_succ_close_cons
      | _ => exact absurd he id
    · have hcloses (es : List Event) : Closes depth (e :: es) ↔ Closes depth es :=
        Event.closes_cons_of_not_isTag he
      rw [content_of_not_isTag he hnext]
      cases add s e with
      | error fault => exact (tracks_error_self _).step hnext hcloses
      | ok s => exact (ih c₁ hlt s depth).step hnext hcloses

theorem exact_skip : Exact skip.run := exact_iff.mpr fun _ _ _ _ _ => tracks_content _ _ _ _ _

theorem exact_rawText : Exact rawText.run := exact_iff.mpr fun _ _ _ _ _ => tracks_content _ _ _ _ _

theorem exact_text : Exact text.run :=
  exact_iff.mpr fun trim _ _ _ hstart => exact_iff.mp (exact_rawText.refine _) trim hstart

/-- Skipping succeeds wherever the extent of an element is complete. -/
theorem content_eq_ok (context : String) (s : σ) (hes : Closes depth es) (hwalk : Walk c es c') :
    content context (fun s _ => .ok s) s depth c = (.ok s, c') := by
  induction hes generalizing c with
  | last name =>
    obtain _ | ⟨hnext, hrest⟩ := hwalk
    cases hrest
    exact content_close_zero hnext
  | leave name _ ih =>
    obtain _ | ⟨hnext, hrest⟩ := hwalk
    rw [content_close_succ hnext, ih hrest]
  | enter name _ ih =>
    obtain _ | ⟨hnext, hrest⟩ := hwalk
    rw [content_start hnext, ih hrest]
  | stay he _ ih =>
    obtain _ | ⟨hnext, hrest⟩ := hwalk
    rw [content_of_not_isTag he hnext]
    exact ih hrest

theorem skip_eq_ok (trim : Bool) (hes : IsExtent es) (hwalk : Walk c es c') :
    skip.run trim c = (.ok (), c') :=
  content_eq_ok _ () (Event.isExtent_iff_closes.mp hes) hwalk

theorem exact_ofChild {visit : String → Pass α} (h : ∀ name, Exact (visit name).run)
    (name : Bytes) : Exact (ofChild visit name).run := by
  unfold ofChild
  cases Utf8.decode (Reader.localName name) with
  | error fault => exact exact_fail _
  | ok name => exact h name

theorem tracks_foldChildren {visit : String → σ → Pass σ}
    (h : ∀ name acc, Exact (visit name acc).run) (context : String) (trim : Bool) (acc : σ)
    (c : Cursor) :
    Tracks 0 c (foldChildren context visit trim acc c) := by
  induction c using Cursor.next_induction generalizing acc with
  | broken c fault hnext =>
    rw [foldChildren_of_broken hnext]
    exact tracks_error_self _
  | finished c hnext =>
    rw [foldChildren_of_finished hnext]
    exact tracks_error_self _
  | step c e c₁ hnext ih =>
    have hlt := Cursor.remaining_lt_of_next hnext
    by_cases he : e.IsTag
    · cases e with
      | start name =>
        rw [foldChildren_start hnext]
        have hchild := exact_iff.mp (exact_ofChild (fun name => h name acc) name) trim hnext
        refine Tracks.step ?_ hnext fun _ => Event.closes_start_cons
        rcases hrun : (ofChild (visit · acc) name).run trim c₁ with ⟨reason | acc', c₂⟩ <;>
          rw [hrun] at hchild
        · exact hchild.error_outside
        · obtain ⟨es, hes, hwalk⟩ := hchild
          have hrest := (ofChild (visit · acc) name).remaining_lt hnext hrun
          exact (ih c₂ (hrest.trans hlt) acc').outside hes hwalk
      | close name =>
        rw [foldChildren_close hnext]
        exact tracks_close hnext acc
      | _ => exact absurd he id
    · rw [foldChildren_of_not_isTag he hnext]
      exact (ih c₁ hlt acc).step hnext fun _ => Event.closes_cons_of_not_isTag he

/-- If every visitor keeps the contract, so does the pass that leaves the children to them. -/
theorem exact_children {visit : String → σ → Pass σ} (h : ∀ name acc, Exact (visit name acc).run)
    (context : String) (zero : σ) : Exact (children context visit zero).run :=
  exact_iff.mpr fun trim _ c _ _ => tracks_foldChildren h context trim zero c

end Pass

namespace Decoder

/-- Every decoder keeps the contract, however it is put together. -/
theorem exact_pass {α : Type} (d : Decoder α) : Pass.Exact d.pass.run := by
  induction d with
  | text => exact Pass.exact_text
  | skip => exact Pass.exact_skip
  | unrecognized name => exact Pass.exact_fail _
  | refine f d ih => exact ih.refine f
  | children context child zero ih =>
    exact Pass.exact_children (fun name acc => (ih name).refine _) context zero

end Decoder

namespace Pass

/-- What reads an element reads that element exactly. This holds of every decoder, be it of a text,
of a value, of tags and metadata, of a list or of a record of any kind: from every place it reads
what its pass reads. It holds of the children of an element whatever visitors they are left to that
read exactly theirs. And skipping, moreover, succeeds wherever an element has its end. -/
theorem exact_decoder_children_skip :
    (∀ {α : Type} (d : Decoder α), Exact d.pass.run ∧
      ∀ (trim : Bool) (c : Cursor), d.run trim c.tape = leave (d.pass.run trim c)) ∧
    (∀ {σ : Type} (visit : String → σ → Bool → Cursor → Except DecodeError σ × Cursor)
      (h : ∀ name acc, Exact (visit name acc)) (context : String) (zero : σ),
      Exact (children context (fun name acc => ofExact (visit name acc) (h name acc)) zero).run) ∧
    (Exact skip.run ∧ ∀ (trim : Bool) {c c' : Cursor} {es : List Event}, IsExtent es →
      Walk c es c' → skip.run trim c = (.ok (), c')) := by
  refine ⟨fun d => ⟨d.exact_pass, d.follows_pass⟩, fun visit h context zero => ?_,
    exact_skip, fun trim {_ _ _} hes hwalk => skip_eq_ok trim hes hwalk⟩
  exact exact_children (fun name acc => h name acc) context zero

/-- The number of children, each of which is skipped. -/
def count : Pass Nat := children "list" (fun _ n => skip.refine fun _ => .ok (n + 1)) 0

/-- After the first tag of `<a><b/>t<c>u</c></a>v` two children are counted, and after the tag
within it the element is skipped. -/
theorem exact_count :
    let outside : Cursor := { rest := Utf8.encode "<b/>t<c>u</c></a>v", opened := [[97]] }
    let inside : Cursor := { rest := Utf8.encode "u</c></a>v", opened := [[99], [97]] }
    Exact count.run ∧ count.run true outside = (.ok 2, { rest := Utf8.encode "v" }) ∧
      IsExtent [.text (Utf8.encode "u"), .close [99]] ∧
      skip.run true inside = (.ok (), { rest := Utf8.encode "</a>v", opened := [[97]] }) := by
  have hextent : IsExtent [.text (Utf8.encode "u"), .close [99]] :=
    Event.isExtent_iff_closes.mpr (.stay id (.last [99]))
  have hwalk : Walk { rest := Utf8.encode "u</c></a>v", opened := [[99], [97]] }
      [.text (Utf8.encode "u"), .close [99]] { rest := Utf8.encode "</a>v", opened := [[97]] } := by
    have htext : Cursor.next { rest := Utf8.encode "u</c></a>v", opened := [[99], [97]] } =
        .ok (some (.text (Utf8.encode "u"),
          { rest := Utf8.encode "</c></a>v", opened := [[99], [97]] })) := by decide +kernel
    exact .step htext (.single (by decide +kernel))
  refine ⟨?_, by decide +kernel, hextent, exact_decoder_children_skip.2.2.2 true hextent hwalk⟩
  exact exact_decoder_children_skip.2.1 (fun _ n => (skip.refine fun _ => .ok (n + 1)).run)
    (fun _ _ => exact_skip.refine _) "list" 0

end Pass

end BucketWire

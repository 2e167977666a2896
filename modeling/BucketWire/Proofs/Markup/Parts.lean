import BucketWire.Proofs.Markup.Root

/-!
# The parts of a document

Every document with a root element consists of a prolog, the root element and what stands behind
it. Every element with an end tag consists of its tags, its children and what stands between them.
So what is shown of documents by their parts is shown of all documents.

## Main definitions

* `Cursor.within` — a cursor within further open elements
* `Child.IsSelfClosing` — an element without an end tag

## Main results

* `Child.isSelfClosing_or_exists_layout` — the parts of an element
* `Prolog.exists_append` — the parts of a document
-/

namespace BucketWire

open Event (Closes)
open Tape (prepend)

variable {checkNames : Bool}

namespace Cursor

variable {c c' : Cursor} {e : Event} {es : List Event} {outer : List Bytes} {depth : Nat}

/-! ### Stretches within open elements -/

/-- `c` within the open elements `outer`. -/
def within (c : Cursor) (outer : List Bytes) : Cursor := c.embed outer c.rest

/-- What is reported within open elements is reported without them, unless it closes one of
them. -/
theorem exists_next_of_within (h : (c.within outer).next = .ok (some (e, c')))
    (hpath : ∀ name, e = .close name → c.path ≠ []) :
    ∃ c₀, c.next = .ok (some (e, c₀)) ∧ c' = c₀.within outer := by
  obtain ⟨name, howed, rfl, rfl⟩ | ⟨rest, token, howed, hscan, hr⟩ := next_cases h
  · exact ⟨_, next_of_owed howed, rfl⟩
  · replace howed : c.owed = none := howed
    have hreport : ∀ {c₀}, c.report rest token = .ok (e, c₀) →
        ∃ c₀, c.next = .ok (some (e, c₀)) ∧ c' = c₀.within outer := by
      intro c₀ hc₀
      refine ⟨c₀, by rw [next_of_scan howed hscan, hc₀]; rfl, ?_⟩
      have hembed := report_embed hc₀ outer c.rest rest
      have heq := hr.symm.trans hembed
      simp only [Except.ok.injEq, Prod.mk.injEq, true_and] at heq
      rw [heq, within, rest_of_report hc₀]
    cases token with
    | endTag name =>
      obtain ⟨expected, outer', hopened, hname, rfl, rfl⟩ := close_cases hr
      have hne : c.opened ≠ [] := by simpa [path, howed] using hpath name rfl
      obtain ⟨expected₀, outer₀, hopened₀⟩ := List.exists_cons_of_ne_nil hne
      have hexpected : expected₀ = expected := by
        simp only [within, embed, hopened₀, List.cons_append, List.cons.injEq] at hopened
        exact hopened.1
      exact hreport (close_of_opened hopened₀ (hexpected ▸ hname))
    | startTag name selfClosing =>
      cases selfClosing <;>
        (simp only [report, Except.ok.injEq, Prod.mk.injEq] at hr
         obtain ⟨rfl, -⟩ := hr
         exact hreport rfl)
    | _ =>
      simp only [report, Except.ok.injEq, Prod.mk.injEq] at hr
      obtain ⟨rfl, -⟩ := hr
      exact hreport rfl

/-- Up to the end of an element the elements around it do not matter. -/
theorem exists_walk_of_within (h : Walk (c.within outer) es c') (hes : Closes depth es)
    (hpath : c.path.length = depth + 1) :
    ∃ c₀, Walk c es c₀ ∧ c' = c₀.within outer := by
  have hne : c.path ≠ [] := List.ne_nil_of_length_pos (by omega)
  induction hes generalizing c with
  | last name =>
    obtain _ | ⟨hnext, hwalk⟩ := h
    obtain ⟨c₀, hnext₀, rfl⟩ := exists_next_of_within hnext fun _ _ => hne
    cases hwalk
    exact ⟨c₀, .single hnext₀, rfl⟩
  | leave name _ ih =>
    obtain _ | ⟨hnext, hwalk⟩ := h
    obtain ⟨c₁, hnext₁, rfl⟩ := exists_next_of_within hnext fun _ _ => hne
    obtain ⟨⟨expected, hpath₁⟩, -⟩ := path_of_next_close hnext₁
    rw [hpath₁, List.length_cons] at hpath
    obtain ⟨c₀, hwalk₀, rfl⟩ :=
      ih hwalk (by omega) (List.ne_nil_of_length_pos (by omega))
    exact ⟨c₀, .step hnext₁ hwalk₀, rfl⟩
  | enter name _ ih =>
    obtain _ | ⟨hnext, hwalk⟩ := h
    obtain ⟨c₁, hnext₁, rfl⟩ := exists_next_of_within hnext fun _ _ => hne
    have hpath₁ := path_of_next_start hnext₁
    obtain ⟨c₀, hwalk₀, rfl⟩ :=
      ih hwalk (by rw [hpath₁, List.length_cons, hpath]) (by simp [hpath₁])
    exact ⟨c₀, .step hnext₁ hwalk₀, rfl⟩
  | stay he _ ih =>
    obtain _ | ⟨hnext, hwalk⟩ := h
    obtain ⟨c₁, hnext₁, rfl⟩ := exists_next_of_within hnext fun _ _ => hne
    have hpath₁ := (path_of_next_of_not_isTag hnext₁ he).1
    obtain ⟨c₀, hwalk₀, rfl⟩ := ih hwalk (by rw [hpath₁, hpath]) (by rwa [hpath₁])
    exact ⟨c₀, .step hnext₁ hwalk₀, rfl⟩

/-- Where there is no tag the open elements do not matter. -/
theorem exists_walk_of_within_of_not_isTag (h : Walk (c.within outer) es c')
    (hes : ∀ e ∈ es, ¬ e.IsTag) : ∃ c₀, Walk c es c₀ ∧ c' = c₀.within outer := by
  induction es generalizing c with
  | nil =>
    cases h
    exact ⟨c, .refl c, rfl⟩
  | cons e es ih =>
    obtain _ | ⟨hnext, hwalk⟩ := h
    obtain ⟨c₁, hnext₁, rfl⟩ := exists_next_of_within hnext fun name he =>
      absurd (by rw [he]; trivial) (hes e (by simp))
    obtain ⟨c₀, hwalk₀, rfl⟩ := ih hwalk fun e he => hes e (by simp [he])
    exact ⟨c₀, .step hnext₁ hwalk₀, rfl⟩

/-- A walk along two stretches leads past the first one. -/
theorem Walk.exists_of_append {es' : List Event} (h : Walk c (es ++ es') c') :
    ∃ c₁, Walk c es c₁ ∧ Walk c₁ es' c' := by
  induction es generalizing c with
  | nil => exact ⟨c, .refl c, h⟩
  | cons e es ih =>
    obtain _ | ⟨hnext, hwalk⟩ := h
    obtain ⟨c₁, hwalk₁, hwalk₂⟩ := ih hwalk
    exact ⟨c₁, .step hnext hwalk₁, hwalk₂⟩

/-- After its start nothing is left of a self-closing element but its end, which takes up no
bytes. -/
theorem Walk.eq_of_owed {name : Bytes} (h : Walk c es c') (hes : Closes 0 es)
    (howed : c.owed = some name) : es = [.close name] ∧ c'.rest = c.rest := by
  obtain _ | ⟨hnext, hwalk⟩ := h
  · cases hes
  · rw [next_of_owed howed] at hnext
    simp only [Except.ok.injEq, Option.some.injEq, Prod.mk.injEq] at hnext
    obtain ⟨rfl, rfl⟩ := hnext
    cases hes with
    | last _ =>
      cases hwalk
      exact ⟨rfl, rfl⟩
    | stay he _ => exact absurd trivial he

/-- Before the first start there is no end either. -/
theorem Walk.not_isTag (h : Walk c es c') (hpath : c.path = [])
    (hes : ∀ e ∈ es, ∀ name, e ≠ .start name) : ∀ e ∈ es, ¬ e.IsTag := by
  induction h with
  | refl c => simp
  | @step c c₁ c' e es hnext _ ih =>
    have he : ¬ e.IsTag := by
      cases e with
      | start name => exact absurd rfl (hes _ (by simp) name)
      | close name =>
        obtain ⟨⟨expected, hexpected⟩, -⟩ := path_of_next_close hnext
        rw [hpath] at hexpected
        cases hexpected
      | _ => exact id
    have hpath₁ := (path_of_next_of_not_isTag hnext he).1
    exact List.forall_mem_cons.mpr
      ⟨he, ih (hpath₁.trans hpath) fun e he => hes e (by simp [he])⟩

/-- A stretch at whose end no element is open reads alone as it does before other bytes. -/
theorem Walk.exists_tape_eq {rest : Bytes} (h : Walk { rest, checkNames } es c')
    (hpath : c'.path = []) :
    ∃ taken, rest = taken ++ c'.rest ∧ c' = { rest := c'.rest, checkNames } ∧
      Cursor.tape { rest := taken, checkNames } = prepend es .finished := by
  obtain ⟨taken, hrest, htaken⟩ := h.exists_taken
  have hc' : c' = { rest := c'.rest, checkNames } := by
    have hcheck : c'.checkNames = checkNames := h.checkNames_eq
    have hopen : c'.owed = none ∧ c'.opened = [] := by simpa [path] using hpath
    cases c'
    simp_all
  refine ⟨taken, hrest, hc', ?_⟩
  have halone := htaken [] [] fun _ => Token.endsText_nil
  rw [embed_nil, embed_nil, List.append_nil, hc'] at halone
  rw [halone.tape_eq, tape_eq_finished rfl rfl]

end Cursor

/-! ### Elements -/

variable {rest name : Bytes} {outer : List Bytes} {es : List Event} {c' : Cursor}

/-- A stretch without a tag, as a part of a document. -/
theorem Gap.exists_of_walk (h : Cursor.Walk { rest, opened := outer, checkNames } es c')
    (hes : ∀ e ∈ es, ¬ e.IsTag) :
    ∃ gap : Gap checkNames, gap.events = es ∧ rest = gap.bytes ++ c'.rest ∧
      c' = { rest := c'.rest, opened := outer, checkNames } := by
  have hwithin : ({ rest, opened := outer, checkNames } : Cursor) =
      Cursor.within { rest, checkNames } outer := rfl
  rw [hwithin] at h
  obtain ⟨c₀, hwalk, rfl⟩ := Cursor.exists_walk_of_within_of_not_isTag h hes
  obtain ⟨taken, hrest, hc₀, htape⟩ := hwalk.exists_tape_eq (hwalk.path_of_not_isTag hes)
  refine ⟨{ bytes := taken, events := es, not_isTag := hes, tape_eq := htape }, rfl, hrest, ?_⟩
  rw [hc₀]
  rfl

/-- A stretch from the start of an element to its end, as a part of a document. -/
theorem Child.exists_of_walk
    (h : Cursor.Walk { rest, opened := outer, checkNames } (.start name :: es) c')
    (hes : Closes 0 es) :
    ∃ child : Child checkNames, child.name = name ∧ child.content = es ∧
      rest = child.bytes ++ c'.rest ∧ c' = { rest := c'.rest, opened := outer, checkNames } := by
  obtain _ | ⟨hnext, hwalk⟩ := h
  have hwithin : ({ rest, opened := outer, checkNames } : Cursor) =
      Cursor.within { rest, checkNames } outer := rfl
  rw [hwithin] at hnext
  obtain ⟨c₁, hnext₁, rfl⟩ := Cursor.exists_next_of_within hnext fun _ he => by cases he
  have hpath₁ := Cursor.path_of_next_start hnext₁
  obtain ⟨c₀, hwalk₀, rfl⟩ := Cursor.exists_walk_of_within hwalk hes (by rw [hpath₁]; rfl)
  have hpath : c₀.path = [] := by rw [(hwalk₀.path_of_closes hes).1, hpath₁]; rfl
  obtain ⟨taken, hrest, hc₀, htape⟩ := (Cursor.Walk.step hnext₁ hwalk₀).exists_tape_eq hpath
  refine ⟨{ bytes := taken, name, content := es, closes := hes, tape_eq := htape }, rfl, rfl,
    hrest, ?_⟩
  rw [hc₀]
  rfl

/-- Before the first tag in an element stands what holds no tag. -/
theorem Event.Closes.exists_gap_append {depth : Nat} (h : Closes depth es) :
    ∃ gap es', es = gap ++ es' ∧ (∀ e ∈ gap, ¬ e.IsTag) ∧ Closes depth es' ∧
      ∀ e ∈ es'.head?, e.IsTag := by
  induction h with
  | last name => exact ⟨[], _, rfl, by simp, .last name, by simp [IsTag]⟩
  | leave name h => exact ⟨[], _, rfl, by simp, .leave name h, by simp [IsTag]⟩
  | enter name h => exact ⟨[], _, rfl, by simp, .enter name h, by simp [IsTag]⟩
  | @stay _ e _ he _ ih =>
    obtain ⟨gap, es', rfl, hgap, hes'⟩ := ih
    exact ⟨e :: gap, es', rfl, List.forall_mem_cons.mpr ⟨he, hgap⟩, hes'⟩

/-- The end tag of an element. -/
theorem Cursor.scan_of_next_close {endName : Bytes}
    (h : ({ rest, opened := [name], checkNames } : Cursor).next = .ok (some (.close endName, c'))) :
    Token.scan rest = .ok (some (.endTag endName, c'.rest)) ∧ (checkNames → endName = name) := by
  obtain ⟨_, howed, -, -⟩ | ⟨rest', token, -, hscan, hr⟩ := next_cases h
  · cases howed
  · cases token with
    | endTag endName' =>
      have hclose : ({ rest, opened := [name], checkNames } : Cursor).close endName' rest' =
          .ok (.close endName, c') := hr
      obtain ⟨expected, outer', hopened, hname, he, rfl⟩ := close_cases hclose
      obtain rfl : endName = endName' := by simpa using he
      obtain rfl : name = expected := by simpa using (List.cons.inj hopened).1
      exact ⟨hscan, hname⟩
    | startTag name' selfClosing => cases selfClosing <;> simp [report] at hr
    | _ => simp [report] at hr

/-- After its start tag an element has children, with what stands between them, and an end tag. -/
theorem Layout.exists_pieces_of_walk (hes : Closes 0 es)
    (h : Cursor.Walk { rest, opened := [name], checkNames } es c') (hend : c'.rest = []) :
    ∃ (front : Gap checkNames) (pieces : List (Child checkNames × Gap checkNames))
      (endTag endName : Bytes),
      rest = front.bytes ++
        ((pieces.flatMap fun piece => piece.1.bytes ++ piece.2.bytes) ++ endTag) ∧
      es = front.events ++
        ((pieces.flatMap fun piece => piece.1.events ++ piece.2.events) ++ [.close endName]) ∧
      Token.scan endTag = .ok (some (.endTag endName, [])) ∧ (checkNames → endName = name) := by
  induction hn : es.length using Nat.strongRecOn generalizing es rest with
  | _ n ih =>
    subst hn
    obtain ⟨gap, es, rfl, hgap, hrest, hhead⟩ := hes.exists_gap_append
    obtain ⟨c₁, hwalk₁, hwalk₂⟩ := h.exists_of_append
    obtain ⟨front, rfl, rfl, hc₁⟩ := Gap.exists_of_walk hwalk₁ hgap
    rw [hc₁] at hwalk₂
    cases hrest with
    | last endName =>
      obtain _ | ⟨hnext, hwalk⟩ := hwalk₂
      cases hwalk
      obtain ⟨hscan, hname⟩ := Cursor.scan_of_next_close hnext
      rw [hend] at hscan
      exact ⟨front, [], c₁.rest, endName, rfl, rfl, hscan, hname⟩
    | @enter _ es childName hcontent =>
      obtain ⟨es₁, es₂, rfl, hes₁, hes₂⟩ := Closes.exists_append 0 0 hcontent
      rw [← List.cons_append] at hwalk₂
      obtain ⟨c₂, hwalk₂, hwalk₃⟩ := hwalk₂.exists_of_append
      obtain ⟨child, rfl, rfl, hrest, hc₂⟩ := Child.exists_of_walk hwalk₂ hes₁
      rw [hc₂] at hwalk₃
      have hlt : es₂.length <
          (front.events ++ .start child.name :: (child.content ++ es₂)).length := by
        simp only [List.length_append, List.length_cons]
        omega
      obtain ⟨gap, pieces, endTag, endName, hbytes, hevents, hscan, hname⟩ :=
        ih _ hlt hes₂ hwalk₃ rfl
      refine ⟨front, (child, gap) :: pieces, endTag, endName, ?_, ?_, hscan, hname⟩
      · rw [hrest, hbytes]
        simp only [List.flatMap_cons, List.append_assoc]
      · rw [hevents]
        simp only [List.flatMap_cons, List.append_assoc, Child.events, List.cons_append]
    | stay he _ => exact absurd (hhead _ rfl) he

/-- The element is a single tag. -/
def Child.IsSelfClosing (child : Child checkNames) : Prop :=
  Token.scan child.bytes = .ok (some (.startTag child.name true, []))

/-- An element is a single tag, or it consists of its tags, its children and what stands between
them. -/
theorem Child.isSelfClosing_or_exists_layout (child : Child checkNames) :
    child.IsSelfClosing ∨ ∃ layout : Layout checkNames, layout.child = child := by
  have htape : Cursor.tape { rest := child.bytes, checkNames } =
      prepend (.start child.name :: child.content) .finished := child.tape_eq
  obtain ⟨c', hwalk, hend⟩ := Cursor.exists_walk_of_tape_eq htape
  obtain _ | ⟨hnext, hwalk⟩ := hwalk
  obtain ⟨_, howed, -, -⟩ | ⟨rest, token, -, hscan, hr⟩ := Cursor.next_cases hnext
  · cases howed
  obtain ⟨selfClosing, rfl⟩ := Cursor.eq_startTag_of_report hr
  have hrest : c'.rest = [] := (Cursor.eq_nil_of_tape_eq_finished hend).2
  cases selfClosing with
  | true =>
    simp only [Cursor.report, Except.ok.injEq, Prod.mk.injEq, true_and] at hr
    subst hr
    obtain rfl : rest = [] := (hwalk.eq_of_owed child.closes rfl).2.symm.trans hrest
    exact .inl hscan
  | false =>
    obtain ⟨rootTag, hbytes, hstop⟩ := Token.stopsAt_scan hscan (by simp)
    simp only [Cursor.report, Except.ok.injEq, Prod.mk.injEq, true_and] at hr
    subst hr
    obtain ⟨front, pieces, endTag, endName, hpieces, hcontent, hscanEnd, hname⟩ :=
      Layout.exists_pieces_of_walk child.closes hwalk hrest
    have hscanRoot : Token.scan rootTag = .ok (some (.startTag child.name false, [])) := by
      have := hstop []
      rwa [List.append_nil] at this
    refine .inr ⟨{ rootTag, rootName := child.name, scan_rootTag := hscanRoot, front, pieces,
                   endTag, endName, scan_endTag := hscanEnd, endName_eq := hname }, ?_⟩
    obtain ⟨bytes, name, content, closes, tape_eq⟩ := child
    simp_all [Layout.child, Layout.document, Layout.content]

/-! ### Documents -/

section Documents

variable {content before : List Event} {tape : Tape} {document : Bytes}

/-- What stands before a root element, the element and what stands behind it. -/
theorem Gap.exists_append (hbefore : ∀ e ∈ before, ∀ name, e ≠ .start name)
    (hcontent : Closes 0 content)
    (h : Cursor.tape { rest := document, checkNames } =
      prepend before (.event (.start name) (prepend content tape))) :
    ∃ (gap : Gap checkNames) (root : Child checkNames) (epilog : Bytes),
      document = gap.bytes ++ (root.bytes ++ epilog) := by
  obtain ⟨c₁, hwalk₁, htape₁⟩ := Cursor.exists_walk_of_tape_eq h
  obtain ⟨gap, -, hgap, hc₁⟩ := Gap.exists_of_walk hwalk₁ (hwalk₁.not_isTag rfl hbefore)
  rw [hc₁, ← Tape.prepend_cons] at htape₁
  obtain ⟨c₂, hwalk₂, -⟩ := Cursor.exists_walk_of_tape_eq htape₁
  obtain ⟨root, -, -, hroot, -⟩ := Child.exists_of_walk hwalk₂ hcontent
  exact ⟨gap, root, c₂.rest, by rw [hgap, hroot]⟩

/-- A document with a root element consists of a prolog, the root element and what stands behind
it. -/
theorem Prolog.exists_append (hbefore : ∀ e ∈ before, ∀ name, e ≠ .start name)
    (hcontent : Closes 0 content)
    (h : Tape.ofDocument checkNames document =
      prepend before (.event (.start name) (prepend content tape))) :
    ∃ (prolog : Prolog checkNames) (root : Child checkNames) (epilog : Bytes),
      document = prolog.bytes ++ (root.bytes ++ epilog) := by
  rw [Tape.ofDocument] at h
  by_cases hmark : Cursor.mark <+: document
  · obtain ⟨rest, rfl⟩ := hmark
    rw [Cursor.ofDocument_mark_append] at h
    obtain ⟨gap, root, epilog, rfl⟩ := Gap.exists_append hbefore hcontent h
    refine ⟨{ bytes := Cursor.mark ++ gap.bytes, events := gap.events
              not_isTag := gap.not_isTag, tape_eq := ?_ }, root, epilog, by simp⟩
    rw [Tape.ofDocument, Cursor.ofDocument_mark_append, gap.tape_eq]
  · rw [Cursor.ofDocument_of_unmarked hmark] at h
    obtain ⟨gap, root, epilog, rfl⟩ := Gap.exists_append hbefore hcontent h
    refine ⟨{ bytes := gap.bytes, events := gap.events
              not_isTag := gap.not_isTag, tape_eq := ?_ }, root, epilog, rfl⟩
    have hunmarked : ¬ Cursor.mark <+: gap.bytes := fun h =>
      hmark (h.trans (List.prefix_append _ _))
    rw [Tape.ofDocument, Cursor.ofDocument_of_unmarked hunmarked, gap.tape_eq]

end Documents

end BucketWire

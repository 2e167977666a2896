import BucketWire.Proofs.Decode.Pass

/-!
# Decoders as loops over events

A decoder is carried out by loops, each of which calls for one event after the other. One looks for
the root element. One goes through the content of an element, to gather its text or to skip it. One
goes through the children of an element and starts another loop for each of them. So at every moment
one loop runs, and the loops around it wait for the value that it comes to.

Here this is a machine, of which every step is one call. Nothing in its definition makes it come to
an end: a loop may call as often as it likes. What is shown is that the calls of a decode lead to
the end, and to the outcome of the decoder.

## Main definitions

* `Decoder.Pending` — what waits for the value of an element
* `Decoder.Loop` — the loop that runs, and what waits for it
* `Decoder.Stage` — how far a decode has come
* `Decoder.Loop.call` — what a loop makes of a call for the next event
* `Decoder.Calls` — some calls of a decode, one after the other

## Main results

* `Decoder.leadsTo_enter` — the loops for an element end where the pass over the element ends
* `Decoder.exists_calls_decode` — the loops for a document end with what is decoded
* `Decoder.Calls.prefix_of_ended` — there is no other way to go on
-/

namespace BucketWire

open Markup (Fault)

namespace Decoder

variable {α β γ σ : Type}

/-! ### The machine -/

/-- What waits for the value of an element while a value of type `γ` is decoded. -/
inductive Pending (γ : Type) : Type → Type 1 where
  /-- The element is the root. -/
  | root : Pending γ γ
  /-- Another value is made of the value, if `f` can. -/
  | refine {α β : Type} (f : α → Except ValueFault β) (outer : Pending γ β) : Pending γ α
  /-- The value changes `acc`, and the loop over the children around the element goes on. -/
  | children {σ : Type} (context : String) (child : String → Decoder (σ → σ)) (acc : σ)
    (outer : Pending γ σ) : Pending γ (σ → σ)

/-- The loop that runs, and what waits for its value. -/
inductive Loop (γ : Type) : Type 1 where
  /-- Look for the root element and decode it by `d`. -/
  | root (d : Decoder γ)
  /-- Go up to the end of the element that is open around `depth` others, and change `s` by every
  event that is no tag. -/
  | content {σ : Type} (context : String) (add : σ → Event → Except ValueFault σ) (s : σ)
    (depth : Nat) (pending : Pending γ σ)
  /-- Go through the children that are still to come, each of which is decoded and changes `acc`. -/
  | children {σ : Type} (context : String) (child : String → Decoder (σ → σ)) (acc : σ)
    (pending : Pending γ σ)

/-- How far a decode has come. -/
inductive Stage (γ : Type) : Type 1 where
  /-- A loop is about to call for the next event. -/
  | running (loop : Loop γ)
  /-- No loop runs any more. -/
  | ended (outcome : Except DecodeError γ)

/-- Go on with the value of an element. -/
def Pending.resume : {α : Type} → Pending γ α → α → Stage γ
  | _, .root, a => .ended (.ok a)
  | _, .refine f outer, a =>
    match f a with
    | .error fault => .ended (.error (.invalidValue fault))
    | .ok b => outer.resume b
  | _, .children context child acc outer, change =>
    .running (.children context child (change acc) outer)

/-- Go on with what the decoding of an element came to. An error is handed on to the outside by all
that waits. -/
def Pending.settle (pending : Pending γ α) : Except DecodeError α → Stage γ
  | .error e => .ended (.error e)
  | .ok a => pending.resume a

@[simp] theorem Pending.settle_root (outcome : Except DecodeError γ) :
    (Pending.root : Pending γ γ).settle outcome = .ended outcome := by
  cases outcome <;> rfl

/-- Start to decode an element by a decoder, just after the start of the element. -/
def enter (trim : Bool) : {α : Type} → Decoder α → Pending γ α → Stage γ
  | _, .text, pending =>
    .running (.content "text content" Pass.addPiece "" 0
      (.refine (fun text => .ok (if trim then Text.trim text else text)) pending))
  | _, .skip, pending =>
    .running (.content "skipped element" (fun _ _ => .ok ()) () 0 pending)
  | _, .unrecognized name, _ => .ended (.error (.unrecognized name))
  | _, .refine f d, pending => d.enter trim (.refine f pending)
  | _, .children context child zero, pending =>
    .running (.children context child zero pending)

namespace Loop

/-- What a loop makes of the next event, of the end of the document, or of a fault. -/
def take (trim : Bool) : Loop γ → Except Fault (Option Event) → Stage γ
  | .root _, .error fault => .ended (.error (.malformed fault))
  | .root _, .ok none => .ended (.error .noRoot)
  | .root d, .ok (some (.start _)) => d.enter trim .root
  | .root d, .ok (some _) => .running (.root d)
  | .content _ _ _ _ _, .error fault => .ended (.error (.malformed fault))
  | .content context _ _ _ _, .ok none => .ended (.error (.unexpectedEnd context))
  | .content context add s depth pending, .ok (some (.start _)) =>
    .running (.content context add s (depth + 1) pending)
  | .content context add s depth pending, .ok (some (.close _)) =>
    match depth with
    | 0 => pending.resume s
    | depth + 1 => .running (.content context add s depth pending)
  | .content context add s depth pending, .ok (some e) =>
    match add s e with
    | .error fault => .ended (.error (.invalidValue fault))
    | .ok s => .running (.content context add s depth pending)
  | .children _ _ _ _, .error fault => .ended (.error (.malformed fault))
  | .children context _ _ _, .ok none => .ended (.error (.unexpectedEnd context))
  | .children context child acc pending, .ok (some (.start name)) =>
    match Utf8.decode (Reader.localName name) with
    | .error fault => .ended (.error (.invalidValue (.name fault)))
    | .ok name => (child name).enter trim (.children context child acc pending)
  | .children _ _ acc pending, .ok (some (.close _)) => pending.resume acc
  | .children context child acc pending, .ok (some _) =>
    .running (.children context child acc pending)

/-- One call for the next event, at `c`. -/
def call (trim : Bool) (loop : Loop γ) (c : Cursor) : Stage γ × Cursor :=
  match c.next with
  | .error fault => (loop.take trim (.error fault), c)
  | .ok none => (loop.take trim (.ok none), c)
  | .ok (some (e, c')) => (loop.take trim (.ok (some e)), c')

end Loop

/-- From `stage` at one place a decode comes to another stage at another place, and calls for an
event at each of the places in the list, one after the other. -/
inductive Calls (trim : Bool) : Stage γ → Cursor → List Cursor → Stage γ → Cursor → Prop where
  | refl (stage : Stage γ) (c : Cursor) : Calls trim stage c [] stage c
  | call {loop : Loop γ} {c c' c'' : Cursor} {calls : List Cursor} {stage stage' : Stage γ} :
    loop.call trim c = (stage, c') → Calls trim stage c' calls stage' c'' →
      Calls trim (.running loop) c (c :: calls) stage' c''

/-! ### One call -/

section Call

variable {trim : Bool} {c c' : Cursor} {e : Event} {d : Decoder γ}
  {context : String} {add : σ → Event → Except ValueFault σ} {s acc : σ} {depth : Nat}
  {child : String → Decoder (σ → σ)} {pending : Pending γ σ}

namespace Loop

theorem call_of_broken (trim : Bool) (loop : Loop γ) {fault : Fault}
    (h : c.next = .error fault) :
    loop.call trim c = (loop.take trim (.error fault), c) := by
  rw [call, h]

theorem call_of_finished (trim : Bool) (loop : Loop γ) (h : c.next = .ok none) :
    loop.call trim c = (loop.take trim (.ok none), c) := by
  rw [call, h]

theorem call_of_next (trim : Bool) (loop : Loop γ) (h : c.next = .ok (some (e, c'))) :
    loop.call trim c = (loop.take trim (.ok (some e)), c') := by
  rw [call, h]

theorem take_root_of_ne_start (he : ∀ name, e ≠ .start name) :
    (root d).take trim (.ok (some e)) = .running (.root d) := by
  cases e with
  | start name => exact absurd rfl (he name)
  | _ => rfl

theorem take_content_of_not_isTag (he : ¬ e.IsTag) :
    (content context add s depth pending).take trim (.ok (some e)) =
      match add s e with
      | .error fault => .ended (.error (.invalidValue fault))
      | .ok s => .running (.content context add s depth pending) := by
  cases e with
  | start name => exact absurd trivial he
  | close name => exact absurd trivial he
  | _ => rfl

theorem take_children_of_not_isTag (he : ¬ e.IsTag) :
    (children context child acc pending).take trim (.ok (some e)) =
      .running (.children context child acc pending) := by
  cases e with
  | start name => exact absurd trivial he
  | close name => exact absurd trivial he
  | _ => rfl

end Loop

end Call

/-! ### Calls one after the other -/

namespace Calls

variable {trim : Bool} {stage stage' stage'' : Stage γ} {c c' c'' : Cursor}
  {calls calls' : List Cursor}

theorem trans (h : Calls trim stage c calls stage' c')
    (h' : Calls trim stage' c' calls' stage'' c'') :
    Calls trim stage c (calls ++ calls') stage'' c'' := by
  induction h with
  | refl => exact h'
  | call hcall _ ih => exact .call hcall (ih h')

/-- There is one way to the end, and all calls are made on it. -/
theorem prefix_of_ended {outcome : Except DecodeError γ}
    (h : Calls trim stage c calls (.ended outcome) c')
    (h' : Calls trim stage c calls' stage'' c'') : calls' <+: calls := by
  generalize hended : Stage.ended outcome = ended at h
  induction h generalizing calls' with
  | refl =>
    subst hended
    cases h'
    exact List.nil_prefix
  | call hcall _ ih =>
    cases h' with
    | refl => exact List.nil_prefix
    | call hcall' hrest =>
      obtain ⟨rfl, rfl⟩ := Prod.mk.inj (hcall.symm.trans hcall')
      exact (List.prefix_cons_inj _).mpr (ih hrest hended)

end Calls

/-! ### Loops and passes -/

/-- From `stage` at `c` the calls lead to where a pass ended, and on with what it came to. -/
def LeadsTo (trim : Bool) (stage : Stage γ) (c : Cursor) (pending : Pending γ α)
    (ended : Except DecodeError α × Cursor) : Prop :=
  ∃ calls, Calls trim stage c calls (pending.settle ended.1) ended.2

section LeadsTo

variable {trim : Bool} {loop : Loop γ} {stage : Stage γ} {c c' : Cursor} {pending : Pending γ α}
  {outer : Pending γ β} {ended : Except DecodeError α × Cursor}
  {ended' : Except DecodeError β × Cursor}

theorem leadsTo_here (outcome : Except DecodeError α) :
    LeadsTo trim (pending.settle outcome) c pending (outcome, c) := ⟨[], .refl _ _⟩

theorem LeadsTo.call (h : LeadsTo trim stage c' pending ended)
    (hcall : loop.call trim c = (stage, c')) : LeadsTo trim (.running loop) c pending ended := by
  obtain ⟨calls, h⟩ := h
  exact ⟨c :: calls, .call hcall h⟩

theorem LeadsTo.trans (h : LeadsTo trim stage c pending ended)
    (h' : LeadsTo trim (pending.settle ended.1) ended.2 outer ended') :
    LeadsTo trim stage c outer ended' := by
  obtain ⟨calls, h⟩ := h
  obtain ⟨calls', h'⟩ := h'
  exact ⟨calls ++ calls', h.trans h'⟩

end LeadsTo

theorem leadsTo_content (trim : Bool) (context : String)
    (add : σ → Event → Except ValueFault σ) (s : σ) (depth : Nat) (c : Cursor)
    (pending : Pending γ σ) :
    LeadsTo trim (.running (.content context add s depth pending)) c pending
      (Pass.content context add s depth c) := by
  induction c using Cursor.next_induction generalizing s depth with
  | broken c fault hnext =>
    rw [Pass.content_of_broken hnext]
    exact (leadsTo_here _).call (Loop.call_of_broken trim _ hnext)
  | finished c hnext =>
    rw [Pass.content_of_finished hnext]
    exact (leadsTo_here _).call (Loop.call_of_finished trim _ hnext)
  | step c e c₁ hnext ih =>
    have hlt := Cursor.remaining_lt_of_next hnext
    by_cases he : e.IsTag
    · cases e with
      | start name =>
        rw [Pass.content_start hnext]
        exact (ih c₁ hlt s (depth + 1)).call (Loop.call_of_next trim _ hnext)
      | close name =>
        cases depth with
        | zero =>
          rw [Pass.content_close_zero hnext]
          exact (leadsTo_here (.ok s)).call (Loop.call_of_next trim _ hnext)
        | succ depth =>
          rw [Pass.content_close_succ hnext]
          exact (ih c₁ hlt s depth).call (Loop.call_of_next trim _ hnext)
      | _ => exact absurd he id
    · have hcall := Loop.call_of_next trim (.content context add s depth pending) hnext
      rw [Loop.take_content_of_not_isTag he] at hcall
      rw [Pass.content_of_not_isTag he hnext]
      cases hadd : add s e with
      | error fault =>
        rw [hadd] at hcall
        exact (leadsTo_here (.error _)).call hcall
      | ok s' =>
        rw [hadd] at hcall
        exact (ih c₁ hlt s' depth).call hcall

section Children

variable {trim : Bool} {child : String → Decoder (σ → σ)}

/-- After the start of a child the loop over the children waits until the pass over the child
ends. -/
theorem leadsTo_child
    (hchild : ∀ name c (pending : Pending γ (σ → σ)),
      LeadsTo trim ((child name).enter trim pending) c pending ((child name).pass.run trim c))
    (context : String) (acc : σ) (pending : Pending γ σ) {c c' : Cursor} {name : Bytes}
    (hnext : c.next = .ok (some (.start name, c'))) :
    LeadsTo trim (.running (.children context child acc pending)) c
      (.children context child acc pending)
      ((Pass.ofChild (fun name => (child name).pass) name).run trim c') := by
  have hcall := Loop.call_of_next trim (.children context child acc pending) hnext
  simp only [Loop.take] at hcall
  unfold Pass.ofChild
  cases hname : Utf8.decode (Reader.localName name) with
  | error fault =>
    simp only [hname] at hcall
    exact (leadsTo_here (.error _)).call hcall
  | ok localName =>
    simp only [hname] at hcall
    exact (hchild localName c' _).call hcall

/-- If the loops for every child end where the pass over the child ends, so does the loop over the
children. -/
theorem leadsTo_children
    (hchild : ∀ name c (pending : Pending γ (σ → σ)),
      LeadsTo trim ((child name).enter trim pending) c pending ((child name).pass.run trim c))
    (context : String) (acc : σ) (c : Cursor) (pending : Pending γ σ) :
    LeadsTo trim (.running (.children context child acc pending)) c pending
      (Pass.foldChildren context
        (fun name acc => (child name).pass.refine fun change => .ok (change acc)) trim acc c) := by
  induction c using Cursor.next_induction generalizing acc with
  | broken c fault hnext =>
    rw [Pass.foldChildren_of_broken hnext]
    exact (leadsTo_here _).call (Loop.call_of_broken trim _ hnext)
  | finished c hnext =>
    rw [Pass.foldChildren_of_finished hnext]
    exact (leadsTo_here _).call (Loop.call_of_finished trim _ hnext)
  | step c e c₁ hnext ih =>
    have hlt := Cursor.remaining_lt_of_next hnext
    have hcall := Loop.call_of_next trim (.children context child acc pending) hnext
    by_cases he : e.IsTag
    · cases e with
      | start name =>
        rw [Pass.foldChildren_start hnext, Pass.ofChild_refine]
        have hinner := leadsTo_child hchild context acc pending hnext
        simp only [Pass.refine]
        rcases hrun : (Pass.ofChild (fun name => (child name).pass) name).run trim c₁ with
          ⟨reason | change, c₂⟩ <;> rw [hrun] at hinner
        · exact hinner.trans (leadsTo_here (.error reason))
        · have hrest := (Pass.ofChild _ name).remaining_lt hnext hrun
          exact hinner.trans (ih c₂ (hrest.trans hlt) (change acc))
      | close name =>
        rw [Pass.foldChildren_close hnext]
        exact (leadsTo_here (.ok acc)).call hcall
      | _ => exact absurd he id
    · rw [Loop.take_children_of_not_isTag he] at hcall
      rw [Pass.foldChildren_of_not_isTag he hnext]
      exact (ih c₁ hlt acc).call hcall

end Children

/-- The loops for an element end where the pass over the element ends. -/
theorem leadsTo_enter (d : Decoder α) (trim : Bool) (c : Cursor) (pending : Pending γ α) :
    LeadsTo trim (d.enter trim pending) c pending (d.pass.run trim c) := by
  induction d generalizing c with
  | text =>
    have hraw := leadsTo_content trim "text content" Pass.addPiece "" 0 c
      (pending.refine fun text => .ok (if trim then Text.trim text else text))
    refine hraw.trans ?_
    simp only [pass, Pass.text, Pass.refine, Pass.rawText]
    rcases Pass.content "text content" Pass.addPiece "" 0 c with ⟨reason | text, c'⟩
    · exact leadsTo_here (.error reason)
    · exact leadsTo_here (.ok _)
  | skip => exact leadsTo_content trim _ _ () 0 c pending
  | unrecognized name => exact leadsTo_here (.error _)
  | refine f d ih =>
    refine (ih c (.refine f pending)).trans ?_
    simp only [pass, Pass.refine]
    rcases d.pass.run trim c with ⟨reason | a, c'⟩
    · exact leadsTo_here (.error reason)
    · simp only [Pending.settle, Pending.resume]
      cases f a with
      | error fault => exact leadsTo_here (.error _)
      | ok b => exact leadsTo_here (.ok b)
  | children context child zero ih => exact leadsTo_children ih context zero c pending

/-! ### Whole documents -/

/-- The loops for a document end with what is decoded from it. -/
theorem exists_calls_root (d : Decoder α) (trim : Bool) (c : Cursor) :
    ∃ calls place, Calls trim (.running (.root d)) c calls
      (.ended (enterRoot c.tape >>= fun tape => (d.run trim tape).map Prod.fst)) place := by
  induction c using Cursor.next_induction with
  | broken c fault hnext =>
    rw [Cursor.tape_of_broken hnext]
    exact ⟨[c], c, .call (Loop.call_of_broken trim _ hnext) (.refl _ _)⟩
  | finished c hnext =>
    rw [Cursor.tape_of_finished hnext]
    exact ⟨[c], c, .call (Loop.call_of_finished trim _ hnext) (.refl _ _)⟩
  | step c e c' hnext ih =>
    have hcall := Loop.call_of_next trim (.root d) hnext
    rw [Cursor.tape_of_next hnext]
    by_cases he : ∃ name, e = .start name
    · obtain ⟨name, rfl⟩ := he
      obtain ⟨calls, hcalls⟩ := d.leadsTo_enter trim c' .root
      have houtcome : enterRoot (.event (.start name) c'.tape) >>= (fun tape =>
          (d.run trim tape).map Prod.fst) = (d.pass.run trim c').1 := by
        have hrun : d.run trim c'.tape = Pass.leave (d.pass.run trim c') := d.follows_pass trim c'
        simp only [enterRoot, bind, Except.bind, hrun]
        rcases d.pass.run trim c' with ⟨reason | a, place⟩ <;> rfl
      rw [Pending.settle_root] at hcalls
      rw [houtcome]
      exact ⟨c :: calls, _, .call hcall hcalls⟩
    · have he' (name : Bytes) : e ≠ .start name := fun h => he ⟨name, h⟩
      rw [Loop.take_root_of_ne_start he'] at hcall
      rw [enterRoot_of_ne_start he']
      obtain ⟨calls, place, hcalls⟩ := ih c' (Cursor.remaining_lt_of_next hnext)
      exact ⟨c :: calls, place, .call hcall hcalls⟩

theorem exists_calls_decode (d : Decoder α) (settings : Settings) (document : Bytes) :
    ∃ calls place, Calls settings.trimText (.running (.root d))
      (.ofDocument settings.checkEndNames document) calls (.ended (d.decode settings document))
      place := by
  have hdecode : d.decode settings document =
      enterRoot (Tape.ofDocument settings.checkEndNames document) >>= fun tape =>
        (d.run settings.trimText tape).map Prod.fst := by
    rw [decode]
    congr
  rw [hdecode]
  exact d.exists_calls_root settings.trimText (.ofDocument settings.checkEndNames document)

end Decoder

end BucketWire

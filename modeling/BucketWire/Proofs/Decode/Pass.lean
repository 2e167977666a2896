import BucketWire.Proofs.Decode.Extent
import BucketWire.Proofs.Markup.Balance

/-!
# Passes over an element

A reader takes events off a tape, and when it fails it does not say how far it came. A pass reads
the same events from a place in a document, one after the other, and gives the place where it
stopped, also when it fails. Every decoder is a pass, and as a pass it reads what it reads from the
tape.

A pass over the children of an element leaves each child to a visitor, which is a pass over that
child. The visitor may be any pass, chosen by the name of the child and by what the visitors before
it made of theirs.

## Main definitions

* `Pass` — a function on places that says where it stopped
* `Pass.content` — go through the events of an element, whatever is nested in it
* `Pass.children` — leave every child of an element to a visitor
* `Decoder.pass` — the pass that follows a decoder
* `Pass.Follows` — a pass reads from a document what a reader reads from its tape

## Main results

* `Decoder.follows_pass` — the pass of a decoder reads what the decoder reads
-/

namespace BucketWire

open Markup (Fault)

namespace Cursor

theorem tape_of_next {c c' : Cursor} {e : Event} (h : c.next = .ok (some (e, c'))) :
    c.tape = .event e c'.tape := by
  rw [tape_eq, h]

theorem tape_of_finished {c : Cursor} (h : c.next = .ok none) : c.tape = .finished := by
  rw [tape_eq, h]

theorem tape_of_broken {c : Cursor} {fault : Fault} (h : c.next = .error fault) :
    c.tape = .broken fault := by
  rw [tape_eq, h]

end Cursor

/-- A pass over one element, run from the place just after its start. It is told whether texts are
trimmed, and gives what it read, or why it failed, and the place where it stopped. -/
structure Pass (α : Type) where
  run : Bool → Cursor → Except DecodeError α × Cursor
  /-- If it succeeds the end of the element has been read. -/
  remaining_lt : ∀ {trim : Bool} {before c c' : Cursor} {name : Bytes} {a : α},
    before.next = .ok (some (.start name, c)) → run trim c = (.ok a, c') →
      c'.remaining < c.remaining

namespace Pass

variable {α β σ : Type}

/-- Refuse the element for the reason `e`. -/
def fail (e : DecodeError) : Pass α where
  run _ c := (.error e, c)
  remaining_lt _ h := by cases h

/-- Pass over the element by `p` and make a value of what was read, if `f` can. -/
def refine (f : α → Except ValueFault β) (p : Pass α) : Pass β where
  run trim c :=
    match p.run trim c with
    | (.error e, c') => (.error e, c')
    | (.ok a, c') => ((f a).mapError .invalidValue, c')
  remaining_lt {trim _ c _ _ _} hstart h := by
    cases hp : p.run trim c with
    | mk outcome c' =>
      cases outcome with
      | error e => simp [hp] at h
      | ok a =>
        simp only [hp, Prod.mk.injEq] at h
        obtain ⟨-, rfl⟩ := h
        exact p.remaining_lt hstart hp

/-! ### Content -/

/-- Go up to the end of the element that is open around `depth` others, and change `s` by every
event that is no tag. -/
def content (context : String) (add : σ → Event → Except ValueFault σ) (s : σ) (depth : Nat)
    (c : Cursor) : Except DecodeError σ × Cursor :=
  match h : c.next with
  | .error fault => (.error (.malformed fault), c)
  | .ok none => (.error (.unexpectedEnd context), c)
  | .ok (some (.start _, c')) => content context add s (depth + 1) c'
  | .ok (some (.close _, c')) =>
    match depth with
    | 0 => (.ok s, c')
    | depth + 1 => content context add s depth c'
  | .ok (some (e, c')) =>
    match add s e with
    | .error fault => (.error (.invalidValue fault), c')
    | .ok s => content context add s depth c'
termination_by c.remaining
decreasing_by all_goals exact Cursor.remaining_lt_of_next h

section Content

variable {context : String} {add : σ → Event → Except ValueFault σ} {s : σ} {depth : Nat}
  {c c' : Cursor} {name : Bytes}

theorem content_of_broken {fault : Fault} (h : c.next = .error fault) :
    content context add s depth c = (.error (.malformed fault), c) := by
  rw [content]
  split <;> simp_all

theorem content_of_finished (h : c.next = .ok none) :
    content context add s depth c = (.error (.unexpectedEnd context), c) := by
  rw [content]
  split <;> simp_all

theorem content_start (h : c.next = .ok (some (.start name, c'))) :
    content context add s depth c = content context add s (depth + 1) c' := by
  rw [content]
  split <;> simp_all

theorem content_close_zero (h : c.next = .ok (some (.close name, c'))) :
    content context add s 0 c = (.ok s, c') := by
  rw [content]
  split <;> simp_all

theorem content_close_succ (h : c.next = .ok (some (.close name, c'))) :
    content context add s (depth + 1) c = content context add s depth c' := by
  rw [content]
  split <;> simp_all

theorem content_of_not_isTag {e : Event} (he : ¬ e.IsTag) (h : c.next = .ok (some (e, c'))) :
    content context add s depth c =
      match add s e with
      | .error fault => (.error (.invalidValue fault), c')
      | .ok s => content context add s depth c' := by
  rw [content]
  split
  · simp_all
  · simp_all
  · rename_i name _ hstart
    rw [h] at hstart
    cases hstart
    exact absurd trivial he
  · rename_i name _ hclose
    rw [h] at hclose
    cases hclose
    exact absurd trivial he
  · rename_i hnext
    rw [h] at hnext
    cases hnext
    rfl

theorem remaining_lt_of_content {a : σ} (h : content context add s depth c = (.ok a, c')) :
    c'.remaining < c.remaining := by
  induction c using Cursor.next_induction generalizing s depth with
  | broken c fault hnext => simp [content_of_broken hnext] at h
  | finished c hnext => simp [content_of_finished hnext] at h
  | step c e c₁ hnext ih =>
    have hlt := Cursor.remaining_lt_of_next hnext
    cases e with
    | start name =>
      rw [content_start hnext] at h
      exact (ih c₁ hlt h).trans hlt
    | close name =>
      cases depth with
      | zero =>
        rw [content_close_zero hnext] at h
        obtain ⟨-, rfl⟩ := Prod.mk.inj h
        exact hlt
      | succ depth =>
        rw [content_close_succ hnext] at h
        exact (ih c₁ hlt h).trans hlt
    | _ =>
      rw [content_of_not_isTag id hnext] at h
      split at h
      · cases h
      · exact (ih c₁ hlt h).trans hlt

end Content

/-- Nothing, whatever the element holds. -/
def skip : Pass Unit where
  run _ c := content "skipped element" (fun _ _ => .ok ()) () 0 c
  remaining_lt _ h := remaining_lt_of_content h

/-- The text `before` and what an event adds to it. -/
def addPiece (before : String) (e : Event) : Except ValueFault String :=
  (Reader.piece e).map (before ++ ·)

/-- The text of an element as it stands in the document. -/
def rawText : Pass String where
  run _ c := content "text content" addPiece "" 0 c
  remaining_lt _ h := remaining_lt_of_content h

/-- The text of an element, trimmed as a whole if texts are. -/
def text : Pass String where
  run trim c := (rawText.refine fun text => .ok (if trim then Text.trim text else text)).run trim c
  remaining_lt {_ _ _ _ _ _} hstart h := (rawText.refine _).remaining_lt hstart h

/-! ### Children -/

/-- The pass over the child with the full name `name`, if `visit` gives the pass of every local
name. A local name that is not UTF-8 is refused. -/
def ofChild (visit : String → Pass α) (name : Bytes) : Pass α :=
  match Utf8.decode (Reader.localName name) with
  | .error fault => fail (.invalidValue (.name fault))
  | .ok name => visit name

/-- Leave all children that are still to come to visitors, each of which is told what the one
before it made of the value `acc`. -/
def foldChildren (context : String) (visit : String → σ → Pass σ) (trim : Bool) (acc : σ)
    (c : Cursor) : Except DecodeError σ × Cursor :=
  match h : c.next with
  | .error fault => (.error (.malformed fault), c)
  | .ok none => (.error (.unexpectedEnd context), c)
  | .ok (some (.close _, c')) => (.ok acc, c')
  | .ok (some (.start name, c')) =>
    match hr : (ofChild (visit · acc) name).run trim c' with
    | (.error e, c'') => (.error e, c'')
    | (.ok acc', c'') =>
      have := (ofChild (visit · acc) name).remaining_lt h hr
      foldChildren context visit trim acc' c''
  | .ok (some (_, c')) => foldChildren context visit trim acc c'
termination_by c.remaining
decreasing_by
  · have := Cursor.remaining_lt_of_next h
    omega
  · exact Cursor.remaining_lt_of_next h

section Children

variable {context : String} {visit : String → σ → Pass σ} {trim : Bool} {acc : σ}
  {c c' : Cursor} {name : Bytes}

theorem foldChildren_of_broken {fault : Fault} (h : c.next = .error fault) :
    foldChildren context visit trim acc c = (.error (.malformed fault), c) := by
  rw [foldChildren]
  split <;> simp_all

theorem foldChildren_of_finished (h : c.next = .ok none) :
    foldChildren context visit trim acc c = (.error (.unexpectedEnd context), c) := by
  rw [foldChildren]
  split <;> simp_all

theorem foldChildren_close (h : c.next = .ok (some (.close name, c'))) :
    foldChildren context visit trim acc c = (.ok acc, c') := by
  rw [foldChildren]
  split <;> simp_all

theorem foldChildren_start (h : c.next = .ok (some (.start name, c'))) :
    foldChildren context visit trim acc c =
      match (ofChild (visit · acc) name).run trim c' with
      | (.error e, c'') => (.error e, c'')
      | (.ok acc', c'') => foldChildren context visit trim acc' c'' := by
  rw [foldChildren]
  split
  case h_4 name' c₁ hstart =>
    obtain ⟨hname, rfl⟩ := Cursor.next_inj h hstart
    obtain rfl := Event.start.inj hname
    split <;> rename_i hrun <;> simp only [hrun]
  all_goals simp_all

theorem foldChildren_of_not_isTag {e : Event} (he : ¬ e.IsTag)
    (h : c.next = .ok (some (e, c'))) :
    foldChildren context visit trim acc c = foldChildren context visit trim acc c' := by
  cases e with
  | start name => exact absurd trivial he
  | close name => exact absurd trivial he
  | _ =>
    rw [foldChildren]
    split <;> simp_all

end Children

theorem remaining_lt_of_foldChildren {context : String} {visit : String → σ → Pass σ}
    {trim : Bool} {acc a : σ} {c c' : Cursor}
    (h : foldChildren context visit trim acc c = (.ok a, c')) : c'.remaining < c.remaining := by
  induction c using Cursor.next_induction generalizing acc with
  | broken c fault hnext => simp [foldChildren_of_broken hnext] at h
  | finished c hnext => simp [foldChildren_of_finished hnext] at h
  | step c e c₁ hnext ih =>
    have hlt := Cursor.remaining_lt_of_next hnext
    cases e with
    | start name =>
      rw [foldChildren_start hnext] at h
      split at h
      · cases h
      · rename_i acc' c₂ hrun
        have hchild := (ofChild (visit · acc) name).remaining_lt hnext hrun
        exact (ih c₂ (hchild.trans hlt) h).trans (hchild.trans hlt)
    | close name =>
      rw [foldChildren_close hnext] at h
      obtain ⟨-, rfl⟩ := Prod.mk.inj h
      exact hlt
    | _ =>
      rw [foldChildren_of_not_isTag id hnext] at h
      exact (ih c₁ hlt h).trans hlt

/-- Pass over all children and make of `zero` what their visitors make of it; `context` names the
element. -/
def children (context : String) (visit : String → σ → Pass σ) (zero : σ) : Pass σ where
  run trim c := foldChildren context visit trim zero c
  remaining_lt _ h := remaining_lt_of_foldChildren h

/-! ### Passes and readers -/

/-- Where a pass succeeds, what it read and the events after the element. -/
def leave : Except DecodeError α × Cursor → Except DecodeError (α × Tape)
  | (.error e, _) => .error e
  | (.ok a, c) => .ok (a, c.tape)

/-- From every place `p` reads what `r` reads from the tape, and leaves what `r` leaves. -/
def Follows (p : Pass α) (r : Reader α) : Prop :=
  ∀ trim (c : Cursor), r.run trim c.tape = leave (p.run trim c)

theorem follows_fail (e : DecodeError) : (fail e : Pass α).Follows (.fail e) := fun _ _ => rfl

theorem Follows.refine {p : Pass α} {r : Reader α} (h : p.Follows r)
    (f : α → Except ValueFault β) : (p.refine f).Follows (r.refine f) := by
  intro trim c
  simp only [Reader.refine, Pass.refine, h trim c]
  rcases p.run trim c with ⟨e | a, c'⟩
  · rfl
  · cases hf : f a <;> simp [leave, hf, Except.mapError]

/-- `read` goes through the events of a tape up to the end of an element, and changes its first
argument by `add` on every event that is no tag. -/
structure ReadsContent (context : String) (add : σ → Event → Except ValueFault σ)
    (read : σ → Nat → Tape → Except DecodeError (σ × Tape)) : Prop where
  finished (s : σ) (depth : Nat) : read s depth .finished = .error (.unexpectedEnd context)
  broken (s : σ) (depth : Nat) (fault : Fault) :
    read s depth (.broken fault) = .error (.malformed fault)
  start (s : σ) (depth : Nat) (name : Bytes) (tape : Tape) :
    read s depth (.event (.start name) tape) = read s (depth + 1) tape
  close_zero (s : σ) (name : Bytes) (tape : Tape) :
    read s 0 (.event (.close name) tape) = .ok (s, tape)
  close_succ (s : σ) (depth : Nat) (name : Bytes) (tape : Tape) :
    read s (depth + 1) (.event (.close name) tape) = read s depth tape
  of_not_isTag (s : σ) (depth : Nat) {e : Event} (tape : Tape) (he : ¬ e.IsTag) :
    read s depth (.event e tape) =
      match add s e with
      | .error fault => .error (.invalidValue fault)
      | .ok s => read s depth tape

theorem ReadsContent.read_tape {context : String} {add : σ → Event → Except ValueFault σ}
    {read : σ → Nat → Tape → Except DecodeError (σ × Tape)} (h : ReadsContent context add read)
    (s : σ) (depth : Nat) (c : Cursor) :
    read s depth c.tape = leave (content context add s depth c) := by
  induction c using Cursor.next_induction generalizing s depth with
  | broken c fault hnext =>
    rw [content_of_broken hnext, Cursor.tape_of_broken hnext, h.broken]
    rfl
  | finished c hnext =>
    rw [content_of_finished hnext, Cursor.tape_of_finished hnext, h.finished]
    rfl
  | step c e c' hnext ih =>
    have hlt := Cursor.remaining_lt_of_next hnext
    rw [Cursor.tape_of_next hnext]
    by_cases he : e.IsTag
    · cases e with
      | start name => rw [content_start hnext, h.start, ih c' hlt]
      | close name =>
        cases depth with
        | zero =>
          rw [content_close_zero hnext, h.close_zero]
          rfl
        | succ depth => rw [content_close_succ hnext, h.close_succ, ih c' hlt]
      | _ => exact absurd he id
    · rw [content_of_not_isTag he hnext, h.of_not_isTag s depth c'.tape he]
      cases add s e with
      | error fault => rfl
      | ok s => exact ih c' hlt s depth

theorem readsContent_skipElement : ReadsContent "skipped element" (fun _ _ => .ok ())
    fun _ depth tape => (Reader.skipElement depth tape).map fun rest => ((), rest) where
  finished _ _ := rfl
  broken _ _ _ := rfl
  start _ _ _ _ := rfl
  close_zero _ _ _ := rfl
  close_succ _ _ _ _ := rfl
  of_not_isTag _ _ _ _ he := by rw [Reader.skipElement_of_not_isTag he]

theorem readsContent_readText : ReadsContent "text content" addPiece Reader.readText where
  finished _ _ := rfl
  broken _ _ _ := rfl
  start _ _ _ _ := rfl
  close_zero _ _ _ := rfl
  close_succ _ _ _ _ := rfl
  of_not_isTag before depth e tape he := by
    rw [Reader.readText_of_not_isTag he, addPiece]
    cases Reader.piece e <;> rfl

theorem follows_skip : skip.Follows .skip := fun _ c => readsContent_skipElement.read_tape () 0 c

theorem follows_text : text.Follows .text := by
  intro trim c
  simp only [Reader.text, text, Pass.refine, rawText, readsContent_readText.read_tape]
  rcases content "text content" addPiece "" 0 c with ⟨e | a, c'⟩ <;> rfl

theorem follows_ofChild {visit : String → Pass α} {child : String → Reader α}
    (h : ∀ name, (visit name).Follows (child name)) (name : Bytes) :
    (ofChild visit name).Follows (Reader.ofChild child name) := by
  unfold ofChild Reader.ofChild
  cases Utf8.decode (Reader.localName name) with
  | error fault => exact follows_fail _
  | ok name => exact h name

theorem ofChild_refine (visit : String → Pass α) (f : α → Except ValueFault β) (name : Bytes) :
    ofChild (fun name => (visit name).refine f) name = (ofChild visit name).refine f := by
  unfold ofChild
  cases Utf8.decode (Reader.localName name) <;> rfl

/-- Visitors that change the value as readers of children say make of it what the readers make. -/
theorem foldChildren_tape {visit : String → Pass (σ → σ)} {child : String → Reader (σ → σ)}
    (h : ∀ name, (visit name).Follows (child name)) (context : String) (trim : Bool) (acc : σ)
    (c : Cursor) :
    Reader.foldChildren context child trim acc c.tape =
      leave (foldChildren context (fun name acc => (visit name).refine fun change =>
        .ok (change acc)) trim acc c) := by
  induction c using Cursor.next_induction generalizing acc with
  | broken c fault hnext =>
    rw [foldChildren_of_broken hnext, Cursor.tape_of_broken hnext, Reader.foldChildren]
    rfl
  | finished c hnext =>
    rw [foldChildren_of_finished hnext, Cursor.tape_of_finished hnext, Reader.foldChildren]
    rfl
  | step c e c' hnext ih =>
    have hlt := Cursor.remaining_lt_of_next hnext
    rw [Cursor.tape_of_next hnext]
    cases e with
    | start name =>
      rw [foldChildren_start hnext, Reader.foldChildren_start, follows_ofChild h name trim c',
        ofChild_refine]
      cases hrun : (ofChild visit name).run trim c' with
      | mk outcome c'' =>
        cases outcome with
        | error e => simp [leave, Pass.refine, hrun]
        | ok change =>
          have hchild := (ofChild visit name).remaining_lt hnext hrun
          simpa [leave, Pass.refine, hrun, Except.mapError] using
            ih c'' (hchild.trans hlt) (change acc)
    | close name =>
      rw [foldChildren_close hnext, Reader.foldChildren_close]
      rfl
    | _ =>
      rw [foldChildren_of_not_isTag id hnext, Reader.foldChildren_of_not_isTag id]
      exact ih c' hlt acc

end Pass

/-! ### Decoders -/

namespace Decoder

variable {α : Type}

/-- The pass that follows a decoder. -/
def pass : {α : Type} → Decoder α → Pass α
  | _, .text => .text
  | _, .skip => .skip
  | _, .unrecognized name => .fail (.unrecognized name)
  | _, .refine f d => d.pass.refine f
  | _, .children context child zero =>
    .children context (fun name acc => (child name).pass.refine fun change => .ok (change acc)) zero

/-- From every place in a document a decoder reads what its pass reads, and leaves what the pass
leaves. -/
theorem follows_pass (d : Decoder α) : d.pass.Follows d.reader := by
  induction d with
  | text => exact Pass.follows_text
  | skip => exact Pass.follows_skip
  | unrecognized name => exact Pass.follows_fail _
  | refine f d ih => exact ih.refine f
  | children context child zero ih =>
    exact fun trim c => Pass.foldChildren_tape ih context trim zero c

end Decoder

end BucketWire

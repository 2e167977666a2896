import BucketWire.Decode.Error
import BucketWire.Markup.Tape
import BucketWire.Text.Blank

/-!
# Reading one element

A reader takes the events of one element off a tape. It is run just after the start of the element
and reads on to the element's own end, so that whoever ran it goes on right after the element.

Every reader takes at least one event, the end of its element. This is part of what a reader is,
because it is the reason why reading one child after the other comes to an end.

## Main definitions

* `Reader` — a function on tapes that leaves a shorter tape
* `Reader.text` — read the text of an element, that of nested elements included
* `Reader.skip` — read over any content
* `Reader.children` — read the children one after the other, each of which changes a value
-/

namespace BucketWire

/-- A reader of one element, run just after the element's start. It is told whether texts are
trimmed, and gives what it read and the events after the element. -/
structure Reader (α : Type) where
  run : Bool → Tape → Except DecodeError (α × Tape)
  /-- The end of the element is taken off the tape. -/
  size_lt : ∀ {trim tape a rest}, run trim tape = .ok (a, rest) → rest.size < tape.size

namespace Reader

variable {α β σ : Type}

/-- Refuse the element for the reason `e`. -/
def fail (e : DecodeError) : Reader α where
  run _ _ := .error e
  size_lt h := by cases h

/-- Read by `r` and make a value of what was read, if `f` can. -/
def refine (f : α → Except ValueFault β) (r : Reader α) : Reader β where
  run trim tape :=
    match r.run trim tape with
    | .error e => .error e
    | .ok (a, rest) =>
      match f a with
      | .error fault => .error (.invalidValue fault)
      | .ok b => .ok (b, rest)
  size_lt {trim tape b rest} h := by
    cases hr : r.run trim tape with
    | error e => simp [hr] at h
    | ok p =>
      obtain ⟨a, rest'⟩ := p
      cases hf : f a with
      | error fault => simp [hr, hf] at h
      | ok b' =>
        simp only [hr, hf, Except.ok.injEq, Prod.mk.injEq] at h
        obtain ⟨-, rfl⟩ := h
        exact r.size_lt hr

/-! ### Text -/

/-- The text that an event adds to the text around it. -/
def piece : Event → Except ValueFault String
  | .text raw => (Utf8.decode raw).mapError .encoding
  | .literal raw => (Utf8.decode raw).mapError .encoding
  | .reference raw => ((Reference.resolve raw).mapError .reference).map String.singleton
  | _ => .ok ""

/-- The text up to the end of the element that is open around `depth` others, after `before`. The
depth is any number: it stands for a counter of 32 bits as long as fewer than `2 ^ 32` elements are
open at a time. -/
def readText (before : String) (depth : Nat) : Tape → Except DecodeError (String × Tape)
  | .finished => .error (.unexpectedEnd "text content")
  | .broken fault => .error (.malformed fault)
  | .event (.start _) rest => readText before (depth + 1) rest
  | .event (.close _) rest =>
    match depth with
    | 0 => .ok (before, rest)
    | depth + 1 => readText before depth rest
  | .event e rest =>
    match piece e with
    | .error fault => .error (.invalidValue fault)
    | .ok text => readText (before ++ text) depth rest

theorem size_lt_of_readText {before text : String} {depth : Nat} {tape rest : Tape}
    (h : readText before depth tape = .ok (text, rest)) : rest.size < tape.size := by
  induction tape generalizing before depth with
  | finished => simp [readText] at h
  | broken fault => simp [readText] at h
  | event e tape ih =>
    have hpiece : ∀ {t : Except ValueFault String},
        (match t with
          | .error fault => (.error (.invalidValue fault) : Except DecodeError (String × Tape))
          | .ok text => readText (before ++ text) depth tape) = .ok (text, rest) →
        rest.size < tape.size + 1 := by
      intro t ht
      cases t with
      | error fault => simp at ht
      | ok text => exact Nat.lt_succ_of_lt (ih ht)
    cases e with
    | start name => exact Nat.lt_succ_of_lt (ih h)
    | close name =>
      cases depth with
      | zero =>
        simp only [readText, Except.ok.injEq, Prod.mk.injEq] at h
        rw [← h.2]
        exact Nat.lt_succ_self _
      | succ depth => exact Nat.lt_succ_of_lt (ih h)
    | text raw => exact hpiece (t := piece (.text raw)) h
    | literal raw => exact hpiece (t := piece (.literal raw)) h
    | reference raw => exact hpiece (t := piece (.reference raw)) h
    | remark => exact hpiece (t := piece .remark) h

/-- The text of an element, with references resolved and the texts of nested elements in place. It
is trimmed as a whole if texts are. -/
def text : Reader String where
  run trim tape := (readText "" 0 tape).map fun (text, rest) =>
    (if trim then Text.trim text else text, rest)
  size_lt {trim tape a rest} h := by
    cases hr : readText "" 0 tape with
    | error e => simp [hr, Except.map] at h
    | ok p =>
      simp only [hr, Except.map, Except.ok.injEq, Prod.mk.injEq] at h
      obtain ⟨-, rfl⟩ := h
      exact size_lt_of_readText hr

/-! ### Skipping -/

/-- The events after the element that is open around `depth` others. As in `readText`, fewer than
`2 ^ 32` elements are meant to be open at a time. -/
def skipElement (depth : Nat) : Tape → Except DecodeError Tape
  | .finished => .error (.unexpectedEnd "skipped element")
  | .broken fault => .error (.malformed fault)
  | .event (.start _) rest => skipElement (depth + 1) rest
  | .event (.close _) rest =>
    match depth with
    | 0 => .ok rest
    | depth + 1 => skipElement depth rest
  | .event _ rest => skipElement depth rest

theorem size_lt_of_skipElement {depth : Nat} {tape rest : Tape}
    (h : skipElement depth tape = .ok rest) : rest.size < tape.size := by
  induction tape generalizing depth with
  | finished => simp [skipElement] at h
  | broken fault => simp [skipElement] at h
  | event e tape ih =>
    cases e with
    | close name =>
      cases depth with
      | zero =>
        simp only [skipElement, Except.ok.injEq] at h
        rw [← h]
        exact Nat.lt_succ_self _
      | succ depth => exact Nat.lt_succ_of_lt (ih h)
    | _ => exact Nat.lt_succ_of_lt (ih h)

/-- Nothing, whatever the element holds. -/
def skip : Reader Unit where
  run _ tape := (skipElement 0 tape).map fun rest => ((), rest)
  size_lt {trim tape a rest} h := by
    cases hs : skipElement 0 tape with
    | error e => simp [hs, Except.map] at h
    | ok rest' =>
      simp only [hs, Except.map, Except.ok.injEq, Prod.mk.injEq] at h
      obtain ⟨-, rfl⟩ := h
      exact size_lt_of_skipElement hs

/-! ### Children -/

/-- A full name without its prefix, which goes up to the first colon. -/
def localName (name : Bytes) : Bytes :=
  match name.dropWhile (· ≠ Ascii.colon) with
  | [] => name
  | _ :: rest => rest

/-- The reader of the child with the full name `name`, if `child` gives the reader of every local
name. A local name that is not UTF-8 is refused. -/
def ofChild (child : String → Reader α) (name : Bytes) : Reader α :=
  match Utf8.decode (localName name) with
  | .error fault => fail (.invalidValue (.name fault))
  | .ok name => child name

/-- The value `acc` after all children that are still to come, each of which is read and changes
the value. What stands between the children says nothing. -/
def foldChildren (context : String) (child : String → Reader (σ → σ)) (trim : Bool) (acc : σ)
    (tape : Tape) : Except DecodeError (σ × Tape) :=
  match tape with
  | .finished => .error (.unexpectedEnd context)
  | .broken fault => .error (.malformed fault)
  | .event (.close _) rest => .ok (acc, rest)
  | .event (.start name) rest =>
    match h : (ofChild child name).run trim rest with
    | .error e => .error e
    | .ok (change, rest') =>
      have := (ofChild child name).size_lt h
      foldChildren context child trim (change acc) rest'
  | .event _ rest => foldChildren context child trim acc rest
termination_by tape.size
decreasing_by
  · simp only [Tape.size]
    omega
  · simp [Tape.size]

theorem size_lt_of_foldChildren {context : String} {child : String → Reader (σ → σ)} {trim : Bool}
    {acc a : σ} {tape rest : Tape}
    (h : foldChildren context child trim acc tape = .ok (a, rest)) : rest.size < tape.size := by
  induction hn : tape.size using Nat.strongRecOn generalizing tape acc with
  | _ n ih =>
    subst hn
    unfold foldChildren at h
    split at h
    · cases h
    · cases h
    · simp only [Except.ok.injEq, Prod.mk.injEq] at h
      rw [← h.2]
      exact Nat.lt_succ_self _
    · rename_i name tape'
      simp only [Tape.size] at ih ⊢
      split at h
      · cases h
      · rename_i change rest' hr
        have hd := (ofChild child name).size_lt hr
        have := ih rest'.size (by omega) h rfl
        omega
    · simp only [Tape.size] at ih ⊢
      exact Nat.lt_succ_of_lt (ih _ (by omega) h rfl)

/-- Read the value `zero`, changed by every child; `context` names the element. -/
def children (context : String) (child : String → Reader (σ → σ)) (zero : σ) : Reader σ where
  run trim tape := foldChildren context child trim zero tape
  size_lt h := size_lt_of_foldChildren h

end Reader

end BucketWire

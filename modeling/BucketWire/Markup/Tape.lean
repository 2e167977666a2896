import BucketWire.Markup.Cursor

/-!
# The events of a document

A tape is the sequence of events of a document, up to its end or to its first fault. It is what
decoders read: a decoder takes events off the front and leaves the rest.

## Main definitions

* `Tape` — events, then the end of the document or a fault
* `Cursor.tape` — the events from a place on
* `Tape.ofDocument` — the events of a document
* `Tape.size` — the number of events

## Main results

* `Cursor.tape_eq` — a tape reports what its cursor reports, one event after the other
-/

namespace BucketWire

/-- The events of a document. -/
inductive Tape where
  /-- The document is at its end. -/
  | finished
  /-- The document cannot be read on. -/
  | broken (fault : Markup.Fault)
  /-- An event, and those after it. -/
  | event (head : Event) (rest : Tape)
  deriving DecidableEq, Repr

/-- The events from `c` on. -/
def Cursor.tape (c : Cursor) : Tape :=
  match h : c.next with
  | .error fault => .broken fault
  | .ok none => .finished
  | .ok (some (e, c')) =>
    have := remaining_lt_of_next h
    .event e c'.tape
termination_by c.remaining

theorem Cursor.tape_eq (c : Cursor) :
    c.tape = match c.next with
      | .error fault => .broken fault
      | .ok none => .finished
      | .ok (some (e, c')) => .event e c'.tape := by
  rw [Cursor.tape]
  split <;> simp_all

namespace Tape

/-- The events of `document`. -/
def ofDocument (checkNames : Bool) (document : Bytes) : Tape :=
  (Cursor.ofDocument checkNames document).tape

/-- The number of events. -/
def size : Tape → Nat
  | finished => 0
  | broken _ => 0
  | event _ rest => rest.size + 1

end Tape

end BucketWire

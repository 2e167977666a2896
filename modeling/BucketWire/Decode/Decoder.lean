import BucketWire.Decode.Reader
import BucketWire.Settings

/-!
# Decoders

A decoder says what the content of an element stands for: a text, a value made of a text, or a
record that every child changes in turn. Decoders for large records are put together from decoders
for their parts. A decoder is a description and not yet a function; `Decoder.reader` turns it into
the reader that follows it. So what holds of every decoder, however large, is shown once for each
way to put one together.

## Main definitions

* `Decoder` — a description of the content of an element
* `Decoder.reader` — the reader that follows a description
* `Decoder.decode` — what a decoder reads from the root element of a document
-/

namespace BucketWire

/-- What the content of an element stands for. -/
inductive Decoder : Type → Type 1 where
  /-- The text of the element, that of nested elements included. -/
  | text : Decoder String
  /-- Nothing, whatever the element holds. -/
  | skip : Decoder Unit
  /-- The element `name` cannot stand where it does. -/
  | unrecognized {α : Type} (name : String) : Decoder α
  /-- What `d` decodes, made into another value if `f` can. -/
  | refine {α β : Type} (f : α → Except ValueFault β) (d : Decoder α) : Decoder β
  /-- The value `zero`, changed by every child as `child` says of its local name; `context` names
  the element. -/
  | children {σ : Type} (context : String) (child : String → Decoder (σ → σ)) (zero : σ) : Decoder σ

namespace Decoder

variable {α β : Type}

/-- What `d` decodes, changed by `f`. -/
def map (f : α → β) (d : Decoder α) : Decoder β := d.refine fun a => .ok (f a)

/-! ### Reading -/

/-- The reader that follows a decoder. -/
def reader : {α : Type} → Decoder α → Reader α
  | _, .text => .text
  | _, .skip => .skip
  | _, .unrecognized name => .fail (.unrecognized name)
  | _, .refine f d => d.reader.refine f
  | _, .children context child zero => .children context (fun name => (child name).reader) zero

/-- What `d` reads from the events after the start of an element, and the events after the
element. -/
def run (d : Decoder α) (trim : Bool) (tape : Tape) : Except DecodeError (α × Tape) :=
  d.reader.run trim tape

/-! ### Whole documents -/

/-- The events after the start of the root element, whatever its name. -/
def enterRoot : Tape → Except DecodeError Tape
  | .finished => .error .noRoot
  | .broken fault => .error (.malformed fault)
  | .event (.start _) rest => .ok rest
  | .event _ rest => enterRoot rest

/-- What `d` reads from the root element of `document`. What follows the root is not looked at, so
it need not even be markup. -/
def decode (d : Decoder α) (settings : Settings) (document : Bytes) : Except DecodeError α := do
  let tape ← enterRoot (Tape.ofDocument settings.checkEndNames document)
  let (a, _) ← d.run settings.trimText tape
  return a

end Decoder

end BucketWire

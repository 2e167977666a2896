import BucketWire.Decode.Decoder

/-!
# Decoding in a session

Whether texts are trimmed is not handed from decoder to decoder. It belongs to the session in which
documents are decoded, where the decoder of a text looks it up. A decode sets it for its own
document and puts back what it found, however it ends; so decodes can follow one another and can
stand inside one another.

## Main definitions

* `Session` — what decodes have in common
* `Plan` — a decoder that may decode other documents while it reads its own
* `Plan.run` — read an element as planned
* `Plan.decode` — decode a document as planned, within a session
-/

namespace BucketWire

/-- What the decodes of a session have in common. -/
structure Session where
  /-- Whether texts are trimmed at the moment. -/
  trim : Bool := false
  deriving DecidableEq, Repr

/-- A decoder of an element that may decode other documents in between.

A decoder that cannot read its own element any further fails with the reason, and this ends the
plan: what follows in `event` and `read` is only told what was read. It is the contract of every
decoder. Another document is not the plan's own, so what follows in `other` is told how its decode
ended, be it with an error. -/
inductive Plan : Type → Type 1 where
  /-- The element is read, and this was read from it. -/
  | done {α : Type} (a : α) : Plan α
  /-- The element is refused. -/
  | fail {α : Type} (e : DecodeError) : Plan α
  /-- Take one event, or find out that the document is at its end. Markup that cannot be read ends
  the plan. -/
  | event {α : Type} (next : Option Event → Plan α) : Plan α
  /-- Go on as the number of events that are still to come says, which is how often a loop over
  events can go round. -/
  | unroll {α : Type} (next : Nat → Plan α) : Plan α
  /-- Read on with `d`, whose failure ends the plan. -/
  | read {α β : Type} (d : Decoder β) (next : β → Plan α) : Plan α
  /-- Decode another document as planned in `inner`, and go on with the outcome. -/
  | other {α β : Type} (settings : Settings) (document : Bytes) (inner : Plan β)
      (next : Except DecodeError β → Plan α) : Plan α

namespace Plan

variable {α : Type}

/-- The root of `document`, read by `body` within a session that trims as `settings` say for as
long as it lasts. -/
def within (settings : Settings) (document : Bytes)
    (body : Session → Tape → Except DecodeError (α × Tape) × Session) (session : Session) :
    Except DecodeError α × Session :=
  let inner := { session with trim := settings.trimText }
  let result : Except DecodeError (α × Tape) × Session :=
    match Decoder.enterRoot (Tape.ofDocument settings.checkEndNames document) with
    | .error e => (.error e, inner)
    | .ok tape => body inner tape
  (result.1.map Prod.fst, { result.2 with trim := session.trim })

/-- Read an element as planned. -/
def run {α : Type} : Plan α → Session → Tape → Except DecodeError (α × Tape) × Session
  | .done a, session, tape => (.ok (a, tape), session)
  | .fail e, session, _ => (.error e, session)
  | .event next, session, tape =>
    match tape with
    | .finished => (next none).run session .finished
    | .broken fault => (.error (.malformed fault), session)
    | .event e rest => (next (some e)).run session rest
  | .unroll next, session, tape => (next tape.size).run session tape
  | .read d next, session, tape =>
    match d.run session.trim tape with
    | .error e => (.error e, session)
    | .ok (a, rest) => (next a).run session rest
  | .other settings document inner next, session, tape =>
    let result := within settings document inner.run session
    (next result.1).run result.2 tape

/-- Read an element by `d` alone. -/
def ofDecoder (d : Decoder α) : Plan α := .read d .done

/-- What a plan reads from the root element of `document`, and the session after it. -/
def decode (plan : Plan α) (settings : Settings) (document : Bytes) :
    Session → Except DecodeError α × Session :=
  within settings document plan.run

end Plan

end BucketWire

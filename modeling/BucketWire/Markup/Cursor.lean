import BucketWire.Markup.Token

/-!
# Reading a document event by event

A cursor stands in a document. It knows what is still to be read, which elements are open, and
whether the end of a self-closing element is still to be reported: such an element is read as a
start and an end, the second of which takes up no bytes.

## Main definitions

* `Event` — what a cursor reports
* `Cursor` — a place in a document
* `Cursor.next` — the next event, and the place after it
* `Cursor.remaining` — a measure of what is still to be reported

## Main results

* `Cursor.remaining_lt_of_next` — every event brings the end nearer
-/

namespace BucketWire

/-- What a document says, piece by piece. Names and contents are kept in bytes. -/
inductive Event where
  /-- An element with this full name starts. -/
  | start (name : Bytes)
  /-- The innermost open element ends; the name is that of the end tag. -/
  | close (name : Bytes)
  /-- A run of text. -/
  | text (raw : Bytes)
  /-- A section of literal text. -/
  | literal (raw : Bytes)
  /-- A reference to a character or an entity. -/
  | reference (raw : Bytes)
  /-- Something that is no content. -/
  | remark
  deriving DecidableEq, Repr

/-- A place in a document. -/
structure Cursor where
  /-- What is still to be read. -/
  rest : Bytes
  /-- The full names of the open elements, innermost first. -/
  opened : List Bytes := []
  /-- The self-closing element whose end is still to be reported. -/
  owed : Option Bytes := none
  /-- Whether an end tag has to name the innermost open element. -/
  checkNames : Bool := true
  deriving DecidableEq, Repr

namespace Cursor

open Markup (Fault)

/-- The start of `document`, past one byte order mark. -/
def ofDocument (checkNames : Bool) (document : Bytes) : Cursor :=
  let mark := Utf8.encode "\uFEFF"
  { rest := if mark.isPrefixOf document then document.drop mark.length else document
    checkNames }

/-- The place after the end tag `name`, with `rest` still to be read. -/
def close (c : Cursor) (name rest : Bytes) : Except Fault (Event × Cursor) :=
  match c.opened with
  | [] => .error (.unmatchedEnd name)
  | expected :: outer =>
    if c.checkNames ∧ name ≠ expected then .error (.mismatchedEnd expected name)
    else .ok (.close name, { c with rest, opened := outer })

/-- The event of a token, and the place after it. -/
def report (c : Cursor) (rest : Bytes) : Token → Except Fault (Event × Cursor)
  | .text raw => .ok (.text raw, { c with rest })
  | .reference raw => .ok (.reference raw, { c with rest })
  | .literal raw => .ok (.literal raw, { c with rest })
  | .remark => .ok (.remark, { c with rest })
  | .startTag name false => .ok (.start name, { c with rest, opened := name :: c.opened })
  | .startTag name true => .ok (.start name, { c with rest, owed := some name })
  | .endTag name => c.close name rest

/-- The next event and the place after it; nothing at the end of the document. -/
def next (c : Cursor) : Except Fault (Option (Event × Cursor)) :=
  match c.owed with
  | some name => .ok (some (.close name, { c with owed := none }))
  | none =>
    match Token.scan c.rest with
    | .error fault => .error fault
    | .ok none => .ok none
    | .ok (some (token, rest)) => (c.report rest token).map some

/-! ### Progress -/

/-- A measure of what is still to be reported: twice the bytes that are left, and one more for the
end of a self-closing element. -/
def remaining (c : Cursor) : Nat := 2 * c.rest.length + if c.owed.isSome then 1 else 0

theorem remaining_le_of_report {c c' : Cursor} {rest : Bytes} {token : Token} {e : Event}
    (howed : c.owed = none) (h : c.report rest token = .ok (e, c')) :
    c'.remaining ≤ 2 * rest.length + 1 := by
  have hclose : ∀ {name}, c.close name rest = .ok (e, c') → c'.remaining ≤ 2 * rest.length + 1 := by
    intro name h
    rw [close] at h
    split at h
    · cases h
    · split at h
      · cases h
      · simp only [Except.ok.injEq, Prod.mk.injEq] at h
        rw [← h.2]
        simp [remaining, howed]
  cases token with
  | endTag name => exact hclose h
  | startTag name selfClosing =>
    cases selfClosing <;>
      (simp only [report, Except.ok.injEq, Prod.mk.injEq] at h
       rw [← h.2]
       simp [remaining, howed])
  | _ =>
    simp only [report, Except.ok.injEq, Prod.mk.injEq] at h
    rw [← h.2]
    simp [remaining, howed]

/-- Every event brings the end nearer. -/
theorem remaining_lt_of_next {c c' : Cursor} {e : Event} (h : c.next = .ok (some (e, c'))) :
    c'.remaining < c.remaining := by
  rw [next] at h
  split at h
  · rename_i name howed
    simp only [Except.ok.injEq, Option.some.injEq, Prod.mk.injEq] at h
    rw [← h.2]
    simp [remaining, howed]
  · rename_i howed
    split at h
    · cases h
    · cases h
    · rename_i token rest hscan
      have hlt := Token.length_lt_of_scan hscan
      cases hr : c.report rest token with
      | error fault => simp [hr, Except.map] at h
      | ok p =>
        simp only [hr, Except.map, Except.ok.injEq, Option.some.injEq] at h
        subst h
        have hle := remaining_le_of_report howed hr
        have hc : c.remaining = 2 * c.rest.length := by simp [remaining, howed]
        omega

end Cursor

end BucketWire

import BucketWire.Proofs.Markup.Extent

/-!
# End tags and the names of open elements

A reader that checks end tags and one that does not report the same events up to the first end that
does not name the innermost open element. There the one that checks breaks off and tells both names.
Which end this is can be said from the events alone.

## Main definitions

* `Tape.mismatch?` — the first end that does not name the innermost open element
* `Tape.BreaksOff` — a tape goes as another one does, up to a place where it breaks off
* `Cursor.checking` — a cursor that checks end tags, or one that does not

## Main results

* `Cursor.tape_checking_cases` — checking end tags breaks a tape off at its first mismatch, if it
  has one
-/

namespace BucketWire

open Markup (Fault)

namespace Tape

/-- The first end that does not name the innermost open element: that element, and the name in the
end tag. The elements `opened` are open at the start of the tape, innermost first. -/
def mismatch? (opened : List Bytes) : Tape → Option (Bytes × Bytes)
  | finished => none
  | broken _ => none
  | event (.start name) rest => rest.mismatch? (name :: opened)
  | event (.close found) rest =>
    match opened with
    | [] => none
    | expected :: outer =>
      if found = expected then rest.mismatch? outer else some (expected, found)
  | event _ rest => rest.mismatch? opened

/-- A tape goes as `tape` does up to some place, where it breaks off with `fault`. -/
inductive BreaksOff (fault : Fault) : Tape → Tape → Prop where
  | here (tape : Tape) : BreaksOff fault (broken fault) tape
  | event (e : Event) {part tape : Tape} :
    BreaksOff fault part tape → BreaksOff fault (event e part) (event e tape)

variable {opened : List Bytes} {name expected found : Bytes} {e : Event} {rest : Tape}

theorem mismatch?_of_not_isTag (he : ¬ e.IsTag) :
    (event e rest).mismatch? opened = rest.mismatch? opened := by
  cases e with
  | start name => exact absurd trivial he
  | close name => exact absurd trivial he
  | _ => rfl

theorem mismatch?_close_self :
    (event (.close name) rest).mismatch? (name :: opened) = rest.mismatch? opened := by
  rw [mismatch?, if_pos rfl]

theorem mismatch?_close_of_ne (h : found ≠ expected) :
    (event (.close found) rest).mismatch? (expected :: opened) = some (expected, found) := by
  rw [mismatch?, if_neg h]

end Tape

namespace Cursor

variable {c c' : Cursor} {e : Event}

/-- The place `c`, read on with or without a check of end tags. -/
def checking (c : Cursor) (checkNames : Bool) : Cursor := { c with checkNames }

@[simp] theorem path_checking (checkNames : Bool) : (c.checking checkNames).path = c.path := rfl

/-- An end tag that is checked names the innermost open element. -/
theorem path_of_next_close_of_checkNames {name : Bytes} (hcheck : c.checkNames = true)
    (h : c.next = .ok (some (.close name, c'))) : c.path = name :: c'.path := by
  obtain ⟨name', howed, he, rfl⟩ | ⟨rest, token, howed, -, hr⟩ := next_cases h
  · cases he
    simp [path, howed]
  · cases token with
    | startTag name' selfClosing => cases selfClosing <;> simp [report] at hr
    | endTag name' =>
      obtain ⟨expected, outer, hopened, hname, he, rfl⟩ := close_cases hr
      cases he
      simp [path, howed, hopened, hname hcheck]
    | _ => simp [report] at hr

/-! ### One event -/

/-- An event and the place after it, read on with or without a check of end tags. -/
def checkingAfter (checkNames : Bool) (p : Event × Cursor) : Event × Cursor :=
  (p.1, p.2.checking checkNames)

/-- A token is reported in the same way whether end tags are checked or not, or it is an end tag
that does not name the innermost open element. -/
theorem report_checking_cases (c : Cursor) (rest : Bytes) (token : Token) :
    (∃ outcome : Except Fault (Event × Cursor), ∀ checkNames,
      (c.checking checkNames).report rest token = outcome.map (checkingAfter checkNames)) ∨
    ∃ expected found outer c', c.opened = expected :: outer ∧ found ≠ expected ∧
      (c.checking false).report rest token = .ok (.close found, c') ∧
      (c.checking true).report rest token = .error (.mismatchedEnd expected found) := by
  cases token with
  | endTag name =>
    cases hopened : c.opened with
    | nil =>
      refine .inl ⟨.error (.unmatchedEnd name), fun checkNames => ?_⟩
      simp [report, close, checking, hopened, Except.map]
    | cons expected outer =>
      by_cases hname : name = expected
      · refine .inl ⟨.ok (.close name, { c with rest, opened := outer }), fun checkNames => ?_⟩
        exact close_of_opened hopened fun _ => hname
      · have hfree : (c.checking false).report rest (.endTag name) =
            .ok (.close name, { c.checking false with rest, opened := outer }) :=
          close_of_opened hopened fun h => absurd h Bool.false_ne_true
        refine .inr ⟨expected, name, outer, _, rfl, hname, hfree, ?_⟩
        simp [report, close, checking, hopened, hname]
  | startTag name selfClosing =>
    cases selfClosing with
    | false =>
      exact .inl ⟨.ok (.start name, { c with rest, opened := name :: c.opened }), fun _ => rfl⟩
    | true => exact .inl ⟨.ok (.start name, { c with rest, owed := some name }), fun _ => rfl⟩
  | text raw => exact .inl ⟨.ok (.text raw, { c with rest }), fun _ => rfl⟩
  | reference raw => exact .inl ⟨.ok (.reference raw, { c with rest }), fun _ => rfl⟩
  | literal raw => exact .inl ⟨.ok (.literal raw, { c with rest }), fun _ => rfl⟩
  | remark => exact .inl ⟨.ok (.remark, { c with rest }), fun _ => rfl⟩

/-- What comes next is the same whether end tags are checked or not, or it is an end that does not
name the innermost open element. -/
theorem next_checking_cases (c : Cursor) :
    (∃ outcome : Except Fault (Option (Event × Cursor)), ∀ checkNames,
      (c.checking checkNames).next = outcome.map (Option.map (checkingAfter checkNames))) ∨
    ∃ expected found outer c', c.path = expected :: outer ∧ found ≠ expected ∧
      (c.checking false).next = .ok (some (.close found, c')) ∧
      (c.checking true).next = .error (.mismatchedEnd expected found) := by
  cases howed : c.owed with
  | some name =>
    exact .inl ⟨.ok (some (.close name, { c with owed := none })), fun _ => next_of_owed howed⟩
  | none =>
    cases hscan : Token.scan c.rest with
    | error fault =>
      exact .inl ⟨.error fault, fun _ => by simp [next, checking, howed, hscan, Except.map]⟩
    | ok scanned =>
      cases scanned with
      | none => exact .inl ⟨.ok none, fun _ => by simp [next, checking, howed, hscan, Except.map]⟩
      | some p =>
        obtain ⟨token, rest⟩ := p
        have hnext (checkNames : Bool) : (c.checking checkNames).next =
            ((c.checking checkNames).report rest token).map some := next_of_scan howed hscan
        obtain ⟨outcome, houtcome⟩ | ⟨expected, found, outer, c', hopened, hne, hfree, hcheck⟩ :=
          report_checking_cases c rest token
        · refine .inl ⟨outcome.map some, fun checkNames => ?_⟩
          rw [hnext, houtcome]
          cases outcome <;> rfl
        · refine .inr ⟨expected, found, outer, c', by simp [path, howed, hopened], hne, ?_, ?_⟩
          · rw [hnext, hfree]
            rfl
          · rw [hnext, hcheck]
            rfl

/-! ### All events -/

/-- The first mismatch from a place on is the first one after the next event, if that is none. -/
theorem mismatch?_event (h : (c.checking true).next = .ok (some (e, c'.checking true)))
    (rest : Tape) : (Tape.event e rest).mismatch? c.path = rest.mismatch? c'.path := by
  rw [← path_checking true, ← c'.path_checking true]
  by_cases he : e.IsTag
  · cases e with
    | start name => rw [path_of_next_start h, Tape.mismatch?]
    | close name => rw [path_of_next_close_of_checkNames rfl h, Tape.mismatch?_close_self]
    | _ => exact absurd he id
  · rw [Tape.mismatch?_of_not_isTag he, (path_of_next_of_not_isTag h he).1]

/-- Checking end tags changes nothing, or there is an end that does not name the innermost open
element, and the first such end breaks the tape off. -/
theorem tape_checking_cases (c : Cursor) :
    ((c.checking false).tape.mismatch? c.path = none ∧
      (c.checking true).tape = (c.checking false).tape) ∨
    ∃ expected found, (c.checking false).tape.mismatch? c.path = some (expected, found) ∧
      found ≠ expected ∧ Tape.BreaksOff (.mismatchedEnd expected found) (c.checking true).tape
        (c.checking false).tape := by
  induction hn : c.remaining using Nat.strongRecOn generalizing c with
  | _ n ih =>
    subst hn
    rw [(c.checking false).tape_eq, (c.checking true).tape_eq]
    obtain ⟨outcome, hnext⟩ | ⟨expected, found, outer, c', hpath, hne, hfree, hcheck⟩ :=
      next_checking_cases c
    · rw [hnext, hnext]
      cases outcome with
      | error fault => exact .inl ⟨rfl, rfl⟩
      | ok reported =>
        cases reported with
        | none => exact .inl ⟨rfl, rfl⟩
        | some p =>
          obtain ⟨e, c'⟩ := p
          have hstep : (c.checking true).next = .ok (some (e, c'.checking true)) := hnext true
          have hlt : (c'.checking true).remaining < (c.checking true).remaining :=
            remaining_lt_of_next hstep
          have hmismatch : ∀ rest, (Tape.event e rest).mismatch? c.path = rest.mismatch? c'.path :=
            mismatch?_event hstep
          simp only [Except.map, Option.map, checkingAfter, hmismatch]
          obtain ⟨hnone, heq⟩ | ⟨expected, found, hfound, hne, hbreaks⟩ := ih _ hlt c' rfl
          · exact .inl ⟨hnone, by rw [heq]⟩
          · exact .inr ⟨expected, found, hfound, hne, hbreaks.event e⟩
    · rw [hfree, hcheck, hpath]
      exact .inr ⟨expected, found, Tape.mismatch?_close_of_ne hne, hne, .here _⟩

end Cursor

/-- The document is read without a check of end tags up to its first mismatch, where the check
breaks it off. -/
theorem Tape.ofDocument_checking_cases (document : Bytes) :
    ((ofDocument false document).mismatch? [] = none ∧
      ofDocument true document = ofDocument false document) ∨
    ∃ expected found, (ofDocument false document).mismatch? [] = some (expected, found) ∧
      found ≠ expected ∧
      BreaksOff (.mismatchedEnd expected found) (ofDocument true document)
        (ofDocument false document) :=
  (Cursor.ofDocument true document).tape_checking_cases

end BucketWire

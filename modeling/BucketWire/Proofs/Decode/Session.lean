import BucketWire.Decode.Session
import BucketWire.Proofs.Decode.Extent

/-!
# Decodes in one session do not meet

The setting of a session is looked up by whoever reads a text and is set anew by every decode, also
by one within another. Nevertheless a decode always finds the session as its own settings make it:
what it reads is the same in every session, it leaves the session as it found it, however it ends,
and so does every decode within it.

## Main definitions

* `Plan.reading`, `Plan.decodeAlone` — what a plan reads, said without a session
* `Decoder.plan` — a decoder as a plan that looks the setting up for every single text
* `Task`, `Task.runAll` — decodes one after the other in one session

## Main results

* `Plan.run_eq` — a plan reads as it does without a session, and leaves the session as it was
* `Decoder.run_plan` — looking the setting up for every text, or once
* `Task.runAll_isolated` — every decode of a session answers as it does alone
-/

namespace BucketWire

variable {α β σ : Type}

namespace Plan

/-! ### Plans without a session -/

/-- The root of `document`, read by `body`, which is told once whether texts are trimmed. -/
def alone (settings : Settings) (document : Bytes)
    (body : Bool → Tape → Except DecodeError (α × Tape)) : Except DecodeError α := do
  let tape ← Decoder.enterRoot (Tape.ofDocument settings.checkEndNames document)
  let (a, _) ← body settings.trimText tape
  return a

/-- What a plan reads from an element whose texts are trimmed or not. Other documents that it
decodes in between follow their own settings. -/
def reading {α : Type} : Plan α → Bool → Tape → Except DecodeError (α × Tape)
  | .done a, _, tape => .ok (a, tape)
  | .fail e, _, _ => .error e
  | .event next, trim, tape =>
    match tape with
    | .finished => (next none).reading trim .finished
    | .broken fault => .error (.malformed fault)
    | .event e rest => (next (some e)).reading trim rest
  | .unroll next, trim, tape => (next tape.size).reading trim tape
  | .read d next, trim, tape =>
    match d.run trim tape with
    | .error e => .error e
    | .ok (a, rest) => (next a).reading trim rest
  | .other settings document inner next, trim, tape =>
    (next (alone settings document inner.reading)).reading trim tape

/-- What a plan reads from the root element of `document`. -/
def decodeAlone (plan : Plan α) (settings : Settings) (document : Bytes) : Except DecodeError α :=
  alone settings document plan.reading

/-- A decode puts back what it found, if whoever reads the root element does. -/
theorem within_eq {settings : Settings} {document : Bytes}
    {body : Session → Tape → Except DecodeError (α × Tape) × Session}
    {body' : Bool → Tape → Except DecodeError (α × Tape)}
    (hbody : ∀ session tape, body session tape = (body' session.trim tape, session))
    (session : Session) :
    within settings document body session = (alone settings document body', session) := by
  simp only [within, alone]
  cases Decoder.enterRoot (Tape.ofDocument settings.checkEndNames document) with
  | error e => rfl
  | ok tape =>
    simp only [hbody, bind, Except.bind]
    cases body' settings.trimText tape <;> rfl

/-- A plan reads as it does without a session, and leaves the session as it was. -/
theorem run_eq (plan : Plan α) (session : Session) (tape : Tape) :
    plan.run session tape = (plan.reading session.trim tape, session) := by
  induction plan generalizing session tape with
  | done a => rfl
  | fail e => rfl
  | event next ih =>
    cases tape with
    | finished => exact ih none session .finished
    | broken fault => rfl
    | event e rest => exact ih (some e) session rest
  | unroll next ih => exact ih tape.size session tape
  | read d next ih =>
    rw [run, reading]
    cases d.run session.trim tape with
    | error e => rfl
    | ok p => exact ih p.1 session p.2
  | other settings document inner next ihInner ihNext =>
    rw [run, reading, within_eq ihInner]
    exact ihNext _ session tape

theorem decode_eq (plan : Plan α) (settings : Settings) (document : Bytes) (session : Session) :
    plan.decode settings document session = (plan.decodeAlone settings document, session) :=
  within_eq plan.run_eq session

/-! ### Plans one after the other -/

/-- Read as planned in `plan` and go on with what was read. -/
def bind {α : Type} : Plan α → (α → Plan β) → Plan β
  | .done a, f => f a
  | .fail e, _ => .fail e
  | .event next, f => .event fun e => (next e).bind f
  | .unroll next, f => .unroll fun n => (next n).bind f
  | .read d next, f => .read d fun b => (next b).bind f
  | .other settings document inner next, f =>
    .other settings document inner fun outcome => (next outcome).bind f

theorem reading_bind (plan : Plan α) (f : α → Plan β) (trim : Bool) (tape : Tape) :
    (plan.bind f).reading trim tape =
      plan.reading trim tape >>= fun p => (f p.1).reading trim p.2 := by
  induction plan generalizing tape with
  | done a => rfl
  | fail e => rfl
  | event next ih =>
    cases tape with
    | finished => exact ih none f .finished
    | broken fault => rfl
    | event e rest => exact ih (some e) f rest
  | unroll next ih => exact ih tape.size f tape
  | read d next ih =>
    rw [bind, reading, reading]
    cases d.run trim tape with
    | error e => rfl
    | ok p => exact ih p.1 f p.2
  | other settings document inner next _ ih => exact ih _ f tape

/-! ### Decoders as plans -/

/-- The value `acc` after all children that are still to come, no more than `n` events on, each of
which is read as planned and changes the value. -/
def childrenWithin (context : String) (child : String → Plan (σ → σ)) : Nat → σ → Plan σ
  | 0, _ => .fail (.unexpectedEnd context)
  | n + 1, acc => .event fun
    | none => .fail (.unexpectedEnd context)
    | some (.close _) => .done acc
    | some (.start name) =>
      match Utf8.decode (Reader.localName name) with
      | .error fault => .fail (.invalidValue (.name fault))
      | .ok name => (child name).bind fun change => childrenWithin context child n (change acc)
    | some _ => childrenWithin context child n acc

/-- The value `zero`, changed by every child as planned; `context` names the element. -/
def children (context : String) (child : String → Plan (σ → σ)) (zero : σ) : Plan σ :=
  .unroll fun n => childrenWithin context child (n + 1) zero

end Plan

namespace Decoder

/-- A decoder as a plan. The setting of the session is looked up for every text by itself. -/
def plan : {α : Type} → Decoder α → Plan α
  | _, .text => .read .text .done
  | _, .skip => .read .skip .done
  | _, .unrecognized name => .fail (.unrecognized name)
  | _, .refine f d => d.plan.bind fun a =>
    match f a with
    | .error fault => .fail (.invalidValue fault)
    | .ok b => .done b
  | _, .children context child zero => .children context (fun name => (child name).plan) zero

theorem reading_childrenWithin {context : String} {child : String → Plan (σ → σ)}
    {d : String → Decoder (σ → σ)} {trim : Bool}
    (hchild : ∀ name tape, (child name).reading trim tape = (d name).run trim tape) {n : Nat}
    {acc : σ} {tape : Tape} (hn : tape.size < n) :
    (Plan.childrenWithin context child n acc).reading trim tape =
      Reader.foldChildren context (fun name => (d name).reader) trim acc tape := by
  induction n generalizing acc tape with
  | zero => omega
  | succ n ih =>
    cases tape with
    | finished =>
      rw [Reader.foldChildren]
      rfl
    | broken fault =>
      rw [Reader.foldChildren]
      rfl
    | event e tape =>
      have hn' : tape.size < n := Nat.lt_of_succ_lt_succ hn
      by_cases he : e.IsTag
      · cases e with
        | close name =>
          rw [Reader.foldChildren_close]
          rfl
        | start name =>
          rw [Reader.foldChildren_start, Reader.ofChild, Plan.childrenWithin, Plan.reading]
          simp only
          cases Utf8.decode (Reader.localName name) with
          | error fault => rfl
          | ok localName =>
            simp only
            rw [Plan.reading_bind, hchild, run]
            cases hrun : (d localName).reader.run trim tape with
            | error e => rfl
            | ok p =>
              have hlt := (d localName).reader.size_lt hrun
              exact ih (by omega)
        | _ => exact absurd he id
      · rw [Reader.foldChildren_of_not_isTag he, ← ih hn']
        cases e with
        | start name => exact absurd trivial he
        | close name => exact absurd trivial he
        | _ => rfl

/-- Looking the setting up for every text comes to the same as looking it up once. -/
theorem run_plan (d : Decoder α) (trim : Bool) (tape : Tape) :
    d.plan.reading trim tape = d.run trim tape := by
  induction d generalizing tape with
  | text =>
    rw [plan, Plan.reading]
    cases text.run trim tape <;> rfl
  | skip =>
    rw [plan, Plan.reading]
    cases skip.run trim tape <;> rfl
  | unrecognized name => rfl
  | refine f d ih =>
    rw [plan, Plan.reading_bind, ih, run_refine]
    cases d.run trim tape with
    | error e => rfl
    | ok p =>
      obtain ⟨a, rest⟩ := p
      simp only [bind, Except.bind]
      cases f a <;> rfl
  | children context child zero ih =>
    exact reading_childrenWithin ih (Nat.lt_succ_self _)

theorem decodeAlone_plan (d : Decoder α) (settings : Settings) (document : Bytes) :
    d.plan.decodeAlone settings document = d.decode settings document := by
  simp only [Plan.decodeAlone, Plan.alone, decode, run_plan]

end Decoder

/-! ### Decodes of one session -/

/-- A decode: a document, how it is read, and the settings. -/
structure Task where
  {Value : Type}
  plan : Plan Value
  settings : Settings
  document : Bytes

namespace Task

/-- What a task gives, and the session after it. -/
def run (task : Task) (session : Session) : Except DecodeError task.Value × Session :=
  task.plan.decode task.settings task.document session

/-- What each of the tasks gives if they are run one after the other, and the session after the
last one. -/
def runAll : List Task → Session → List ((task : Task) × Except DecodeError task.Value) × Session
  | [], session => ([], session)
  | task :: tasks, session =>
    let (outcome, session) := task.run session
    let (outcomes, session) := runAll tasks session
    (⟨task, outcome⟩ :: outcomes, session)

theorem run_eq (task : Task) (session : Session) :
    task.run session = (task.plan.decodeAlone task.settings task.document, session) :=
  task.plan.decode_eq _ _ session

theorem runAll_eq (tasks : List Task) (session : Session) :
    runAll tasks session = (tasks.map fun task => ⟨task, (task.run {}).1⟩, session) := by
  induction tasks with
  | nil => rfl
  | cons task tasks ih =>
    simp only [runAll, run_eq, ih, List.map_cons]

/-- No decode of a session meets another one. A decode as planned reads what it does without any
session and leaves the session as it found it; so does a decoder, whether it looks the setting up
for every text or once. Of decodes that follow one another each gives what it does in a new session.
A decode within another one does so too, and then the outer one goes on in the session in which it
was before. -/
theorem runAll_isolated (session : Session) :
    (∀ {α : Type} (plan : Plan α) (settings : Settings) (document : Bytes),
      plan.decode settings document session = (plan.decodeAlone settings document, session)) ∧
    (∀ {α : Type} (d : Decoder α) (settings : Settings) (document : Bytes),
      d.plan.decode settings document session = (d.decode settings document, session) ∧
      (Plan.ofDecoder d).decode settings document session =
        (d.decode settings document, session)) ∧
    (∀ tasks : List Task,
      runAll tasks session = (tasks.map fun task => ⟨task, (task.run {}).1⟩, session)) ∧
    ∀ {α β : Type} (settings : Settings) (document : Bytes) (inner : Plan β)
      (next : Except DecodeError β → Plan α) (tape : Tape),
      (Plan.other settings document inner next).run session tape =
        (next (inner.decode settings document {}).1).run session tape := by
  refine ⟨fun plan settings document => plan.decode_eq settings document session,
    fun d settings document => ⟨?_, ?_⟩, fun tasks => runAll_eq tasks session,
    fun settings document inner next tape => ?_⟩
  · rw [Plan.decode_eq, Decoder.decodeAlone_plan]
  · have halone : (Plan.ofDecoder d).decodeAlone settings document =
        d.decode settings document := by
      simp only [Plan.decodeAlone, Plan.alone, Decoder.decode, Plan.ofDecoder]
      congr
      funext tape
      rw [Plan.reading]
      cases d.run settings.trimText tape <;> rfl
    rw [Plan.decode_eq, halone]
  · rw [Plan.run, Plan.within_eq inner.run_eq, Plan.decode_eq]
    rfl

end Task

end BucketWire

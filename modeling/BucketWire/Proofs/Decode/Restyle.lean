import BucketWire.Proofs.Decode.Order
import BucketWire.Proofs.Markup.Restyle

/-!
# Decoders and the presentation of a document

A decoder asks for local names, for texts as a whole and for what is within an element. So it reads
the same value from two tapes that say the same, and from two documents that are presented in
different ways.

## Main results

* `Decoder.run_restyled` — a decoder reads the same from a restyled tape
* `Decoder.decode_restyled` — a document decodes to the same value as one with a restyled tape
* `Decoder.decode_rewrites` — a document decodes to the same value when it is written in another way
-/

namespace BucketWire

open Tape (Restyled)

variable {α σ : Type}

/-! ### Readers of text and of nothing -/

namespace Reader

variable {tape tape' rest : Tape} {depth : Nat}

theorem skipElement_restyled (h : Restyled tape tape') (hskip : skipElement depth tape = .ok rest) :
    ∃ rest', skipElement depth tape' = .ok rest' ∧ Restyled rest rest' := by
  induction h generalizing depth with
  | finished => cases hskip
  | broken fault => cases hskip
  | start _ _ ih => exact @ih (depth + 1) hskip
  | close name name' h ih =>
    cases depth with
    | zero =>
      cases hskip
      exact ⟨_, rfl, h⟩
    | succ depth => exact @ih depth hskip
  | keep he _ ih =>
    rw [skipElement_of_not_isTag he] at hskip
    rw [skipElement_of_not_isTag he]
    exact ih hskip
  | remark _ ih => exact ih hskip
  | split _ _ ih => exact @ih depth hskip

/-- A text that is broken between two characters says the same in two pieces. -/
theorem piece_text_append {raw raw' : Bytes} {text : String}
    (hraw : ∀ b ∈ raw'.head?, Utf8.isContinuation b = false)
    (h : piece (.text (raw ++ raw')) = .ok text) : ∃ text₁ text₂,
      piece (.text raw) = .ok text₁ ∧ piece (.text raw') = .ok text₂ ∧ text = text₁ ++ text₂ := by
  rw [piece] at h
  cases hdecode : Utf8.decode (raw ++ raw') with
  | error fault => simp [hdecode, Except.mapError] at h
  | ok s =>
    rw [hdecode] at h
    cases h
    obtain ⟨t, u, ht, hu, rfl⟩ := Utf8.exists_of_decode_append hraw hdecode
    exact ⟨t, u, by rw [piece, ht]; rfl, by rw [piece, hu]; rfl, rfl⟩

theorem readText_restyled (h : Restyled tape tape') {before text : String}
    (htext : readText before depth tape = .ok (text, rest)) :
    ∃ rest', readText before depth tape' = .ok (text, rest') ∧ Restyled rest rest' := by
  induction h generalizing before depth with
  | finished => cases htext
  | broken fault => cases htext
  | start _ _ ih => exact @ih (depth + 1) _ htext
  | close name name' h ih =>
    cases depth with
    | zero =>
      cases htext
      exact ⟨_, rfl, h⟩
    | succ depth => exact @ih depth _ htext
  | @keep e _ _ he _ ih =>
    rw [readText_of_not_isTag he] at htext
    rw [readText_of_not_isTag he]
    cases hpiece : piece e with
    | error fault => simp [hpiece] at htext
    | ok s =>
      rw [hpiece] at htext
      exact ih htext
  | remark _ ih =>
    rw [readText_of_not_isTag id]
    simp only [piece, String.append_empty]
    exact ih htext
  | @split raw raw' _ _ hraw _ ih =>
    rw [readText_of_not_isTag id] at htext
    cases hpiece : piece (.text (raw ++ raw')) with
    | error fault => simp [hpiece] at htext
    | ok s =>
      obtain ⟨text₁, text₂, h₁, h₂, rfl⟩ := piece_text_append hraw hpiece
      rw [hpiece] at htext
      rw [readText_of_not_isTag id, h₁]
      simp only
      rw [readText_of_not_isTag id]
      simp only [piece, String.append_empty]
      rw [readText_of_not_isTag id, h₂]
      simp only [String.append_assoc]
      exact ih htext

/-- The reader of a child depends on its local name. -/
theorem ofChild_congr {child : String → Reader α} {name name' : Bytes}
    (h : localName name = localName name') : ofChild child name = ofChild child name' := by
  rw [ofChild, ofChild, h]

end Reader

/-! ### All decoders -/

namespace Decoder

variable {tape tape' rest : Tape} {trim : Bool} {a : α}

theorem foldChildren_restyled {context : String} {child : String → Decoder (σ → σ)} {acc b : σ}
    (hchild : ∀ name {tape tape' rest : Tape} {change : σ → σ}, Restyled tape tape' →
      (child name).run trim tape = .ok (change, rest) →
        ∃ rest', (child name).run trim tape' = .ok (change, rest') ∧ Restyled rest rest')
    (h : Restyled tape tape')
    (hfold : Reader.foldChildren context (fun name => (child name).reader) trim acc tape =
      .ok (b, rest)) :
    ∃ rest', Reader.foldChildren context (fun name => (child name).reader) trim acc tape' =
      .ok (b, rest') ∧ Restyled rest rest' := by
  induction hn : tape'.size using Nat.strongRecOn generalizing tape tape' acc with
  | _ n ih =>
    subst hn
    cases h with
    | finished =>
      rw [Reader.foldChildren] at hfold
      cases hfold
    | broken fault =>
      rw [Reader.foldChildren] at hfold
      cases hfold
    | @start name name' tape tape' hname h =>
      rw [Reader.foldChildren_start, Reader.ofChild_congr hname, Reader.ofChild] at hfold
      rw [Reader.foldChildren_start, Reader.ofChild]
      cases hlocal : Utf8.decode (Reader.localName name') with
      | error fault =>
        rw [hlocal] at hfold
        cases hfold
      | ok localName =>
        rw [hlocal] at hfold
        simp only at hfold ⊢
        cases hrun : (child localName).run trim tape with
        | error e =>
          rw [run] at hrun
          simp [hrun] at hfold
        | ok p =>
          obtain ⟨change, rest₁⟩ := p
          obtain ⟨rest₁', hrun', hrest⟩ := hchild localName h hrun
          rw [run] at hrun hrun'
          rw [hrun] at hfold
          rw [hrun']
          have hlt := (child localName).reader.size_lt hrun'
          exact ih _ (Nat.lt_succ_of_lt hlt) hrest hfold rfl
    | close name name' h =>
      rw [Reader.foldChildren_close] at hfold
      cases hfold
      exact ⟨_, Reader.foldChildren_close, h⟩
    | keep he h =>
      rw [Reader.foldChildren_of_not_isTag he] at hfold
      rw [Reader.foldChildren_of_not_isTag he]
      exact ih _ (Nat.lt_succ_self _) h hfold rfl
    | remark h =>
      rw [Reader.foldChildren_of_not_isTag id]
      exact ih _ (Nat.lt_succ_self _) h hfold rfl
    | split _ h =>
      rw [Reader.foldChildren_of_not_isTag id] at hfold
      rw [Reader.foldChildren_of_not_isTag id, Reader.foldChildren_of_not_isTag id,
        Reader.foldChildren_of_not_isTag id]
      exact ih _ (by simp only [Tape.size]; omega) h hfold rfl

/-- A decoder reads the same from a restyled tape. -/
theorem run_restyled (d : Decoder α) (h : Restyled tape tape')
    (hrun : d.run trim tape = .ok (a, rest)) :
    ∃ rest', d.run trim tape' = .ok (a, rest') ∧ Restyled rest rest' := by
  induction d generalizing tape tape' rest with
  | text =>
    have hmap : (Reader.readText "" 0 tape).map _ = .ok (a, rest) := hrun
    obtain ⟨p, htext, hp⟩ := Outcome.exists_of_map_eq_ok hmap
    cases hp
    obtain ⟨rest', htext', hrest⟩ := Reader.readText_restyled h htext
    exact ⟨rest', by simp [run, reader, Reader.text, htext', Except.map], hrest⟩
  | skip =>
    have hmap : (Reader.skipElement 0 tape).map _ = .ok (a, rest) := hrun
    obtain ⟨rest, hskip, hp⟩ := Outcome.exists_of_map_eq_ok hmap
    cases hp
    obtain ⟨rest', hskip', hrest⟩ := Reader.skipElement_restyled h hskip
    exact ⟨rest', by simp [run, reader, Reader.skip, hskip', Except.map], hrest⟩
  | unrecognized name => cases hrun
  | refine f d ih =>
    rw [run_refine] at hrun
    cases hd : d.run trim tape with
    | error e => simp [hd] at hrun
    | ok p =>
      obtain ⟨b, rest₁⟩ := p
      obtain ⟨rest', hd', hrest⟩ := ih h hd
      rw [hd] at hrun
      simp only at hrun
      cases hf : f b with
      | error fault => simp [hf] at hrun
      | ok b' =>
        rw [hf] at hrun
        cases hrun
        exact ⟨rest', by rw [run_refine, hd']; simp only [hf], hrest⟩
  | children context child zero ih => exact foldChildren_restyled ih h hrun

theorem enterRoot_restyled (h : Restyled tape tape') (hroot : enterRoot tape = .ok rest) :
    ∃ rest', enterRoot tape' = .ok rest' ∧ Restyled rest rest' := by
  induction h with
  | finished => cases hroot
  | broken fault => cases hroot
  | start _ h _ =>
    cases hroot
    exact ⟨_, rfl, h⟩
  | close _ _ _ ih => exact ih hroot
  | @keep e _ _ he _ ih =>
    cases e with
    | start name => exact absurd trivial he
    | _ => exact ih hroot
  | remark _ ih => exact ih hroot
  | split _ _ ih => exact ih hroot

/-- A document decodes to the same value as one with a restyled tape. -/
theorem decode_restyled (d : Decoder α) {settings : Settings} {document document' : Bytes}
    (h : Restyled (Tape.ofDocument settings.checkEndNames document)
      (Tape.ofDocument settings.checkEndNames document'))
    (ha : d.decode settings document = .ok a) : d.decode settings document' = .ok a := by
  rw [decode] at ha ⊢
  cases hroot : enterRoot (Tape.ofDocument settings.checkEndNames document) with
  | error e => simp [hroot, bind, Except.bind] at ha
  | ok tape =>
    obtain ⟨tape', hroot', htape⟩ := enterRoot_restyled h hroot
    rw [hroot] at ha
    rw [hroot']
    simp only [bind, Except.bind] at ha ⊢
    cases hrun : d.run settings.trimText tape with
    | error e => simp [hrun] at ha
    | ok p =>
      obtain ⟨b, rest⟩ := p
      obtain ⟨rest', hrun', -⟩ := d.run_restyled htape hrun
      rw [hrun] at ha
      rw [hrun']
      exact ha

/-- A document decodes to the same value when one part of it is written in another way. -/
theorem decode_rewrites (d : Decoder α) {settings : Settings} {document document' : Bytes}
    (h : Markup.Rewrites settings.checkEndNames document document')
    (ha : d.decode settings document = .ok a) : d.decode settings document' = .ok a := by
  cases h with
  | respell hplace hpart => exact d.decode_restyled (Markup.restyled_of_respells hplace hpart) ha
  | broken hplace hscan hraw hraw' hboundary hremark =>
    exact d.decode_restyled
      (Markup.restyled_of_broken hplace hscan hraw hraw' hboundary hremark) ha
  | surround prolog prolog' root epilog epilog' => rwa [decode_append] at ha ⊢

end Decoder

end BucketWire

import BucketWire.Markup.Token
import BucketWire.Proofs.Outcome
import Mathlib.Data.List.TakeWhile

/-!
# Where a token ends

A scanner that has found the end of its markup has not looked beyond it. So the same bytes are the
same token in every document, whatever follows them, and no shorter part of them is a token. A run
of text is the exception: more text makes it longer, and part of it is a shorter run.

## Main definitions

* `Scan.StopsAt` — a scanner decides on the bytes before a place, and leaves what follows them
* `Token.EndsText` — what may follow a run of text

## Main results

* `Scan.stopsAt_tag`, `Scan.stopsAt_splitAt?`, `Scan.stopsAt_documentType?` — the scanners for the
  ends of markup
* `Token.stopsAt_scan` — every token but a run of text
* `Token.scan_eq_text_iff` — a run of text ends at the next sign of markup or at the end
* `Token.scan_part` — what is scanned when the end of a token is cut off
-/

namespace BucketWire

namespace Scan

variable {ρ σ : Type} {scan : Bytes → ρ} {result : Bytes → ρ} {bytes rest : Bytes}

/-- `scan` reads `bytes` up to `rest`: what is in front alone makes it give `result`, to which it
hands over all that follows. -/
def StopsAt (scan result : Bytes → ρ) (bytes rest : Bytes) : Prop :=
  ∃ taken, bytes = taken ++ rest ∧ ∀ more, scan (taken ++ more) = result more

/-- A scanner that goes on after `before` as another one does stops where that one stops. -/
theorem StopsAt.after {inner : Bytes → σ} {result' : Bytes → σ} (before : Bytes)
    (h : StopsAt inner result' bytes rest)
    (hscan : ∀ bytes more, inner bytes = result' more → scan (before ++ bytes) = result more) :
    StopsAt scan result (before ++ bytes) rest := by
  obtain ⟨taken, rfl, htaken⟩ := h
  refine ⟨before ++ taken, by simp, fun more => ?_⟩
  rw [List.append_assoc]
  exact hscan _ _ (htaken more)

/-- Bytes that are cut off before the place are not read as bytes up to some place. -/
theorem StopsAt.not_of_length_lt {result' : Bytes → ρ} {part rest' : Bytes}
    (hresult : ∀ more more', result more = result' more' → more = more')
    (h : StopsAt scan result bytes rest) (hpart : part <+: bytes)
    (hlt : part.length + rest.length < bytes.length) : ¬ StopsAt scan result' part rest' := by
  rintro ⟨taken', rfl, htaken'⟩
  obtain ⟨taken, rfl, htaken⟩ := h
  have hle : taken'.length ≤ taken.length := by
    simp only [List.length_append] at hlt
    omega
  obtain ⟨missing, rfl⟩ : taken' <+: taken :=
    List.prefix_of_prefix_length_le ((List.prefix_append _ _).trans hpart)
      (List.prefix_append _ _) hle
  have heq := hresult [] missing (by rw [← htaken, ← htaken', List.append_nil])
  subst heq
  simp only [List.length_append, List.length_nil] at hlt
  omega

/-! ### Bytes and marks -/

theorem stopsAt_past {stop : UInt8} (h : past stop bytes = some rest) :
    StopsAt (past stop) some bytes rest := by
  induction bytes with
  | nil => simp [past] at h
  | cons b bytes ih =>
    rw [past] at h
    split at h
    · rename_i hb
      simp only [Option.some.injEq] at h
      subst h
      exact ⟨[b], rfl, fun more => by simp [past, hb]⟩
    · rename_i hb
      refine (ih h).after [b] fun bytes more hmore => ?_
      simpa [past, hb] using hmore

theorem eq_of_splitAt? {mark before : Bytes} (h : splitAt? mark bytes = some (before, rest)) :
    bytes = before ++ mark ++ rest := by
  induction bytes generalizing before with
  | nil => simp [splitAt?] at h
  | cons b bytes ih =>
    rw [splitAt?] at h
    split at h
    · rename_i hmark
      simp only [Option.some.injEq, Prod.mk.injEq] at h
      obtain ⟨rfl, rfl⟩ := h
      obtain ⟨after, hafter⟩ := List.isPrefixOf_iff_prefix.mp hmark
      rw [← hafter, List.drop_left, List.nil_append]
    · simp only [Option.map_eq_some_iff, Prod.exists, Prod.mk.injEq] at h
      obtain ⟨before', rest', h, rfl, rfl⟩ := h
      rw [ih h, List.cons_append, List.cons_append]

theorem stopsAt_splitAt? {mark before : Bytes} (hmark : mark ≠ [])
    (h : splitAt? mark bytes = some (before, rest)) :
    StopsAt (splitAt? mark) (fun more => some (before, more)) bytes rest := by
  refine ⟨before ++ mark, eq_of_splitAt? h, fun more => ?_⟩
  induction bytes generalizing before with
  | nil => simp [splitAt?] at h
  | cons b bytes ih =>
    rw [splitAt?] at h
    split at h
    · simp only [Option.some.injEq, Prod.mk.injEq] at h
      obtain ⟨rfl, -⟩ := h
      obtain ⟨c, mark, rfl⟩ := List.exists_cons_of_ne_nil hmark
      simp [splitAt?, List.isPrefixOf_iff_prefix.mpr (List.prefix_append _ _)]
    · rename_i hnone
      simp only [Option.map_eq_some_iff, Prod.exists, Prod.mk.injEq] at h
      obtain ⟨before', rest', h, rfl, rfl⟩ := h
      -- A mark at the front would lie within the bytes up to the mark that was found.
      have hnot : ¬ mark <+: b :: (before' ++ mark ++ more) := by
        intro hpre
        refine hnone (List.isPrefixOf_iff_prefix.mpr ?_)
        have hshort : mark <+: b :: (before' ++ mark) := by
          refine List.prefix_of_prefix_length_le hpre ⟨more, rfl⟩ ?_
          simp only [List.length_cons, List.length_append]
          omega
        rw [eq_of_splitAt? h]
        exact hshort.trans ⟨rest', rfl⟩
      rw [List.cons_append, List.cons_append, splitAt?, ih h,
        if_neg (mt List.isPrefixOf_iff_prefix.mp hnot), Option.map_some]

/-! ### Tags and document types -/

theorem stopsAt_tag {quote : Option UInt8} {content : Bytes}
    (h : tag quote bytes = .ok (content, rest)) :
    StopsAt (tag quote) (fun more => .ok (content, more)) bytes rest := by
  induction bytes generalizing quote content with
  | nil => simp [tag] at h
  | cons b bytes ih =>
    rw [tag] at h
    split at h
    · rename_i hclose
      simp only [Except.ok.injEq, Prod.mk.injEq] at h
      obtain ⟨rfl, rfl⟩ := h
      exact ⟨[b], rfl, fun more => by simp [tag, hclose]⟩
    · rename_i hopen
      obtain ⟨p, ht, hp⟩ := Outcome.exists_of_map_eq_ok h
      cases hp
      refine (ih ht).after [b] fun bytes more hmore => ?_
      rw [List.singleton_append, tag, if_neg hopen, hmore]
      rfl

theorem mem_of_past {stop : UInt8} (h : past stop bytes = some rest) : stop ∈ bytes := by
  induction bytes with
  | nil => simp [past] at h
  | cons b bytes ih =>
    rw [past] at h
    split at h
    · rename_i hb
      simp [hb]
    · exact List.mem_cons_of_mem _ (ih h)

theorem mem_of_tag {quote : Option UInt8} {content : Bytes}
    (h : tag quote bytes = .ok (content, rest)) : Ascii.greaterThan ∈ bytes := by
  induction bytes generalizing quote content with
  | nil => simp [tag] at h
  | cons b bytes ih =>
    rw [tag] at h
    split at h
    · rename_i hclose
      simp [hclose.2]
    · obtain ⟨p, ht, hp⟩ := Outcome.exists_of_map_eq_ok h
      cases hp
      exact List.mem_cons_of_mem _ (ih ht)

/-- Whether a word stands in front is decided before the first byte that is not in the word. -/
theorem isPrefixOf_append_of_mem {word taken : Bytes} {b : UInt8} (hb : b ∈ taken)
    (hword : b ∉ word) (more : Bytes) :
    word.isPrefixOf (taken ++ more) = word.isPrefixOf taken := by
  rw [Bool.eq_iff_iff, List.isPrefixOf_iff_prefix, List.isPrefixOf_iff_prefix]
  refine ⟨fun h => ?_, fun h => h.trans (List.prefix_append _ _)⟩
  rcases Nat.le_total word.length taken.length with hle | hle
  · exact List.prefix_of_prefix_length_le h (List.prefix_append _ _) hle
  · have htaken : taken <+: word :=
      List.prefix_of_prefix_length_le (List.prefix_append _ _) h hle
    exact absurd (htaken.subset hb) hword

/-- A declaration that is closed by a mark is told from others before the `>` in the mark. -/
theorem stopsAt_declaration?_of_mem {inner : Bytes → Option Bytes}
    (h : StopsAt inner some bytes rest)
    (hinner : ∀ taken, inner taken = some [] → Ascii.greaterThan ∈ taken)
    (hdeclaration : ∀ taken, (∀ word : Bytes, Ascii.greaterThan ∉ word →
      word.isPrefixOf taken = word.isPrefixOf bytes) → declaration? taken = inner taken) :
    StopsAt declaration? some bytes rest := by
  obtain ⟨taken, rfl, htaken⟩ := h
  have hmem : Ascii.greaterThan ∈ taken := by
    have h := htaken []
    rw [List.append_nil] at h
    exact hinner taken h
  refine ⟨taken, rfl, fun more => ?_⟩
  rw [hdeclaration, htaken]
  intro word hword
  rw [isPrefixOf_append_of_mem hmem hword, isPrefixOf_append_of_mem hmem hword]

/-- Past a mark that is looked for after a word. -/
theorem stopsAt_splitAt?_after {word mark : Bytes} (hmark : mark ≠ [])
    (h : (splitAt? mark ((word ++ bytes).drop word.length)).map Prod.snd = some rest) :
    StopsAt (fun bytes => (splitAt? mark (bytes.drop word.length)).map Prod.snd) some
      (word ++ bytes) rest := by
  rw [List.drop_left, Option.map_eq_some_iff] at h
  obtain ⟨⟨before, rest'⟩, h, rfl⟩ := h
  refine (stopsAt_splitAt? hmark h).after word fun bytes more hmore => ?_
  simp [hmore]

theorem mem_of_splitAt?_drop {mark : Bytes} {n : Nat} {b : UInt8} (hb : b ∈ mark)
    (h : (splitAt? mark (bytes.drop n)).map Prod.snd = some rest) : b ∈ bytes := by
  rw [Option.map_eq_some_iff] at h
  obtain ⟨⟨before, rest'⟩, h, -⟩ := h
  refine List.mem_of_mem_drop (i := n) ?_
  rw [eq_of_splitAt? h]
  simp [hb]

theorem stopsAt_tag_snd {quote : Option UInt8}
    (h : (tag quote bytes).toOption.map Prod.snd = some rest) :
    StopsAt (fun bytes => (tag quote bytes).toOption.map Prod.snd) some bytes rest ∧
      Ascii.greaterThan ∈ bytes := by
  cases ht : tag quote bytes with
  | error fault => simp [ht, Except.toOption] at h
  | ok p =>
    obtain ⟨content, rest'⟩ := p
    simp only [ht, Except.toOption, Option.map_some, Option.some.injEq] at h
    subst h
    refine ⟨(stopsAt_tag ht).after [] fun bytes more hmore => ?_, mem_of_tag ht⟩
    simp [hmore, Except.toOption]

theorem stopsAt_declaration? (h : declaration? bytes = some rest) :
    StopsAt declaration? some bytes rest := by
  rw [declaration?] at h
  split at h
  · rename_i hword
    obtain ⟨bytes, rfl⟩ := List.isPrefixOf_iff_prefix.mp hword
    refine stopsAt_declaration?_of_mem (stopsAt_splitAt?_after (by decide) h)
      (fun taken htaken => mem_of_splitAt?_drop (by decide) htaken) fun taken htaken => ?_
    rw [declaration?, htaken _ (by decide), if_pos hword]
    rfl
  · rename_i hnot
    split at h
    · rename_i hword
      obtain ⟨bytes, rfl⟩ := List.isPrefixOf_iff_prefix.mp hword
      refine stopsAt_declaration?_of_mem (stopsAt_splitAt?_after (by decide) h)
        (fun taken htaken => mem_of_splitAt?_drop (by decide) htaken) fun taken htaken => ?_
      rw [declaration?, htaken _ (by decide), htaken _ (by decide), if_neg hnot, if_pos hword]
      rfl
    · rename_i hnot'
      have hquoted : ∀ taken, (∀ word : Bytes, Ascii.greaterThan ∉ word →
          word.isPrefixOf taken = word.isPrefixOf bytes) →
          isQuotedDeclaration taken = isQuotedDeclaration bytes := by
        intro taken htaken
        rw [isQuotedDeclaration, htaken _ (by decide), htaken _ (by decide),
          htaken _ (by decide), isQuotedDeclaration]
      split at h
      · rename_i hdeclaration
        refine stopsAt_declaration?_of_mem (stopsAt_tag_snd h).1
          (fun taken htaken => (stopsAt_tag_snd htaken).2) fun taken htaken => ?_
        rw [declaration?, htaken _ (by decide), htaken _ (by decide), hquoted taken htaken,
          if_neg hnot, if_neg hnot', if_pos hdeclaration]
      · rename_i hdeclaration
        refine stopsAt_declaration?_of_mem (stopsAt_past h)
          (fun taken htaken => mem_of_past htaken) fun taken htaken => ?_
        rw [declaration?, htaken _ (by decide), htaken _ (by decide), hquoted taken htaken,
          if_neg hnot, if_neg hnot', if_neg hdeclaration]

theorem stopsAt_subset? (h : subset? bytes = some rest) : StopsAt subset? some bytes rest := by
  induction hn : bytes.length using Nat.strongRecOn generalizing bytes with
  | _ n ih =>
    subst hn
    cases bytes with
    | nil => simp [subset?] at h
    | cons b bytes =>
      rw [subset?] at h
      split at h
      · rename_i hb
        refine (stopsAt_past h).after [b] fun bytes more hmore => ?_
        rw [List.singleton_append, subset?, if_pos hb, hmore]
      · rename_i hb
        split at h
        · rename_i hb'
          split at h
          · cases h
          · rename_i rest' hd
            have hle := length_le_of_declaration? hd
            obtain ⟨taken', hrest', htaken'⟩ :=
              ih rest'.length (Nat.lt_succ_of_le hle) h rfl
            obtain ⟨taken, rfl, htaken⟩ := stopsAt_declaration? hd
            refine ⟨b :: (taken ++ taken'), by simp [hrest'], fun more => ?_⟩
            rw [List.cons_append, List.append_assoc, subset?, if_neg hb, if_pos hb']
            split
            · rename_i hnone
              rw [htaken] at hnone
              cases hnone
            · rename_i rest'' hsome
              rw [htaken, Option.some.injEq] at hsome
              subst hsome
              exact htaken' more
        · rename_i hb'
          refine (ih bytes.length (Nat.lt_succ_self _) h rfl).after [b] fun bytes more hmore => ?_
          rw [List.singleton_append, subset?, if_neg hb, if_neg hb', hmore]

theorem stopsAt_documentType? (h : documentType? bytes = some rest) :
    StopsAt documentType? some bytes rest := by
  induction hn : bytes.length using Nat.strongRecOn generalizing bytes with
  | _ n ih =>
    subst hn
    cases bytes with
    | nil => simp [documentType?] at h
    | cons b bytes =>
      rw [documentType?] at h
      split at h
      · rename_i hb
        simp only [Option.some.injEq] at h
        subst h
        exact ⟨[b], rfl, fun more => by rw [List.singleton_append, documentType?, if_pos hb]⟩
      · rename_i hb
        split at h
        · rename_i hb'
          refine (stopsAt_subset? h).after [b] fun bytes more hmore => ?_
          rw [List.singleton_append, documentType?, if_neg hb, if_pos hb', hmore]
        · rename_i hb'
          split at h
          · rename_i hquote
            split at h
            · cases h
            · rename_i rest' hp
              have hlt := length_lt_of_past hp
              obtain ⟨taken', hrest', htaken'⟩ :=
                ih rest'.length (Nat.lt_succ_of_lt hlt) h rfl
              obtain ⟨taken, rfl, htaken⟩ := stopsAt_past hp
              refine ⟨b :: (taken ++ taken'), by simp [hrest'], fun more => ?_⟩
              rw [List.cons_append, List.append_assoc, documentType?, if_neg hb, if_neg hb',
                if_pos hquote]
              split
              · rename_i hnone
                rw [htaken] at hnone
                cases hnone
              · rename_i rest'' hsome
                rw [htaken, Option.some.injEq] at hsome
                subst hsome
                exact htaken' more
          · rename_i hquote
            refine (ih bytes.length (Nat.lt_succ_self _) h rfl).after [b]
              fun bytes more hmore => ?_
            rw [List.singleton_append, documentType?, if_neg hb, if_neg hb', if_neg hquote, hmore]

end Scan

namespace Token

open Markup (Construct)
open Scan (StopsAt)

variable {bytes rest : Bytes} {t : Token}

/-! ### Tokens -/

theorem stopsAt_closed {construct : Construct} {token : Bytes → Token} {mark : Bytes}
    (hmark : mark ≠ []) (h : closed construct token (Scan.splitAt? mark bytes) = .ok (t, rest)) :
    StopsAt (fun bytes => closed construct token (Scan.splitAt? mark bytes))
      (fun more => .ok (t, more)) bytes rest := by
  cases hs : Scan.splitAt? mark bytes with
  | none => simp [hs, closed] at h
  | some p =>
    obtain ⟨content, rest'⟩ := p
    simp only [hs, closed, Except.ok.injEq, Prod.mk.injEq] at h
    obtain ⟨rfl, rfl⟩ := h
    refine (Scan.stopsAt_splitAt? hmark hs).after [] fun bytes more hmore => ?_
    rw [List.nil_append, hmore, closed]

theorem stopsAt_scanReference (h : scanReference bytes = .ok (t, rest)) :
    StopsAt scanReference (fun more => .ok (t, more)) bytes rest := by
  rw [scanReference] at h
  generalize hinside : (fun b => decide (b ≠ Ascii.semicolon) && decide (b ≠ Ascii.ampersand) &&
    decide (b ≠ Ascii.lessThan)) = inside at h
  split at h
  · cases h
  · rename_i b rest' hd
    split at h
    · rename_i hb
      simp only [Except.ok.injEq, Prod.mk.injEq] at h
      obtain ⟨rfl, rfl⟩ := h
      have hstop : inside b = false := by
        rw [← hinside, hb]
        rfl
      have hall : ∀ a ∈ bytes.takeWhile inside, inside a := fun a => List.mem_takeWhile_imp
      refine ⟨bytes.takeWhile inside ++ [b], ?_, fun more => ?_⟩
      · rw [List.append_assoc, List.singleton_append, ← hd, List.takeWhile_append_dropWhile]
      · rw [scanReference]
        simp only [hinside]
        rw [List.append_assoc, List.singleton_append, List.dropWhile_append_of_pos hall,
          List.takeWhile_append_of_pos hall, List.dropWhile_cons_of_neg (by simp [hstop]),
          List.takeWhile_cons_of_neg (by simp [hstop])]
        simp [hb]
    · cases h

theorem stopsAt_scanLiteral (h : scanLiteral bytes = .ok (t, rest)) :
    StopsAt scanLiteral (fun more => .ok (t, more)) bytes rest := by
  rw [scanLiteral] at h
  split at h
  · rename_i hword
    obtain ⟨bytes, rfl⟩ := List.isPrefixOf_iff_prefix.mp hword
    refine (stopsAt_closed (by decide) h).after (Utf8.encode "CDATA[") fun bytes more hmore => ?_
    rw [scanLiteral, if_pos (List.isPrefixOf_iff_prefix.mpr (List.prefix_append _ _))]
    exact hmore
  · cases h

theorem stopsAt_scanComment (h : scanComment bytes = .ok (t, rest)) :
    StopsAt scanComment (fun more => .ok (t, more)) bytes rest := by
  rw [scanComment] at h
  split at h
  · rename_i hword
    obtain ⟨bytes, rfl⟩ := List.isPrefixOf_iff_prefix.mp hword
    refine (stopsAt_closed (by decide) h).after (Utf8.encode "-") fun bytes more hmore => ?_
    rw [scanComment, if_pos (List.isPrefixOf_iff_prefix.mpr (List.prefix_append _ _))]
    exact hmore
  · cases h

theorem stopsAt_scanInstruction (h : scanInstruction bytes = .ok (t, rest)) :
    StopsAt scanInstruction (fun more => .ok (t, more)) bytes rest := by
  rw [scanInstruction] at h
  split at h
  · cases h
  · rename_i hfirst
    cases hs : Scan.splitAt? (Utf8.encode "?>") bytes with
    | none => simp [hs, closed] at h
    | some p =>
      obtain ⟨content, rest'⟩ := p
      simp only [hs, closed, Except.ok.injEq, Prod.mk.injEq] at h
      obtain ⟨rfl, rfl⟩ := h
      obtain ⟨taken, rfl, htaken⟩ := Scan.stopsAt_splitAt? (by decide) hs
      refine ⟨taken, rfl, fun more => ?_⟩
      have hne : taken ≠ [] := by
        rintro rfl
        simpa [Scan.splitAt?] using htaken []
      obtain ⟨b, taken, rfl⟩ := List.exists_cons_of_ne_nil hne
      rw [List.cons_append, List.head?_cons] at hfirst
      rw [List.cons_append, scanInstruction, List.head?_cons, if_neg hfirst, ← List.cons_append,
        htaken, closed]

theorem documentType?_eq_none_of_blank (h : ∀ b ∈ bytes, Ascii.isBlank b) :
    Scan.documentType? bytes = none := by
  induction bytes with
  | nil => simp [Scan.documentType?]
  | cons b bytes ih =>
    have hb : Ascii.isBlank b := h b (by simp)
    rw [Scan.documentType?, if_neg (by rintro rfl; revert hb; decide),
      if_neg (by rintro rfl; revert hb; decide), if_neg (by
        intro hquote
        simp only [Ascii.isQuote, Bool.or_eq_true, decide_eq_true_eq] at hquote
        rcases hquote with rfl | rfl <;> revert hb <;> decide)]
    exact ih fun b hb => h b (by simp [hb])

theorem stopsAt_scanDocumentType (h : scanDocumentType bytes = .ok (t, rest)) :
    StopsAt scanDocumentType (fun more => .ok (t, more)) bytes rest := by
  rw [scanDocumentType] at h
  split at h
  · rename_i hword
    split at h
    · cases h
    · rename_i rest' hd
      split at h
      · cases h
      · rename_i hname
        simp only [Except.ok.injEq, Prod.mk.injEq] at h
        obtain ⟨rfl, rfl⟩ := h
        have hlen : (bytes.take 6).length = 6 := by
          have := congrArg List.length (of_decide_eq_true hword)
          rwa [List.length_map, List.length_map] at this
        obtain ⟨taken, htake, htaken⟩ := Scan.stopsAt_documentType? hd
        -- Some byte of the name is no blank, since a document type of blanks has no end.
        have hblank : ∃ b ∈ taken, ¬ Ascii.isBlank b := by
          by_contra hall
          have hblank : ∀ b ∈ taken, Ascii.isBlank b := by simpa using hall
          have hnone := documentType?_eq_none_of_blank hblank
          have hsome := htaken []
          rw [List.append_nil, hnone] at hsome
          cases hsome
        have hhead : ∀ more, ((taken ++ more).dropWhile Ascii.isBlank).head? =
            (taken.dropWhile Ascii.isBlank).head? := by
          intro more
          have hne : taken.dropWhile Ascii.isBlank ≠ [] := by simpa using hblank
          rw [List.dropWhile_append, if_neg (by simpa using hblank)]
          obtain ⟨b, name, hb⟩ := List.exists_cons_of_ne_nil hne
          rw [hb]
          rfl
        refine ⟨bytes.take 6 ++ taken, ?_, fun more => ?_⟩
        · rw [List.append_assoc, ← htake, List.take_append_drop]
        · rw [htake, hhead] at hname
          have htake6 : (bytes.take 6 ++ taken ++ more).take 6 = bytes.take 6 := by
            rw [List.append_assoc, List.take_left' hlen]
          have hdrop6 : (bytes.take 6 ++ taken ++ more).drop 6 = taken ++ more := by
            rw [List.append_assoc, List.drop_left' hlen]
          rw [scanDocumentType, htake6, if_pos hword, hdrop6, htaken]
          simp only
          rw [hhead, if_neg hname]
  · cases h

theorem stopsAt_scanTag {token : Bytes → Token} (h : scanTag token bytes = .ok (t, rest)) :
    StopsAt (scanTag token) (fun more => .ok (t, more)) bytes rest := by
  rw [scanTag] at h
  obtain ⟨p, ht, hp⟩ := Outcome.exists_of_map_eq_ok h
  cases hp
  refine (Scan.stopsAt_tag ht).after [] fun bytes more hmore => ?_
  rw [List.nil_append, scanTag, hmore]
  rfl

theorem stopsAt_scanBang (h : scanBang bytes = .ok (t, rest)) :
    StopsAt scanBang (fun more => .ok (t, more)) bytes rest := by
  cases bytes with
  | nil => simp [scanBang] at h
  | cons b bytes =>
    rw [scanBang] at h
    split at h
    · rename_i hb
      refine (stopsAt_scanLiteral h).after [b] fun bytes more hmore => ?_
      rw [List.singleton_append, scanBang, if_pos hb, hmore]
    · rename_i hb
      split at h
      · rename_i hb'
        refine (stopsAt_scanComment h).after [b] fun bytes more hmore => ?_
        rw [List.singleton_append, scanBang, if_neg hb, if_pos hb', hmore]
      · rename_i hb'
        split at h
        · rename_i hb''
          refine (stopsAt_scanDocumentType h).after [b] fun bytes more hmore => ?_
          rw [List.singleton_append, scanBang, if_neg hb, if_neg hb', if_pos hb'', hmore]
        · cases h

theorem stopsAt_scanMarkup (h : scanMarkup bytes = .ok (t, rest)) :
    StopsAt scanMarkup (fun more => .ok (t, more)) bytes rest := by
  cases bytes with
  | nil => simp [scanMarkup] at h
  | cons b bytes =>
    rw [scanMarkup] at h
    split at h
    · rename_i hb
      refine (stopsAt_scanBang h).after [b] fun bytes more hmore => ?_
      rw [List.singleton_append, scanMarkup, if_pos hb, hmore]
    · rename_i hb
      split at h
      · rename_i hb'
        refine (stopsAt_scanTag h).after [b] fun bytes more hmore => ?_
        rw [List.singleton_append, scanMarkup, if_neg hb, if_pos hb', hmore]
      · rename_i hb'
        split at h
        · rename_i hb''
          refine (stopsAt_scanInstruction h).after [b] fun bytes more hmore => ?_
          rw [List.singleton_append, scanMarkup, if_neg hb, if_neg hb', if_pos hb'', hmore]
        · rename_i hb''
          obtain ⟨taken, htake, htaken⟩ := stopsAt_scanTag h
          refine ⟨taken, htake, fun more => ?_⟩
          have hne : taken ≠ [] := by
            rintro rfl
            simpa [scanTag, Scan.tag, Except.map] using htaken []
          obtain ⟨b', taken, rfl⟩ := List.exists_cons_of_ne_nil hne
          obtain rfl : b = b' := by simpa using congrArg List.head? htake
          rw [List.cons_append, scanMarkup, if_neg hb, if_neg hb', if_neg hb'', ← List.cons_append,
            htaken]

/-! ### Runs of text and other tokens -/

/-- What may follow a run of text: nothing, or a sign of markup. -/
def EndsText (rest : Bytes) : Prop := ∀ b ∈ rest.head?, endsText b

theorem endsText_nil : EndsText [] := by simp [EndsText]

theorem endsText_cons_iff {b : UInt8} : EndsText (b :: rest) ↔ endsText b := by simp [EndsText]

theorem endsText_of_lessThan (h : bytes.head? = some Ascii.lessThan) : EndsText bytes := by
  intro b hb
  obtain rfl : Ascii.lessThan = b := Option.some.inj (h.symm.trans hb)
  decide

theorem EndsText.append (h : EndsText bytes) (hne : bytes ≠ []) (more : Bytes) :
    EndsText (bytes ++ more) := by
  obtain ⟨b, bytes, rfl⟩ := List.exists_cons_of_ne_nil hne
  exact endsText_cons_iff.mpr (endsText_cons_iff.mp h)

theorem EndsText.of_part {part : Bytes} (h : EndsText bytes) (hpart : part <+: bytes) :
    EndsText part := by
  cases part with
  | nil => exact endsText_nil
  | cons b part =>
    obtain ⟨missing, rfl⟩ := hpart
    exact endsText_cons_iff.mpr (endsText_cons_iff.mp h)

theorem ne_text_of_closed {construct : Construct} {token : Bytes → Token}
    {split : Option (Bytes × Bytes)} (htoken : ∀ content raw, token content ≠ .text raw)
    (h : closed construct token split = .ok (t, rest)) (raw : Bytes) : t ≠ .text raw := by
  cases split with
  | none => simp [closed] at h
  | some p =>
    simp only [closed, Except.ok.injEq, Prod.mk.injEq] at h
    rw [← h.1]
    exact htoken _ _

theorem ne_text_of_scanTag {token : Bytes → Token}
    (htoken : ∀ content raw, token content ≠ .text raw) (h : scanTag token bytes = .ok (t, rest))
    (raw : Bytes) : t ≠ .text raw := by
  rw [scanTag] at h
  obtain ⟨p, -, hp⟩ := Outcome.exists_of_map_eq_ok h
  cases hp
  exact htoken _ _

theorem ne_text_of_scanDocumentType (h : scanDocumentType bytes = .ok (t, rest)) (raw : Bytes) :
    t ≠ .text raw := by
  rw [scanDocumentType] at h
  split at h
  · split at h
    · cases h
    · split at h
      · cases h
      · simp only [Except.ok.injEq, Prod.mk.injEq] at h
        simp [← h.1]
  · cases h

theorem ne_text_of_scanBang (h : scanBang bytes = .ok (t, rest)) (raw : Bytes) :
    t ≠ .text raw := by
  cases bytes with
  | nil => simp [scanBang] at h
  | cons b bytes =>
    rw [scanBang] at h
    split at h
    · rw [scanLiteral] at h
      split at h
      · exact ne_text_of_closed (by simp) h raw
      · cases h
    · split at h
      · rw [scanComment] at h
        split at h
        · exact ne_text_of_closed (by simp) h raw
        · cases h
      · split at h
        · exact ne_text_of_scanDocumentType h raw
        · cases h

theorem ne_text_of_scanMarkup (h : scanMarkup bytes = .ok (t, rest)) (raw : Bytes) :
    t ≠ .text raw := by
  cases bytes with
  | nil => simp [scanMarkup] at h
  | cons b bytes =>
    rw [scanMarkup] at h
    split at h
    · exact ne_text_of_scanBang h raw
    · split at h
      · exact ne_text_of_scanTag (by simp) h raw
      · split at h
        · rw [scanInstruction] at h
          split at h
          · cases h
          · exact ne_text_of_closed (by simp) h raw
        · refine ne_text_of_scanTag (fun content raw => ?_) h raw
          rw [ofStartTag]
          split <;> simp

theorem ne_text_of_scanReference (h : scanReference bytes = .ok (t, rest)) (raw : Bytes) :
    t ≠ .text raw := by
  rw [scanReference] at h
  split at h
  · cases h
  · split at h
    · simp only [Except.ok.injEq, Prod.mk.injEq] at h
      simp [← h.1]
    · cases h

/-- As long as there are bytes, there is a token or a fault. -/
theorem scan_cons_ne_none {b : UInt8} : scan (b :: bytes) ≠ .ok none := by
  rw [scan]
  split
  · cases scanMarkup bytes <;> simp [Except.map]
  · split
    · cases scanReference bytes <;> simp [Except.map]
    · simp

/-- No run of text starts with a sign of markup. -/
theorem ne_text_of_scan_cons {b : UInt8} (hb : endsText b)
    (h : scan (b :: bytes) = .ok (some (t, rest))) (raw : Bytes) : t ≠ .text raw := by
  rw [scan] at h
  split at h
  · obtain ⟨p, hm, hp⟩ := Outcome.exists_of_map_eq_ok h
    cases hp
    exact ne_text_of_scanMarkup hm raw
  · split at h
    · obtain ⟨p, hr, hp⟩ := Outcome.exists_of_map_eq_ok h
      cases hp
      exact ne_text_of_scanReference hr raw
    · simp_all [endsText]

theorem scan_cons_of_not_endsText {b : UInt8} (hb : ¬ endsText b) :
    scan (b :: bytes) =
      .ok (some (.text (b :: bytes.takeWhile (!endsText ·)), bytes.dropWhile (!endsText ·))) := by
  simp only [endsText, Bool.or_eq_true, decide_eq_true_eq, not_or] at hb
  rw [scan, if_neg hb.1, if_neg hb.2]

/-- A run of text goes on to the next sign of markup. -/
theorem scan_eq_text_iff {raw : Bytes} :
    scan bytes = .ok (some (.text raw, rest)) ↔
      bytes = raw ++ rest ∧ raw ≠ [] ∧ (∀ b ∈ raw, ¬ endsText b) ∧ EndsText rest := by
  constructor
  · intro h
    cases bytes with
    | nil => simp [scan] at h
    | cons b bytes =>
      by_cases hb : endsText b
      · exact absurd rfl (ne_text_of_scan_cons hb h raw)
      · rw [scan_cons_of_not_endsText hb] at h
        simp only [Except.ok.injEq, Option.some.injEq, Prod.mk.injEq, text.injEq] at h
        obtain ⟨rfl, rfl⟩ := h
        refine ⟨?_, by simp, ?_, ?_⟩
        · rw [List.cons_append, List.takeWhile_append_dropWhile]
        · intro a ha
          rcases List.mem_cons.mp ha with rfl | ha
          · exact hb
          · simpa using List.mem_takeWhile_imp ha
        · intro a ha
          have := List.head?_dropWhile_not (fun b => !endsText b) bytes
          rw [ha] at this
          simpa using this
  · rintro ⟨rfl, hne, hraw, hrest⟩
    obtain ⟨b, raw, rfl⟩ := List.exists_cons_of_ne_nil hne
    have hall : ∀ a ∈ raw, !endsText a := fun a ha => by simpa using hraw a (by simp [ha])
    rw [List.cons_append, scan_cons_of_not_endsText (hraw b (by simp)),
      List.takeWhile_append_of_pos hall, List.dropWhile_append_of_pos hall]
    cases rest with
    | nil => simp
    | cons c rest =>
      have hc : endsText c := endsText_cons_iff.mp hrest
      rw [List.takeWhile_cons_of_neg (by simp [hc]), List.dropWhile_cons_of_neg (by simp [hc]),
        List.append_nil]

/-- A start tag starts with its sign of markup. -/
theorem head?_of_scan_startTag {name : Bytes} {selfClosing : Bool}
    (h : scan bytes = .ok (some (.startTag name selfClosing, rest))) :
    bytes.head? = some Ascii.lessThan := by
  cases bytes with
  | nil => simp [scan] at h
  | cons b bytes =>
    rw [scan] at h
    split at h
    · rename_i hb
      rw [hb]
      rfl
    · split at h
      · rw [scanReference] at h
        split at h
        · cases h
        · split at h <;> simp [Except.map] at h
      · simp at h

/-- Every token but a run of text ends where its own bytes say. -/
theorem stopsAt_scan (h : scan bytes = .ok (some (t, rest))) (ht : ∀ raw, t ≠ .text raw) :
    StopsAt scan (fun more => .ok (some (t, more))) bytes rest := by
  cases bytes with
  | nil => simp [scan] at h
  | cons b bytes =>
    rw [scan] at h
    split at h
    · rename_i hb
      obtain ⟨p, hm, hp⟩ := Outcome.exists_of_map_eq_ok h
      cases hp
      refine (stopsAt_scanMarkup hm).after [b] fun bytes more hmore => ?_
      rw [List.singleton_append, scan, if_pos hb, hmore]
      rfl
    · rename_i hb
      split at h
      · rename_i hb'
        obtain ⟨p, hr, hp⟩ := Outcome.exists_of_map_eq_ok h
        cases hp
        refine (stopsAt_scanReference hr).after [b] fun bytes more hmore => ?_
        rw [List.singleton_append, scan, if_neg hb, if_pos hb', hmore]
        rfl
      · simp only [Except.ok.injEq, Option.some.injEq, Prod.mk.injEq] at h
        exact absurd h.1.symm (ht _)

/-- Every token but a run of text starts with a sign of markup. -/
theorem endsText_of_scan (h : scan bytes = .ok (some (t, rest))) (ht : ∀ raw, t ≠ .text raw) :
    EndsText bytes := by
  cases bytes with
  | nil => exact endsText_nil
  | cons b bytes =>
    by_contra hb
    rw [endsText_cons_iff] at hb
    rw [scan_cons_of_not_endsText hb] at h
    simp only [Except.ok.injEq, Option.some.injEq, Prod.mk.injEq] at h
    exact ht _ h.1.symm

/-- What is scanned when the end of a token is cut off: nothing, or a fault, or a run of text up
to the end. -/
theorem scan_part {part : Bytes} (h : scan bytes = .ok (some (t, rest))) (hpart : part <+: bytes)
    (hlt : part.length + rest.length < bytes.length) :
    scan part = .ok none ∨ (∃ fault, scan part = .error fault) ∨
      ∃ raw, scan part = .ok (some (.text raw, [])) := by
  cases part with
  | nil => exact .inl rfl
  | cons b part =>
    obtain ⟨missing, rfl⟩ := hpart
    by_cases hb : endsText b
    · cases hs : scan (b :: part) with
      | error fault => exact .inr (.inl ⟨fault, rfl⟩)
      | ok found =>
        cases found with
        | none => exact .inl rfl
        | some p =>
          obtain ⟨t', rest'⟩ := p
          have hstop := stopsAt_scan h (ne_text_of_scan_cons hb h)
          have hstop' := stopsAt_scan hs (ne_text_of_scan_cons hb hs)
          refine absurd hstop' (hstop.not_of_length_lt ?_ (List.prefix_append _ _) hlt)
          intro more more' heq
          simp only [Except.ok.injEq, Option.some.injEq, Prod.mk.injEq] at heq
          exact heq.2
    · obtain ⟨raw, rfl⟩ : ∃ raw, t = .text raw := by
        rw [List.cons_append, scan_cons_of_not_endsText hb] at h
        simp only [Except.ok.injEq, Option.some.injEq, Prod.mk.injEq] at h
        exact ⟨_, h.1.symm⟩
      obtain ⟨heq, -, hraw, -⟩ := scan_eq_text_iff.mp h
      have hpre : b :: part <+: raw := by
        refine List.prefix_of_prefix_length_le (List.prefix_append _ missing)
          (heq ▸ List.prefix_append _ _) ?_
        rw [heq, List.length_append] at hlt
        omega
      refine .inr (.inr ⟨b :: part, scan_eq_text_iff.mpr ⟨by simp, by simp, ?_, endsText_nil⟩⟩)
      exact fun a ha => hraw a (hpre.subset ha)

end Token

end BucketWire

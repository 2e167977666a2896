import BucketWire.Proofs.Markup.Name

/-!
# Remarks

Comments and processing instructions are no content of a document. Each ends with a mark of its own,
which must not stand in it before.

## Main definitions

* `Markup.IsRemark` — well-formed comments and processing instructions

## Main results

* `Token.scan_comment`, `Token.scan_instruction` — remarks of any content that does not end them
* `Markup.IsRemark.scan` — a well-formed remark is one token, whatever follows it
-/

namespace BucketWire

namespace Markup

/-- A comment without two hyphens in a row, or a processing instruction with a name and perhaps
blanks and more after it. -/
inductive IsRemark : Bytes → Prop where
  | comment {content : Bytes} : ¬ Utf8.encode "--" <:+: content ++ [Ascii.hyphen] →
    IsRemark (Utf8.encode "<!--" ++ (content ++ Utf8.encode "-->"))
  | instruction {target : String} {content : Bytes} : IsFullName target →
    (∀ b ∈ content.head?, Ascii.isBlank b) → ¬ Utf8.encode "?>" <:+: content →
      IsRemark (Utf8.encode "<?" ++ (Utf8.encode target ++ (content ++ Utf8.encode "?>")))

end Markup

/-! ### Marks at the end -/

namespace Scan

variable {mark content before : Bytes}

/-- A mark is found behind content that it does not stand in, not even with its first bytes. -/
theorem splitAt?_append (hmark : mark ≠ []) (h : ¬ mark <:+: content ++ mark.dropLast)
    (more : Bytes) : splitAt? mark (content ++ (mark ++ more)) = some (content, more) := by
  induction content with
  | nil =>
    obtain ⟨b, mark, rfl⟩ := List.exists_cons_of_ne_nil hmark
    rw [List.nil_append, List.cons_append, splitAt?, ← List.cons_append,
      if_pos (List.isPrefixOf_iff_prefix.mpr (List.prefix_append _ _)), List.drop_left]
  | cons b content ih =>
    have hnot : ¬ mark <+: b :: (content ++ (mark ++ more)) := by
      intro hfirst
      have hshort : b :: content ++ mark.dropLast <+: b :: content ++ (mark ++ more) :=
        (List.prefix_append_right_inj _).mpr
          ((List.dropLast_prefix mark).trans (List.prefix_append _ _))
      refine h (List.IsPrefix.isInfix (List.prefix_of_prefix_length_le hfirst hshort ?_))
      have := List.length_pos_of_ne_nil hmark
      simp only [List.length_append, List.length_cons, List.length_dropLast]
      omega
    have htail : ¬ mark <:+: content ++ mark.dropLast := fun htail =>
      h (htail.trans (List.suffix_cons b _).isInfix)
    rw [List.cons_append, splitAt?, if_neg (mt List.isPrefixOf_iff_prefix.mp hnot), ih htail]
    rfl

/-- A mark does not start in bytes without its first byte. -/
theorem not_infix_append_of_head? {b : UInt8} (hmark : mark.head? = some b) (hb : b ∉ before)
    (h : ¬ mark <:+: content) : ¬ mark <:+: before ++ content := by
  induction before with
  | nil => exact h
  | cons c before ih =>
    intro hinfix
    rcases List.infix_cons_iff.mp hinfix with ⟨after, hafter⟩ | hinfix
    · have hhead := congrArg List.head? hafter
      rw [List.head?_append, hmark, Option.some_or] at hhead
      exact hb (List.mem_cons.mpr (.inl (Option.some.inj hhead)))
    · exact ih (fun hmem => hb (by simp [hmem])) hinfix

/-- A mark whose last byte stands at its end alone does not start in content that it does not stand
in. -/
theorem not_infix_append_dropLast {b : UInt8} (hlast : mark.getLast? = some b)
    (hb : b ∉ mark.dropLast) (h : ¬ mark <:+: content) : ¬ mark <:+: content ++ mark.dropLast := by
  rintro ⟨before, after, heq⟩
  have hprefix : before ++ mark <+: content ++ mark.dropLast := ⟨after, heq⟩
  rcases List.prefix_or_prefix_of_prefix hprefix (List.prefix_append content _) with hin | hout
  · exact h ((List.suffix_append before mark).isInfix.trans hin.isInfix)
  · -- The mark ends behind the content, and so with one of its own first bytes.
    obtain ⟨behind, hbehind⟩ := hout
    rw [← hbehind, List.append_assoc, List.append_cancel_left_eq] at heq
    cases behind with
    | nil => exact h ⟨before, [], by rw [List.append_nil, ← hbehind, List.append_nil]⟩
    | cons c behind =>
      have hend := congrArg List.getLast? hbehind
      rw [List.getLast?_append_of_ne_nil _ (by simp), List.getLast?_append, hlast,
        Option.some_or] at hend
      exact hb (heq ▸ List.mem_append_left _ (List.mem_of_getLast? hend))

/-- Where no two hyphens stand in a row no comment ends. -/
theorem not_infix_comment (h : ¬ Utf8.encode "--" <:+: content ++ [Ascii.hyphen]) :
    ¬ Utf8.encode "-->" <:+: content ++ (Utf8.encode "-->").dropLast := by
  rintro ⟨before, after, heq⟩
  have hsplit : before ++ Utf8.encode "--" ++ (Ascii.greaterThan :: after) =
      content ++ [Ascii.hyphen] ++ [Ascii.hyphen] := by
    have hmark : Utf8.encode "-->" = Utf8.encode "--" ++ [Ascii.greaterThan] := rfl
    rw [List.append_assoc, List.append_assoc]
    rwa [hmark, List.dropLast_concat, List.append_assoc, List.append_assoc] at heq
  refine h ⟨before, (Ascii.greaterThan :: after).dropLast, ?_⟩
  have := congrArg List.dropLast hsplit
  rwa [List.dropLast_append_of_ne_nil (by simp), List.dropLast_concat] at this

end Scan

/-! ### Tokens of remarks -/

namespace Token

variable {content : Bytes}

/-- A comment goes up to the first mark that ends one. -/
theorem scan_comment (h : ¬ Utf8.encode "-->" <:+: content ++ (Utf8.encode "-->").dropLast)
    (more : Bytes) :
    scan (Utf8.encode "<!--" ++ (content ++ Utf8.encode "-->") ++ more) =
      .ok (some (.remark, more)) := by
  have hbytes : Utf8.encode "<!--" ++ (content ++ Utf8.encode "-->") ++ more =
      Ascii.lessThan :: Ascii.bang :: Ascii.hyphen :: Ascii.hyphen ::
        (content ++ (Utf8.encode "-->" ++ more)) := by
    simp only [List.append_assoc]
    rfl
  have hcomment : scanComment (Ascii.hyphen :: (content ++ (Utf8.encode "-->" ++ more))) =
      .ok (.remark, more) := by
    rw [scanComment, if_pos (by rfl), List.drop_succ_cons, List.drop_zero,
      Scan.splitAt?_append (by decide) h]
    rfl
  rw [hbytes, scan, if_pos rfl, scanMarkup, if_pos rfl, scanBang, if_neg (by decide), if_pos rfl,
    hcomment]
  rfl

/-- A processing instruction goes up to the first mark that ends one. -/
theorem scan_instruction (hhead : content.head? ≠ some Ascii.greaterThan)
    (h : ¬ Utf8.encode "?>" <:+: content) (more : Bytes) :
    scan (Utf8.encode "<?" ++ (content ++ Utf8.encode "?>") ++ more) =
      .ok (some (.remark, more)) := by
  have hbytes : Utf8.encode "<?" ++ (content ++ Utf8.encode "?>") ++ more =
      Ascii.lessThan :: Ascii.question :: (content ++ (Utf8.encode "?>" ++ more)) := by
    simp only [List.append_assoc]
    rfl
  have hhead' : (content ++ (Utf8.encode "?>" ++ more)).head? ≠ some Ascii.greaterThan := by
    cases content with
    | nil => exact fun h => absurd (Option.some.inj h) (by decide)
    | cons b content => exact hhead
  have hend := Scan.not_infix_append_dropLast rfl (by decide) h
  rw [hbytes, scan, if_pos rfl, scanMarkup, if_neg (by decide), if_neg (by decide), if_pos rfl,
    scanInstruction, if_neg hhead', Scan.splitAt?_append (by decide) hend]
  rfl

end Token

namespace Markup.IsRemark

variable {remark : Bytes}

theorem head?_append (h : IsRemark remark) (more : Bytes) :
    (remark ++ more).head? = some Ascii.lessThan := by
  cases h <;> rfl

/-- A remark is one token, whatever follows it. -/
theorem scan (h : IsRemark remark) (more : Bytes) :
    Token.scan (remark ++ more) = .ok (some (.remark, more)) := by
  cases h with
  | comment hcontent => exact Token.scan_comment (Scan.not_infix_comment hcontent) more
  | @instruction target content htarget hblank hcontent =>
    have hname := htarget.isTagName
    have hquestion : Ascii.question ∉ Utf8.encode target := fun hmem =>
      hname.ne hmem (by decide) rfl
    have hhead : (Utf8.encode target ++ content).head? ≠ some Ascii.greaterThan := by
      obtain ⟨b, bytes, htarget⟩ := List.exists_cons_of_ne_nil hname.ne_nil
      rw [htarget]
      simpa using hname.ne (by simp [htarget]) (by decide)
    have hscan := Token.scan_instruction hhead
      (Scan.not_infix_append_of_head? rfl hquestion hcontent) more
    rwa [List.append_assoc (Utf8.encode target)] at hscan

end Markup.IsRemark

end BucketWire

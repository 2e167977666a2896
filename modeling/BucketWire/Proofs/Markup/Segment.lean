import BucketWire.Proofs.Markup.Reference
import BucketWire.Proofs.Markup.Remark
import BucketWire.Proofs.Markup.Tag

/-!
# What an element can hold

The content of an element is a sequence of segments: runs of text, literal sections, references,
comments, processing instructions, and elements with such a content of their own. All of them
together say a text, each segment its part of it, unless one of them is at fault: a reference that
names no character, or bytes that are not UTF-8.

## Main definitions

* `Markup.Segment` — the segments of a content
* `Markup.Segment.bytes`, `Markup.Segment.IsProper` — how a segment is written
* `Markup.Segment.Says` — the text that a segment says
* `Markup.Segment.IsFaulty` — a segment that says none
* `Markup.Segment.IsApart` — runs of text are as long as can be

## Main results

* `Markup.Segment.exists_allSay_or_anyFaulty` — a content says a text or is at fault
* `Token.scan_literal`, `Token.scan_reference` — the tokens of segments
-/

namespace BucketWire

namespace Markup

/-- A piece of the content of an element. -/
inductive Segment where
  /-- A run of text. -/
  | text (raw : Bytes)
  /-- A section of literal text. -/
  | literal (raw : Bytes)
  /-- A reference, without its `&` and `;`. -/
  | reference (raw : Bytes)
  /-- A comment. -/
  | comment (content : Bytes)
  /-- A processing instruction, with its name. -/
  | instruction (content : Bytes)
  /-- An element with a content of its own; `blanks` stand at the end of its end tag. -/
  | element (name attributes blanks : Bytes) (content : List Segment)
  /-- An element that is a single tag. -/
  | single (name attributes : Bytes)

namespace Segment

mutual

/-- A segment as it is written. -/
def bytes : Segment → Bytes
  | .text raw => raw
  | .literal raw => Utf8.encode "<![CDATA[" ++ (raw ++ Utf8.encode "]]>")
  | .reference raw => Ascii.ampersand :: (raw ++ [Ascii.semicolon])
  | .comment content => Utf8.encode "<!--" ++ (content ++ Utf8.encode "-->")
  | .instruction content => Utf8.encode "<?" ++ (content ++ Utf8.encode "?>")
  | .element name attributes blanks content =>
    startTag name attributes ++ (allBytes content ++ endTag name blanks)
  | .single name attributes => singleTag name attributes

/-- Segments as they are written, one after the other. -/
def allBytes : List Segment → Bytes
  | [] => []
  | x :: xs => x.bytes ++ allBytes xs

end

mutual

/-- No segment ends before its end: what it holds is no sign of its own end, nor of other markup. -/
def IsProper : Segment → Prop
  | .text raw => ∀ b ∈ raw, ¬ Token.endsText b
  | .literal raw => ¬ Utf8.encode "]]>" <:+: raw
  | .reference raw => ∀ b ∈ raw, b ≠ Ascii.semicolon ∧ ¬ Token.endsText b
  | .comment content => ¬ Utf8.encode "-->" <:+: content
  | .instruction content =>
    content.head? ≠ some Ascii.greaterThan ∧ ¬ Utf8.encode "?>" <:+: content
  | .element name attributes blanks content =>
    IsTagName name ∧ IsAttributes attributes ∧ IsBlanks blanks ∧ AllProper content
  | .single name attributes => IsTagName name ∧ FollowsName attributes

/-- All of the segments are proper. -/
def AllProper : List Segment → Prop
  | [] => True
  | x :: xs => x.IsProper ∧ AllProper xs

end

mutual

/-- A segment says `s`: a text what it is, a reference the character that it names, an element what
its content says. Remarks say nothing. -/
def Says : Segment → String → Prop
  | .text raw, s => raw = Utf8.encode s
  | .literal raw, s => raw = Utf8.encode s
  | .reference raw, s => ∃ c, Reference.Names raw c ∧ s = String.singleton c
  | .comment _, s => s = ""
  | .instruction _, s => s = ""
  | .element _ _ _ content, s => AllSay content s
  | .single _ _, s => s = ""

/-- What the segments say one after the other is `s`. -/
def AllSay : List Segment → String → Prop
  | [], s => s = ""
  | x :: xs, s => ∃ t u, Says x t ∧ AllSay xs u ∧ s = t ++ u

end

mutual

/-- A segment is not UTF-8, or a reference that names no character, or holds such a segment. -/
def IsFaulty : Segment → Prop
  | .text raw => ∀ s, raw ≠ Utf8.encode s
  | .literal raw => ∀ s, raw ≠ Utf8.encode s
  | .reference raw => ∀ c, ¬ Reference.Names raw c
  | .comment _ => False
  | .instruction _ => False
  | .element _ _ _ content => AnyFaulty content
  | .single _ _ => False

/-- One of the segments is at fault. -/
def AnyFaulty : List Segment → Prop
  | [] => False
  | x :: xs => x.IsFaulty ∨ AnyFaulty xs

end

/-- A segment is a run of text. -/
def IsText (x : Segment) : Prop := ∃ raw, x = .text raw

mutual

/-- In the content of a segment no run of text goes on with another. -/
def IsApart : Segment → Prop
  | .element _ _ _ content => AllApart content
  | _ => True

/-- No run of text goes on with another: the two would be read as one. -/
def AllApart : List Segment → Prop
  | [] => True
  | x :: xs => x.IsApart ∧ (x.IsText → ∀ y ∈ xs.head?, ¬ y.IsText) ∧ AllApart xs

end

/-! ### Texts and faults -/

mutual

/-- A segment says a text, or it is at fault. -/
theorem exists_says_or_isFaulty : (x : Segment) → (∃ s, x.Says s) ∨ x.IsFaulty
  | .text raw => by
    by_cases h : ∃ s, raw = Utf8.encode s
    · exact .inl h
    · exact .inr (not_exists.mp h)
  | .literal raw => by
    by_cases h : ∃ s, raw = Utf8.encode s
    · exact .inl h
    · exact .inr (not_exists.mp h)
  | .reference raw => by
    by_cases h : ∃ c, Reference.Names raw c
    · obtain ⟨c, hc⟩ := h
      exact .inl ⟨_, c, hc, rfl⟩
    · exact .inr (not_exists.mp h)
  | .comment _ => .inl ⟨"", rfl⟩
  | .instruction _ => .inl ⟨"", rfl⟩
  | .element _ _ _ content => exists_allSay_or_anyFaulty content
  | .single _ _ => .inl ⟨"", rfl⟩

/-- A content says a text, or one of its segments is at fault. -/
theorem exists_allSay_or_anyFaulty : (xs : List Segment) → (∃ s, AllSay xs s) ∨ AnyFaulty xs
  | [] => .inl ⟨"", rfl⟩
  | x :: xs => by
    obtain ⟨t, ht⟩ | hx := exists_says_or_isFaulty x
    · obtain ⟨u, hu⟩ | hxs := exists_allSay_or_anyFaulty xs
      · exact .inl ⟨t ++ u, t, u, ht, hu, rfl⟩
      · exact .inr (.inr hxs)
    · exact .inr (.inl hx)

end

variable {x : Segment} {xs : List Segment} {more : Bytes}

theorem AllSay.cons {t u : String} (h : x.Says t) (h' : AllSay xs u) : AllSay (x :: xs) (t ++ u) :=
  ⟨t, u, h, h', rfl⟩

/-! ### The first byte -/

/-- What is no run of text ends one. -/
theorem endsText_bytes (hx : ¬ x.IsText) (more : Bytes) : Token.EndsText (x.bytes ++ more) := by
  have hfirst : ∀ {b : UInt8} {bytes : Bytes}, Token.endsText b → Token.EndsText (b :: bytes) :=
    Token.endsText_cons_iff.mpr
  cases x with
  | text raw => exact absurd ⟨raw, rfl⟩ hx
  | _ =>
    rw [bytes]
    exact hfirst (by decide)

/-- What comes after a run of text that is as long as can be ends it. -/
theorem endsText_allBytes (hxs : ∀ y ∈ xs.head?, ¬ y.IsText) (hmore : Token.EndsText more) :
    Token.EndsText (allBytes xs ++ more) := by
  cases xs with
  | nil => exact hmore
  | cons y ys =>
    rw [allBytes, List.append_assoc]
    exact endsText_bytes (hxs y rfl) _

end Segment

end Markup

/-! ### Tokens of segments -/

namespace Token

variable {raw : Bytes}

/-- A literal section goes up to the first mark that ends one. -/
theorem scan_literal (h : ¬ Utf8.encode "]]>" <:+: raw) (more : Bytes) :
    scan (Utf8.encode "<![CDATA[" ++ (raw ++ Utf8.encode "]]>") ++ more) =
      .ok (some (.literal raw, more)) := by
  have hbytes : Utf8.encode "<![CDATA[" ++ (raw ++ Utf8.encode "]]>") ++ more =
      Ascii.lessThan :: Ascii.bang :: Ascii.openBracket ::
        (Utf8.encode "CDATA[" ++ (raw ++ (Utf8.encode "]]>" ++ more))) := by
    simp only [List.append_assoc]
    rfl
  have hend := Scan.not_infix_append_dropLast rfl (by decide) h
  have hdrop : (Utf8.encode "CDATA[" ++ (raw ++ (Utf8.encode "]]>" ++ more))).drop 6 =
      raw ++ (Utf8.encode "]]>" ++ more) := rfl
  rw [hbytes, scan, if_pos rfl, scanMarkup, if_pos rfl, scanBang, if_pos rfl, scanLiteral,
    if_pos (List.isPrefixOf_iff_prefix.mpr (List.prefix_append _ _)), hdrop,
    Scan.splitAt?_append (by decide) hend]
  rfl

/-- A reference goes up to its semicolon. -/
theorem scan_reference (h : ∀ b ∈ raw, b ≠ Ascii.semicolon ∧ ¬ endsText b) (more : Bytes) :
    scan (Ascii.ampersand :: (raw ++ [Ascii.semicolon]) ++ more) =
      .ok (some (.reference raw, more)) := by
  have hinside : ∀ b ∈ raw, (decide (b ≠ Ascii.semicolon) && decide (b ≠ Ascii.ampersand) &&
      decide (b ≠ Ascii.lessThan)) = true := by
    intro b hb
    obtain ⟨hsemicolon, hends⟩ := h b hb
    simp only [endsText, Bool.or_eq_true, decide_eq_true_eq, not_or] at hends
    simp [hsemicolon, hends.1, hends.2]
  have hbytes : Ascii.ampersand :: (raw ++ [Ascii.semicolon]) ++ more =
      Ascii.ampersand :: (raw ++ Ascii.semicolon :: more) := by simp
  rw [hbytes, scan, if_neg (by decide), if_pos rfl, scanReference]
  simp only [List.takeWhile_append_of_pos hinside, List.dropWhile_append_of_pos hinside]
  rw [List.takeWhile_cons_of_neg (by decide), List.dropWhile_cons_of_neg (by decide)]
  simp [Except.map]

end Token

end BucketWire

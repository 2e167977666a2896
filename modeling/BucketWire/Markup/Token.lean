import BucketWire.Markup.Scan

/-!
# Tokens of markup

A document is a sequence of tokens: runs of text, references, literal sections, start and end tags,
and remarks that say nothing about the content. The first bytes of a token tell its kind, and the
kind tells where it ends. Nothing is known here about what came before or which elements are open,
and nothing that follows a token changes it, but for a run of text, which more text makes longer.

## Main definitions

* `Token` — the kinds of tokens
* `Token.scan` — the token that a byte sequence starts with, and what follows it

## Main results

* `Token.length_lt_of_scan` — a token takes up at least one byte
-/

namespace BucketWire

/-- A token of markup. Everything is kept in bytes as it was written. -/
inductive Token where
  /-- A run of text without `<` and `&`. -/
  | text (raw : Bytes)
  /-- A reference, without its `&` and `;`. -/
  | reference (raw : Bytes)
  /-- The content of a literal section. -/
  | literal (raw : Bytes)
  /-- A comment, a processing instruction, a declaration or a document type. -/
  | remark
  /-- A start tag with its name; a self-closing tag is also its own end tag. -/
  | startTag (name : Bytes) (selfClosing : Bool)
  /-- An end tag with its name. -/
  | endTag (name : Bytes)
  deriving DecidableEq, Repr

namespace Token

open Markup (Fault Construct)

/-! ### Each kind of markup -/

/-- A token that takes up `before`, or the fault that `construct` does not end. -/
def closed (construct : Construct) (token : Bytes → Token) :
    Option (Bytes × Bytes) → Except Fault (Token × Bytes)
  | none => .error (.unclosed construct)
  | some (content, rest) => .ok (token content, rest)

/-- The token after `&`. A reference ends at the first `;`, unless `&` or `<` comes before it. -/
def scanReference (bytes : Bytes) : Except Fault (Token × Bytes) :=
  let inside (b : UInt8) : Bool :=
    b ≠ Ascii.semicolon && b ≠ Ascii.ampersand && b ≠ Ascii.lessThan
  match bytes.dropWhile inside with
  | [] => .error .danglingReference
  | b :: rest =>
    if b = Ascii.semicolon then .ok (.reference (bytes.takeWhile inside), rest)
    else .error .danglingReference

/-- The token after `<![`. -/
def scanLiteral (bytes : Bytes) : Except Fault (Token × Bytes) :=
  if (Utf8.encode "CDATA[").isPrefixOf bytes then
    closed .literal .literal (Scan.splitAt? (Utf8.encode "]]>") (bytes.drop 6))
  else .error (.unclosed .literal)

/-- The token after `<!-`. -/
def scanComment (bytes : Bytes) : Except Fault (Token × Bytes) :=
  if (Utf8.encode "-").isPrefixOf bytes then
    closed .comment (fun _ => .remark) (Scan.splitAt? (Utf8.encode "-->") (bytes.drop 1))
  else .error (.unclosed .comment)

/-- The token after `<!D`, the letter in either case. -/
def scanDocumentType (bytes : Bytes) : Except Fault (Token × Bytes) :=
  if Ascii.eqIgnoringCase (bytes.take 6) (Utf8.encode "OCTYPE") then
    match Scan.documentType? (bytes.drop 6) with
    | none => .error (.unclosed .documentType)
    | some rest =>
      if ((bytes.drop 6).dropWhile Ascii.isBlank).head? = some Ascii.greaterThan then
        .error .namelessDocumentType
      else .ok (.remark, rest)
  else .error (.unclosed .documentType)

/-- The token after `<!`. -/
def scanBang : Bytes → Except Fault (Token × Bytes)
  | [] => .error .unknownMarkup
  | b :: bytes =>
    if b = Ascii.openBracket then scanLiteral bytes
    else if b = Ascii.hyphen then scanComment bytes
    else if b = 0x44 ∨ b = 0x64 then scanDocumentType bytes
    else .error .unknownMarkup

/-- Which construct an instruction that goes on with `bytes` is: `xml` as its whole name makes it
the declaration. -/
def instructionKind (bytes : Bytes) : Construct :=
  if (Utf8.encode "xml").isPrefixOf bytes ∧
      (bytes.drop 3).head?.all (fun b => Ascii.isBlank b || b = Ascii.question) then .declaration
  else .instruction

/-- The token after `<?`. -/
def scanInstruction (bytes : Bytes) : Except Fault (Token × Bytes) :=
  if bytes.head? = some Ascii.greaterThan then .error (.unclosed .instruction)
  else
    closed (instructionKind bytes) (fun _ => .remark) (Scan.splitAt? (Utf8.encode "?>") bytes)

/-- The content of an end tag without the blanks at its end; content of blanks alone stays. -/
def endTagName (content : Bytes) : Bytes :=
  if content.all Ascii.isBlank then content
  else (content.reverse.dropWhile Ascii.isBlank).reverse

/-- The start tag with this content: its name goes up to the first blank, and a slash at the end
closes it. -/
def ofStartTag (content : Bytes) : Token :=
  if content.getLast? = some Ascii.slash then
    .startTag (content.dropLast.takeWhile (!Ascii.isBlank ·)) true
  else .startTag (content.takeWhile (!Ascii.isBlank ·)) false

/-- A tag whose content starts `bytes`, as the token that the content makes it. -/
def scanTag (token : Bytes → Token) (bytes : Bytes) : Except Fault (Token × Bytes) :=
  (Scan.tag none bytes).map fun (content, rest) => (token content, rest)

/-- The token after `<`. -/
def scanMarkup : Bytes → Except Fault (Token × Bytes)
  | [] => .error (.unclosed .tag)
  | b :: bytes =>
    if b = Ascii.bang then scanBang bytes
    else if b = Ascii.slash then scanTag (fun content => .endTag (endTagName content)) bytes
    else if b = Ascii.question then scanInstruction bytes
    else scanTag ofStartTag (b :: bytes)

/-! ### Scanning a token -/

/-- Whether `b` ends a run of text. -/
def endsText (b : UInt8) : Bool := b = Ascii.lessThan || b = Ascii.ampersand

/-- The token at the front of `bytes` and what follows it; nothing at the end of the document. -/
def scan : Bytes → Except Fault (Option (Token × Bytes))
  | [] => .ok none
  | b :: bytes =>
    if b = Ascii.lessThan then (scanMarkup bytes).map some
    else if b = Ascii.ampersand then (scanReference bytes).map some
    else
      .ok (some (.text (b :: bytes.takeWhile (!endsText ·)), bytes.dropWhile (!endsText ·)))

/-! ### Progress -/

theorem length_le_of_closed {construct : Construct} {token : Bytes → Token} {bytes : Bytes}
    {split : Option (Bytes × Bytes)} {t : Token} {rest : Bytes}
    (hsplit : ∀ content rest, split = some (content, rest) → rest.length ≤ bytes.length)
    (h : closed construct token split = .ok (t, rest)) : rest.length ≤ bytes.length := by
  cases split with
  | none => simp [closed] at h
  | some p =>
    obtain ⟨content, rest'⟩ := p
    simp only [closed, Except.ok.injEq, Prod.mk.injEq] at h
    obtain ⟨-, rfl⟩ := h
    exact hsplit content rest' rfl

theorem length_dropWhile_le {p : UInt8 → Bool} (bytes : Bytes) :
    (bytes.dropWhile p).length ≤ bytes.length :=
  (List.dropWhile_sublist p).length_le

theorem length_lt_of_scanReference {bytes rest : Bytes} {t : Token}
    (h : scanReference bytes = .ok (t, rest)) : rest.length < bytes.length := by
  unfold scanReference at h
  simp only at h
  split at h
  · cases h
  · rename_i b rest' hd
    have hle := length_dropWhile_le (p := fun b => decide (b ≠ Ascii.semicolon) &&
      decide (b ≠ Ascii.ampersand) && decide (b ≠ Ascii.lessThan)) bytes
    rw [hd] at hle
    split at h
    · simp only [Except.ok.injEq, Prod.mk.injEq] at h
      obtain ⟨-, rfl⟩ := h
      exact hle
    · cases h

theorem length_le_of_scanLiteral {bytes rest : Bytes} {t : Token}
    (h : scanLiteral bytes = .ok (t, rest)) : rest.length ≤ bytes.length := by
  rw [scanLiteral] at h
  split at h
  · refine length_le_of_closed (fun content rest hs => ?_) h
    exact Nat.le_trans (Scan.length_le_of_splitAt? hs) (by simp)
  · cases h

theorem length_le_of_scanComment {bytes rest : Bytes} {t : Token}
    (h : scanComment bytes = .ok (t, rest)) : rest.length ≤ bytes.length := by
  rw [scanComment] at h
  split at h
  · refine length_le_of_closed (fun content rest hs => ?_) h
    exact Nat.le_trans (Scan.length_le_of_splitAt? hs) (by simp)
  · cases h

theorem length_le_of_scanDocumentType {bytes rest : Bytes} {t : Token}
    (h : scanDocumentType bytes = .ok (t, rest)) : rest.length ≤ bytes.length := by
  rw [scanDocumentType] at h
  split at h
  · split at h
    · cases h
    · rename_i rest' hd
      have hlt := Scan.length_lt_of_documentType? hd
      rw [List.length_drop] at hlt
      split at h
      · cases h
      · simp only [Except.ok.injEq, Prod.mk.injEq] at h
        obtain ⟨-, rfl⟩ := h
        omega
  · cases h

theorem length_le_of_scanBang {bytes rest : Bytes} {t : Token}
    (h : scanBang bytes = .ok (t, rest)) : rest.length ≤ bytes.length := by
  cases bytes with
  | nil => simp [scanBang] at h
  | cons b bytes =>
    rw [scanBang] at h
    refine Nat.le_succ_of_le ?_
    split at h
    · exact length_le_of_scanLiteral h
    · split at h
      · exact length_le_of_scanComment h
      · split at h
        · exact length_le_of_scanDocumentType h
        · cases h

theorem length_le_of_scanInstruction {bytes rest : Bytes} {t : Token}
    (h : scanInstruction bytes = .ok (t, rest)) : rest.length ≤ bytes.length := by
  rw [scanInstruction] at h
  split at h
  · cases h
  · exact length_le_of_closed (fun content rest hs => Scan.length_le_of_splitAt? hs) h

theorem length_lt_of_scanTag {token : Bytes → Token} {bytes rest : Bytes} {t : Token}
    (h : scanTag token bytes = .ok (t, rest)) : rest.length < bytes.length := by
  rw [scanTag] at h
  cases ht : Scan.tag none bytes with
  | error e => simp [ht, Except.map] at h
  | ok p =>
    simp only [ht, Except.map, Except.ok.injEq, Prod.mk.injEq] at h
    obtain ⟨-, rfl⟩ := h
    exact Scan.length_lt_of_tag ht

theorem length_le_of_scanMarkup {bytes rest : Bytes} {t : Token}
    (h : scanMarkup bytes = .ok (t, rest)) : rest.length ≤ bytes.length := by
  cases bytes with
  | nil => simp [scanMarkup] at h
  | cons b bytes =>
    rw [scanMarkup] at h
    split at h
    · exact Nat.le_succ_of_le (length_le_of_scanBang h)
    · split at h
      · exact Nat.le_succ_of_le (Nat.le_of_lt (length_lt_of_scanTag h))
      · split at h
        · exact Nat.le_succ_of_le (length_le_of_scanInstruction h)
        · exact Nat.le_of_lt (length_lt_of_scanTag h)

/-- A token takes up at least one byte. -/
theorem length_lt_of_scan {bytes rest : Bytes} {t : Token}
    (h : scan bytes = .ok (some (t, rest))) : rest.length < bytes.length := by
  cases bytes with
  | nil => simp [scan] at h
  | cons b bytes =>
    rw [scan] at h
    split at h
    · cases hm : scanMarkup bytes with
      | error e => simp [hm, Except.map] at h
      | ok p =>
        simp only [hm, Except.map, Except.ok.injEq, Option.some.injEq] at h
        subst h
        exact Nat.lt_succ_of_le (length_le_of_scanMarkup hm)
    · split at h
      · cases hm : scanReference bytes with
        | error e => simp [hm, Except.map] at h
        | ok p =>
          simp only [hm, Except.map, Except.ok.injEq, Option.some.injEq] at h
          subst h
          exact Nat.lt_succ_of_lt (length_lt_of_scanReference hm)
      · simp only [Except.ok.injEq, Option.some.injEq, Prod.mk.injEq] at h
        obtain ⟨-, rfl⟩ := h
        exact Nat.lt_succ_of_le (length_dropWhile_le bytes)

end Token

end BucketWire

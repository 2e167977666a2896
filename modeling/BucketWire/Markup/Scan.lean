import BucketWire.Markup.Ascii
import BucketWire.Markup.Fault

/-!
# Finding the end of markup

Each scanner looks for the end of one kind of markup and gives what stands before it and what is
left after it. What is left is always a proper end of what was scanned.

## Main definitions

* `Scan.past` — up to and including a byte
* `Scan.splitAt?` — around the first occurrence of a mark
* `Scan.tag` — to the `>` that closes a tag
* `Scan.documentType?` — past the `>` that closes a document type

## Main results

* `Scan.length_lt_of_past`, `Scan.length_le_of_splitAt?`, `Scan.length_lt_of_tag`,
  `Scan.length_lt_of_documentType?` — the rest is shorter
-/

namespace BucketWire

namespace Scan

/-! ### Bytes and marks -/

/-- What follows the first `stop` in `bytes`. -/
def past (stop : UInt8) : Bytes → Option Bytes
  | [] => none
  | b :: bytes => if b = stop then some bytes else past stop bytes

/-- What stands before the first `mark` in `bytes`, and what follows it. -/
def splitAt? (mark : Bytes) : Bytes → Option (Bytes × Bytes)
  | [] => none
  | b :: bytes =>
    if mark.isPrefixOf (b :: bytes) then some ([], (b :: bytes).drop mark.length)
    else (splitAt? mark bytes).map fun (before, rest) => (b :: before, rest)

theorem length_lt_of_past {stop : UInt8} {bytes rest : Bytes} (h : past stop bytes = some rest) :
    rest.length < bytes.length := by
  induction bytes with
  | nil => simp [past] at h
  | cons b bytes ih =>
    rw [past] at h
    split at h
    · simp_all
    · exact Nat.lt_succ_of_lt (ih h)

theorem length_le_of_splitAt? {mark bytes before rest : Bytes}
    (h : splitAt? mark bytes = some (before, rest)) : rest.length ≤ bytes.length := by
  induction bytes generalizing before with
  | nil => simp [splitAt?] at h
  | cons b bytes ih =>
    rw [splitAt?] at h
    split at h
    · simp only [Option.some.injEq, Prod.mk.injEq] at h
      rw [← h.2, List.length_drop]
      omega
    · simp only [Option.map_eq_some_iff, Prod.exists, Prod.mk.injEq] at h
      obtain ⟨before', rest', h, -, rfl⟩ := h
      exact Nat.le_succ_of_le (ih h)

/-! ### Tags -/

/-- What kind of markup is open inside a tag, given the quotation mark that is open. -/
def openConstruct : Option UInt8 → Markup.Construct
  | none => .tag
  | some quote => if quote = Ascii.apostrophe then .apostrophes else .quotationMarks

/-- The quotation mark that is open after the byte `b`. -/
def quoteAfter (quote : Option UInt8) (b : UInt8) : Option UInt8 :=
  match quote with
  | none => if Ascii.isQuote b then some b else none
  | some q => if b = q then none else some q

/-- The content of a tag up to the first `>` outside quotation marks, and what follows it; `quote`
is the mark that is open at the start. -/
def tag (quote : Option UInt8) : Bytes → Except Markup.Fault (Bytes × Bytes)
  | [] => .error (.unclosed (openConstruct quote))
  | b :: bytes =>
    if quote = none ∧ b = Ascii.greaterThan then .ok ([], bytes)
    else (tag (quoteAfter quote b) bytes).map fun (content, rest) => (b :: content, rest)

theorem length_lt_of_tag {quote : Option UInt8} {bytes content rest : Bytes}
    (h : tag quote bytes = .ok (content, rest)) : rest.length < bytes.length := by
  induction bytes generalizing quote content with
  | nil => simp [tag] at h
  | cons b bytes ih =>
    rw [tag] at h
    split at h
    · simp_all
    · cases ht : tag (quoteAfter quote b) bytes with
      | error e => simp [ht, Except.map] at h
      | ok p =>
        simp only [ht, Except.map, Except.ok.injEq, Prod.mk.injEq] at h
        obtain ⟨-, rfl⟩ := h
        exact Nat.lt_succ_of_lt (ih ht)

/-! ### Document types -/

/-- Whether a declaration that follows `<` in a document type may hold `>` between quotation
marks. -/
def isQuotedDeclaration (bytes : Bytes) : Bool :=
  (Utf8.encode "!ENTITY").isPrefixOf bytes || (Utf8.encode "!ATTLIST").isPrefixOf bytes ||
    (Utf8.encode "!NOTATION").isPrefixOf bytes

/-- What follows one declaration, comment or processing instruction of a document type, whose `<`
stands before `bytes`. -/
def declaration? (bytes : Bytes) : Option Bytes :=
  if (Utf8.encode "?").isPrefixOf bytes then
    (splitAt? (Utf8.encode "?>") (bytes.drop 1)).map Prod.snd
  else if (Utf8.encode "!--").isPrefixOf bytes then
    (splitAt? (Utf8.encode "-->") (bytes.drop 3)).map Prod.snd
  else if isQuotedDeclaration bytes then (tag none bytes).toOption.map Prod.snd
  else past Ascii.greaterThan bytes

theorem length_le_of_declaration? {bytes rest : Bytes} (h : declaration? bytes = some rest) :
    rest.length ≤ bytes.length := by
  rw [declaration?] at h
  split at h
  · simp only [Option.map_eq_some_iff, Prod.exists, exists_eq_right] at h
    obtain ⟨before, h⟩ := h
    exact Nat.le_trans (length_le_of_splitAt? h) (by simp)
  · split at h
    · simp only [Option.map_eq_some_iff, Prod.exists, exists_eq_right] at h
      obtain ⟨before, h⟩ := h
      exact Nat.le_trans (length_le_of_splitAt? h) (by simp)
    · split at h
      · cases ht : tag none bytes with
        | error e => simp [ht, Except.toOption] at h
        | ok p =>
          obtain ⟨content, rest'⟩ := p
          simp only [ht, Except.toOption, Option.map_some, Option.some.injEq] at h
          subst h
          exact Nat.le_of_lt (length_lt_of_tag ht)
      · exact Nat.le_of_lt (length_lt_of_past h)

/-- What follows a document type whose internal subset goes on with `bytes`. -/
def subset? (bytes : Bytes) : Option Bytes :=
  match bytes with
  | [] => none
  | b :: rest =>
    if b = Ascii.closeBracket then past Ascii.greaterThan rest
    else if b = Ascii.lessThan then
      match h : declaration? rest with
      | none => none
      | some rest' =>
        have := length_le_of_declaration? h
        subset? rest'
    else subset? rest
termination_by bytes.length

/-- What follows a document type that goes on with `bytes` before its internal subset. -/
def documentType? (bytes : Bytes) : Option Bytes :=
  match bytes with
  | [] => none
  | b :: rest =>
    if b = Ascii.greaterThan then some rest
    else if b = Ascii.openBracket then subset? rest
    else if Ascii.isQuote b then
      match h : past b rest with
      | none => none
      | some rest' =>
        have := length_lt_of_past h
        documentType? rest'
    else documentType? rest
termination_by bytes.length

theorem length_lt_of_subset? {bytes rest : Bytes} (h : subset? bytes = some rest) :
    rest.length < bytes.length := by
  induction hn : bytes.length using Nat.strongRecOn generalizing bytes with
  | _ n ih =>
    subst hn
    cases bytes with
    | nil => simp [subset?] at h
    | cons b bytes =>
      rw [subset?] at h
      simp only [List.length_cons] at ih ⊢
      split at h
      · exact Nat.lt_succ_of_lt (length_lt_of_past h)
      · split at h
        · split at h
          · cases h
          · rename_i rest' hd
            have hle := length_le_of_declaration? hd
            have := ih rest'.length (by omega) h rfl
            omega
        · have := ih bytes.length (by omega) h rfl
          omega

theorem length_lt_of_documentType? {bytes rest : Bytes} (h : documentType? bytes = some rest) :
    rest.length < bytes.length := by
  induction hn : bytes.length using Nat.strongRecOn generalizing bytes with
  | _ n ih =>
    subst hn
    cases bytes with
    | nil => simp [documentType?] at h
    | cons b bytes =>
      rw [documentType?] at h
      simp only [List.length_cons] at ih ⊢
      split at h
      · simp_all
      · split at h
        · exact Nat.lt_succ_of_lt (length_lt_of_subset? h)
        · split at h
          · split at h
            · cases h
            · rename_i rest' hp
              have hlt := length_lt_of_past hp
              have := ih rest'.length (by omega) h rfl
              omega
          · have := ih bytes.length (by omega) h rfl
            omega

end Scan

end BucketWire

import BucketWire.Proofs.Decode.Restyle
import BucketWire.Proofs.Record.Order

/-!
# Records and the presentation of a document

How a document is presented does not matter to any record: prefixes, attributes, the way in which an
element without content is written, blanks in end tags, remarks, and what stands around the root
element.

## Main results

* `Kind.decode_rewritten` — a document that is written in other ways, any number of times, decodes
  to the same record
* `Kind.decode_expanded_slash` — a self-closing tag with a further slash has to stay one tag
-/

namespace BucketWire

namespace Kind

/-- A document decodes to the same record after any number of its parts were written in another
way. -/
theorem decode_rewritten (kind : Kind) {settings : Settings} {document document' : Bytes}
    {r : kind.Record} (h : kind.decoder.decode settings document = .ok r)
    (hrewrites : Relation.ReflTransGen (Markup.Rewrites settings.checkEndNames) document
      document') : kind.decoder.decode settings document' = .ok r := by
  induction hrewrites with
  | refl => exact h
  | tail _ hstep ih => exact kind.decoder.decode_rewrites hstep ih

/-! ### A key in two forms -/

namespace Sample

open Markup (IsName IsRemark IsAttribute IsPlace Rewrites isName_ofList)

theorem isName_key : IsName "Key" := isName_ofList (by decide)

/-- The text of a key. -/
def text : Gap true where
  bytes := Utf8.encode "kl"
  events := [.text (Utf8.encode "kl")]
  not_isTag := List.forall_mem_singleton.mpr id
  tape_eq := by decide +kernel

/-- The content of a key. -/
def keyText : Content true where
  front := text
  pieces := []

/-- The key gets a prefix. -/
theorem rewrites_rename : Rewrites true (Utf8.encode "<Contents><Key>kl</Key></Contents>")
    (Utf8.encode "<Contents><s3:Key>kl</s3:Key></Contents>") := by
  have hplace : IsPlace true (Utf8.encode "<Contents>")
      (keyText.inTags (Utf8.encode "Key") (Utf8.encode "") [] ++ Utf8.encode "</Contents>") :=
    ⟨[.start (Utf8.encode "Contents")], [Utf8.encode "Contents"], .single (by decide +kernel)⟩
  have hspace : IsName "s3" := isName_ofList (by decide)
  have h := Rewrites.respell hplace (.rename keyText (.plain isName_key)
    (.prefixed hspace isName_key.isFullName) Markup.isAttributes_empty Markup.isBlanks_nil)
  have hold : Utf8.encode "<Contents>" ++
      (keyText.inTags (Utf8.encode "Key") (Utf8.encode "") [] ++ Utf8.encode "</Contents>") =
        Utf8.encode "<Contents><Key>kl</Key></Contents>" := by decide +kernel
  have hnew : Utf8.encode "<Contents>" ++
      (keyText.inTags (Utf8.encode ("s3" ++ ":" ++ "Key")) (Utf8.encode "") [] ++
        Utf8.encode "</Contents>") =
        Utf8.encode "<Contents><s3:Key>kl</s3:Key></Contents>" := by decide +kernel
  rwa [hold, hnew] at h

/-- The object gets an attribute whose value holds signs of markup. -/
theorem rewrites_addAttribute :
    Rewrites true (Utf8.encode "<Contents><s3:Key>kl</s3:Key></Contents>")
      (Utf8.encode "<Contents a=\"/>\"><s3:Key>kl</s3:Key></Contents>") := by
  have hcontents : IsName "Contents" := isName_ofList (by decide)
  have ha : IsName "a" := isName_ofList (by decide)
  have hattribute : IsAttribute ([0x20] ++ (Utf8.encode "a" ++
      (Utf8.encode "=\"" ++ (Utf8.encode "/>" ++ [Ascii.quotation])))) :=
    .mk (by decide) (by decide) ha.isFullName (by decide)
  have hplace : IsPlace true [] (Markup.startTag (Utf8.encode "Contents") (Utf8.encode "") ++
      Utf8.encode "<s3:Key>kl</s3:Key></Contents>") := by
    refine ⟨[], [], ?_⟩
    rw [List.nil_append, Cursor.ofDocument_of_lessThan rfl]
    exact .refl _
  have h := Rewrites.respell hplace
    (.addAttribute hcontents.isFullName hattribute Markup.isAttributes_empty)
  have hold : Markup.startTag (Utf8.encode "Contents") (Utf8.encode "") ++
      Utf8.encode "<s3:Key>kl</s3:Key></Contents>" =
        Utf8.encode "<Contents><s3:Key>kl</s3:Key></Contents>" := by decide +kernel
  have hnew : Markup.startTag (Utf8.encode "Contents") (([0x20] ++ (Utf8.encode "a" ++
      (Utf8.encode "=\"" ++ (Utf8.encode "/>" ++ [Ascii.quotation])))) ++ Utf8.encode "") ++
      Utf8.encode "<s3:Key>kl</s3:Key></Contents>" =
        Utf8.encode "<Contents a=\"/>\"><s3:Key>kl</s3:Key></Contents>" := by decide +kernel
  rwa [List.nil_append, List.nil_append, hold, hnew] at h

/-- A comment breaks the text of the key. -/
theorem rewrites_broken :
    Rewrites true (Utf8.encode "<Contents a=\"/>\"><s3:Key>kl</s3:Key></Contents>")
      (Utf8.encode "<Contents a=\"/>\"><s3:Key>k<!-- & -->l</s3:Key></Contents>") := by
  let text := Utf8.encode "k" ++ Utf8.encode "l" ++ Utf8.encode "</s3:Key></Contents>"
  have hroot : (Cursor.ofDocument true (Utf8.encode "<Contents a=\"/>\"><s3:Key>" ++ text)).next =
      .ok (some (.start (Utf8.encode "Contents"),
        { rest := Utf8.encode "<s3:Key>" ++ text, opened := [Utf8.encode "Contents"] })) := by
    decide +kernel
  have hkey : ({ rest := Utf8.encode "<s3:Key>" ++ text,
                 opened := [Utf8.encode "Contents"] } : Cursor).next =
      .ok (some (.start (Utf8.encode "s3:Key"),
        { rest := text, opened := [Utf8.encode "s3:Key", Utf8.encode "Contents"] })) := by
    decide +kernel
  have hplace : IsPlace true (Utf8.encode "<Contents a=\"/>\"><s3:Key>") text :=
    ⟨_, _, .step hroot (.single hkey)⟩
  have hremark : IsRemark (Utf8.encode "<!--" ++ (Utf8.encode " & " ++ Utf8.encode "-->")) :=
    .comment (by decide)
  have hboundary : ∀ b ∈ (Utf8.encode "l").head?, Utf8.isContinuation b = false := by
    intro b hb
    have hhead : (Utf8.encode "l").head? = some 0x6C := rfl
    rw [hhead] at hb
    cases hb
    rfl
  have h := Rewrites.broken hplace (by decide +kernel) (by decide) (by decide) hboundary hremark
  have hold : Utf8.encode "<Contents a=\"/>\"><s3:Key>" ++ text =
      Utf8.encode "<Contents a=\"/>\"><s3:Key>kl</s3:Key></Contents>" := by decide +kernel
  have hnew : Utf8.encode "<Contents a=\"/>\"><s3:Key>" ++ (Utf8.encode "k" ++
      ((Utf8.encode "<!--" ++ (Utf8.encode " & " ++ Utf8.encode "-->")) ++ (Utf8.encode "l" ++
        Utf8.encode "</s3:Key></Contents>"))) =
      Utf8.encode "<Contents a=\"/>\"><s3:Key>k<!-- & -->l</s3:Key></Contents>" := by
    decide +kernel
  rwa [hold, hnew] at h

end Sample

/-- The key is the same in all forms of the object. -/
theorem decode_rewritten_key :
    Decoder.listedObject.decode {} (Utf8.encode "<Contents><Key>kl</Key></Contents>") =
      .ok { key := "kl" } ∧
    Decoder.listedObject.decode {}
        (Utf8.encode "<Contents a=\"/>\"><s3:Key>k<!-- & -->l</s3:Key></Contents>") =
      .ok { key := "kl" } := by
  have h : Decoder.listedObject.decode {} (Utf8.encode "<Contents><Key>kl</Key></Contents>") =
      .ok { key := "kl" } := by decide +kernel
  exact ⟨h, decode_rewritten listedObject h (.tail (.tail (.single Sample.rewrites_rename)
    Sample.rewrites_addAttribute) Sample.rewrites_broken)⟩

/-- An element without content cannot always be written with two tags in place of one. An owner is
read from `<Owner><ID //></Owner>`, where what follows the name of the inner tag ends with a slash,
and none from `<Owner><ID /></ID></Owner>`. -/
theorem decode_expanded_slash :
    Markup.IsFullName "ID" ∧ Markup.FollowsName (Utf8.encode " /") ∧
    Decoder.owner.decode {} (Utf8.encode "<Owner>" ++
        (Markup.singleTag (Utf8.encode "ID") (Utf8.encode " /") ++ Utf8.encode "</Owner>")) =
      .ok {} ∧
    Decoder.owner.decode {} (Utf8.encode "<Owner>" ++
        ((Markup.startTag (Utf8.encode "ID") (Utf8.encode " /") ++
          Markup.endTag (Utf8.encode "ID") []) ++ Utf8.encode "</Owner>")) =
      .error (.malformed (.mismatchedEnd (Utf8.encode "Owner") (Utf8.encode "ID"))) := by
  have hid : Markup.IsName "ID" := Markup.isName_ofList (by decide)
  let document := Utf8.encode "<Owner>" ++
    ((Markup.startTag (Utf8.encode "ID") (Utf8.encode " /") ++
      Markup.endTag (Utf8.encode "ID") []) ++ Utf8.encode "</Owner>")
  have hroot : (Cursor.ofDocument true document).next =
      .ok (some (.start (Utf8.encode "Owner"),
        { rest := Markup.startTag (Utf8.encode "ID") ([0x20] ++ [Ascii.slash]) ++
            (Markup.endTag (Utf8.encode "ID") [] ++ Utf8.encode "</Owner>")
          opened := [Utf8.encode "Owner"] })) := by
    decide +kernel
  have htape : Tape.ofDocument true document =
      .event (.start (Utf8.encode "Owner")) (.event (.start (Utf8.encode "ID"))
        (.event (.close (Utf8.encode "ID"))
          (.broken (.mismatchedEnd (Utf8.encode "Owner") (Utf8.encode "ID"))))) := by
    rw [Tape.ofDocument, (Cursor.Walk.single hroot).tape_eq,
      Markup.tape_expand_slash hid.isTagName (by decide) (by decide)]
    rfl
  refine ⟨hid.isFullName, by decide, by decide +kernel, ?_⟩
  rw [Decoder.decode, htape]
  decide +kernel

end Kind

end BucketWire

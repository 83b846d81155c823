import Sigillum.AssemblyAgreement
import Sigillum.AttachmentLines
import Sigillum.MessageLines
import Sigillum.QuotedPrintable

/-! # The limit on lines

RFC 5322 allows 998 octets in a line, and `AssembleMessage` refuses a header that cannot
be folded to that.  The header of a part is written by `multipart.Writer`, which folds
nothing, and nothing checks it: two of its fields hold what the caller gave, the content
type and the file name.

All other lines are short, those of bodies because of their encodings.  So the lines of
a message keep to the limit exactly if those two do for each attachment
(`line_limit_iff`).
-/
namespace Sigillum
open Runes Bytes HeaderBlock WordEncoder

/-! ## The fields of an attachment -/

/-- The characters `rfc5987Encode` leaves as they are. -/
def isAttrChar (c : UInt8) : Bool :=
  (97 ≤ c ∧ c ≤ 122) ∨ (65 ≤ c ∧ c ≤ 90) ∨ (48 ≤ c ∧ c ≤ 57) ∨ (lit "!#$&+-.^_`|~").contains c

/-- The length of the media type of an attachment, with the charset of a text. -/
def mediaTypeLength (L : Libraries) (ct : Bytes) : Nat :=
  if trimSpace ct = [] then 24
  else match L.parseMediaType ct with
  | .error _ => 0
  | .ok (mt, params) =>
    let charset := if (lit "text/").isPrefixOf mt then
      ((params.find? fun p => p.1 == lit "charset").map Prod.snd).getD [] else []
    (L.formatMediaType mt (if charset = [] then [] else [(lit "charset", charset)])).length

/-- The length of a file name as a parameter: quoted, and if it is not ASCII encoded too. -/
def filenameLength (filename : Bytes) : Nat :=
  13 + (runes filename).length + (runes filename).countP (fun r => r == 92 || r == 34) +
    if isASCII filename then 0
    else 19 + filename.length + 2 * filename.countP fun c => !isAttrChar c

/-- The length of the content disposition of an attachment. -/
def dispositionLength (L : Libraries) (a : Attachment) : Nat :=
  (if a.isInline L then 6 else 10) + if a.filename = [] then 0 else filenameLength a.filename

/-- The fields with what the caller gave fit into lines. -/
structure HeaderFits (L : Libraries) (a : Attachment) : Prop where
  contentType : 14 + mediaTypeLength L a.contentType ≤ maxHeaderLine
  disposition : 21 + dispositionLength L a ≤ maxHeaderLine

section Fields
variable {L : Libraries}

theorem length_sanitizeContentType {ct out : Bytes} (h : sanitizeContentType L ct = .ok out) :
    out.length = mediaTypeLength L ct := by
  unfold sanitizeContentType at h
  unfold mediaTypeLength
  split at h
  · rename_i hblank
    rw [if_pos hblank, ← Except.ok.inj h]
    rfl
  · rename_i hgiven
    rw [if_neg hgiven]
    cases hparse : L.parseMediaType ct with
    | error err =>
      rw [hparse] at h
      cases h
    | ok parsed =>
      obtain ⟨mt, params⟩ := parsed
      rw [hparse] at h
      dsimp only at h ⊢
      -- the charset and the text made with it are the same in both definitions
      generalize (if (lit "text/").isPrefixOf mt then _ else []) = charset at h ⊢
      generalize L.formatMediaType mt _ = formatted at h ⊢
      split at h
      · cases h
      · rw [← Except.ok.inj h]

theorem length_rfc5987Encode (s : Bytes) :
    (rfc5987Encode s).length = s.length + 2 * s.countP fun c => !isAttrChar c := by
  induction s with
  | nil => rfl
  | cons c s ih =>
    rw [rfc5987Encode] at ih ⊢
    rw [List.flatMap_cons, List.length_append, ih, List.countP_cons, List.length_cons]
    by_cases hplain : isAttrChar c = true
    · have hkept := of_decide_eq_true hplain
      rw [if_pos hkept, hplain]
      simp
      omega
    · have hencoded := of_decide_eq_false (Bool.eq_false_iff.mpr hplain)
      rw [if_neg hencoded, Bool.eq_false_iff.mpr hplain]
      simp [hexByte]
      omega

/-- A quote or a backslash takes two characters. -/
theorem length_escaped (rs : List Nat) :
    ((rs.map fun r => if 32 ≤ r ∧ r ≤ 126 then UInt8.ofNat r else 95).flatMap
      fun c => if c = 92 ∨ c = 34 then [92, c] else [c]).length =
        rs.length + rs.countP fun r => r == 92 || r == 34 := by
  have hbyte : ∀ r, (if 32 ≤ r ∧ r ≤ 126 then UInt8.ofNat r else 95) = 92 ∨
      (if 32 ≤ r ∧ r ≤ 126 then UInt8.ofNat r else 95) = 34 ↔ (r == 92 || r == 34) = true := by
    intro r
    have hascii : ∀ r < 127, 32 ≤ r →
        ((UInt8.ofNat r = 92 ∨ UInt8.ofNat r = 34) ↔ (r == 92 || r == 34) = true) := by decide
    split
    · exact hascii r (by omega) (by omega)
    · refine iff_of_false (by decide) ?_
      simp only [Bool.or_eq_true, beq_iff_eq]
      omega
  induction rs with
  | nil => rfl
  | cons r rs ih =>
    rw [List.map_cons, List.flatMap_cons, List.length_append, ih, List.countP_cons,
      List.length_cons]
    by_cases hescaped : (r == 92 || r == 34) = true
    · rw [if_pos ((hbyte r).mpr hescaped), if_pos hescaped]
      simp
      omega
    · rw [if_neg fun h => hescaped ((hbyte r).mp h), if_neg hescaped]
      simp
      omega

theorem length_contentDispositionValue (disp filename : Bytes) :
    (contentDispositionValue disp filename).length = disp.length + filenameLength filename := by
  have hlit : (lit "; filename=\"").length = 12 ∧ (lit "\"").length = 1 ∧
      (lit "; filename*=UTF-8''").length = 19 := by decide
  rw [contentDispositionValue, filenameLength, asciiFilenameFallback, List.length_append,
    List.length_append, List.length_append, List.length_append, length_escaped, hlit.1, hlit.2.1]
  split
  · rw [List.length_nil]
    omega
  · rw [List.length_append, length_rfc5987Encode, hlit.2.2]
    omega

theorem length_contentDisposition {a : Attachment} {disposition : Bytes}
    (h : contentDisposition L a = .ok disposition) :
    disposition.length = dispositionLength L a := by
  have hdisp : (if a.isInline L then lit "inline" else lit "attachment").length =
      if a.isInline L then 6 else 10 := by
    split <;> rfl
  unfold contentDisposition at h
  unfold dispositionLength
  dsimp only at h
  split at h
  · rename_i hnil
    rw [← Except.ok.inj h, hdisp, if_pos hnil, Nat.add_zero]
  · rename_i hne
    split at h
    · cases h
    · rw [← Except.ok.inj h, length_contentDispositionValue, hdisp, if_neg hne]

theorem length_of_validateContentID {id : Bytes} (h : validateContentID L id = .ok ()) :
    id.length ≤ 250 := by
  unfold validateContentID at h
  split at h
  · cases h
  · rename_i hlength
    omega

end Fields

/-! ## Parts -/

section Parts
variable {L : Libraries} {n : Nat}

/-- The fields of a header, a line each. -/
theorem longestLine_fields {fields : List (Bytes × Bytes)}
    (h : ∀ f ∈ fields, Unbroken f.1 ∧ Unbroken f.2) {rest : Bytes} :
    longestLine ((fields.flatMap fun f => f.1 ++ lit ": " ++ f.2 ++ lit "\r\n") ++ rest) ≤ n ↔
      (∀ f ∈ fields, f.1.length + 2 + f.2.length ≤ n) ∧ longestLine rest ≤ n := by
  have hbreak : lit "\r\n" = [13, 10] := by decide
  have hcolon : (lit ": ").length = 2 ∧ Unbroken (lit ": ") := by decide
  induction fields with
  | nil => simp
  | cons f fields ih =>
    obtain ⟨⟨hname, hvalue⟩, hfields⟩ := List.forall_mem_cons.mp h
    have hline : Unbroken (f.1 ++ lit ": " ++ f.2) := by
      rw [unbroken_append, unbroken_append]
      exact ⟨⟨hname, hcolon.2⟩, hvalue⟩
    specialize ih hfields
    rw [hbreak] at ih ⊢
    rw [List.flatMap_cons, List.append_assoc, List.append_assoc, List.cons_append,
      List.cons_append, List.nil_append, longestLine_crlf_le_iff,
      longestLine_le_iff_of_unbroken hline, List.forall_mem_cons, List.length_append,
      List.length_append, hcolon.1, and_assoc]
    exact and_congr_right fun _ => ih

/-- A part: its fields, and its body. -/
theorem longestLine_part {p : Part} (h : PartFields p.header) :
    longestLine p.text ≤ n ↔
      (∀ f ∈ p.header.entries, f.1.length + 2 + f.2.length ≤ n) ∧ longestLine p.body ≤ n := by
  have hbreak : lit "\r\n" = [13, 10] := by decide
  have hnames : ∀ k ∈ partNames, Unbroken k := by decide
  have hfields : ∀ f ∈ p.header.sorted, Unbroken f.1 ∧ Unbroken f.2 := by
    intro f hf
    obtain ⟨hname, hvalue⟩ := h f (MIMEHeader.mem_sorted.mp hf)
    exact ⟨hnames _ hname, hvalue⟩
  rw [Part.text, List.append_assoc, longestLine_fields hfields, hbreak, List.cons_append,
    List.cons_append, List.nil_append, longestLine_blank_le_iff]
  simp only [MIMEHeader.mem_sorted]

theorem longestLine_intercalate (texts : List Bytes) :
    longestLine (List.intercalate [13, 10] texts) ≤ n ↔ ∀ t ∈ texts, longestLine t ≤ n := by
  induction texts with
  | nil =>
    rw [List.intercalate_nil, longestLine_nil]
    exact iff_of_true (Nat.zero_le n) (List.forall_mem_nil _)
  | cons t texts ih =>
    cases texts with
    | nil => rw [List.intercalate_singleton, List.forall_mem_singleton]
    | cons t' texts =>
      rw [List.intercalate_cons_cons, List.append_assoc, List.cons_append, List.cons_append,
        List.nil_append, longestLine_crlf_le_iff, ih, List.forall_mem_cons (a := t)]

/-- The boundary is a short line. -/
theorem generateBoundary_short {random : Bytes} (h : random.length ≤ 16) :
    Unbroken (generateBoundary random) ∧ (generateBoundary random).length ≤ 100 := by
  have hlit : Unbroken (lit "sigillum-") ∧ (lit "sigillum-").length = 9 := by decide
  have hrandom : Unbroken (rawURLEncoding.encode random) :=
    unbroken_of_isText (Encoding.isText_encode (by decide) (by decide) random)
  have hlen := length_encode_le rawURLEncoding random
  rw [generateBoundary, unbroken_append, List.length_append, hlit.2]
  exact ⟨⟨hlit.1, hrandom⟩, by omega⟩

/-- **The lines of a multipart body** are those of its parts, and short ones. -/
theorem longestLine_multipartBody {random : Bytes} (h : random.length ≤ 16) (ps : List Part) :
    longestLine (multipartBody (generateBoundary random) ps) ≤ maxHeaderLine ↔
      ∀ p ∈ ps, longestLine p.text ≤ maxHeaderLine := by
  obtain ⟨hunbroken, hlength⟩ := generateBoundary_short h
  have hdashes : Unbroken (lit "--") ∧ (lit "--").length = 2 := by decide
  have hmax : maxHeaderLine = 998 := rfl
  have hopen : Unbroken (lit "--" ++ generateBoundary random) ∧
      (lit "--" ++ generateBoundary random).length ≤ maxHeaderLine := by
    rw [unbroken_append, List.length_append, hdashes.2]
    exact ⟨⟨hdashes.1, hunbroken⟩, by omega⟩
  have hclose : Unbroken (lit "--" ++ generateBoundary random ++ lit "--") ∧
      (lit "--" ++ generateBoundary random ++ lit "--").length ≤ maxHeaderLine := by
    rw [unbroken_append, unbroken_append, List.length_append, List.length_append, hdashes.2]
    exact ⟨⟨⟨hdashes.1, hunbroken⟩, hdashes.1⟩, by omega⟩
  have hwrite : ∀ p : Part, longestLine (p.write (generateBoundary random)) ≤ maxHeaderLine ↔
      longestLine p.text ≤ maxHeaderLine := by
    intro p
    have htext : p.write (generateBoundary random) =
        lit "--" ++ generateBoundary random ++ 13 :: 10 :: p.text := by
      rw [Part.write_eq, List.append_assoc]
      rfl
    rw [htext, longestLine_crlf_le_iff, longestLine_le_iff_of_unbroken hopen.1]
    exact and_iff_right hopen.2
  have hbody : multipartBody (generateBoundary random) ps =
      List.intercalate [13, 10] (ps.map (Part.write (generateBoundary random))) ++
        13 :: 10 :: (lit "--" ++ generateBoundary random ++ lit "--" ++ 13 :: 10 :: []) := by
    have hend : lit "\r\n--" = [13, 10] ++ lit "--" ∧ lit "--\r\n" = lit "--" ++ [13, 10] ∧
        lit "\r\n" = [13, 10] := by decide
    rw [multipartBody, hend.1, hend.2.1, hend.2.2]
    simp
  rw [hbody, longestLine_crlf_le_iff, longestLine_crlf_le_iff, longestLine_nil,
    longestLine_le_iff_of_unbroken hclose.1, longestLine_intercalate, List.forall_mem_map,
    and_iff_left ⟨hclose.2, Nat.zero_le _⟩]
  exact forall₂_congr fun p _ => hwrite p

theorem longestLine_writeQuotedPrintable (s : Bytes) :
    longestLine (writeQuotedPrintable s) ≤ maxHeaderLine :=
  longest_le_iff.mpr fun l hl => (lines_writeQuotedPrintable s l hl).1.trans (by decide)

/-- A part with the content type in its header only. -/
theorem longestLine_entity {contentType raw : Bytes} (h : Unbroken contentType)
    (hlength : contentType.length ≤ 200) :
    longestLine (Part.text ⟨MIMEHeader.empty.set (lit "Content-Type") contentType, raw⟩) ≤
        maxHeaderLine ↔ longestLine raw ≤ maxHeaderLine := by
  have hkey : canonicalKey (lit "Content-Type") ∈ partNames ∧
      (canonicalKey (lit "Content-Type")).length = 12 := by decide
  have hmax : maxHeaderLine = 998 := rfl
  rw [longestLine_part (partFields_empty.set hkey.1 h)]
  refine and_iff_right fun f hf => ?_
  rcases MIMEHeader.mem_set.mp hf with ⟨hempty, -⟩ | rfl
  · exact absurd hempty List.not_mem_nil
  · dsimp only
    rw [hkey.2]
    omega

theorem longestLine_quotedPart {contentType : Bytes} (h : Unbroken contentType)
    (hlength : contentType.length ≤ 200) (s : Bytes) :
    longestLine (quotedPart contentType s).text ≤ maxHeaderLine := by
  have hkeys : canonicalKey (lit "Content-Type") ∈ partNames ∧
      canonicalKey (lit "Content-Transfer-Encoding") ∈ partNames ∧
      (canonicalKey (lit "Content-Type")).length = 12 := by decide
  have hencoding : Unbroken (lit "quoted-printable") ∧
      (canonicalKey (lit "Content-Transfer-Encoding")).length + 2 +
        (lit "quoted-printable").length ≤ maxHeaderLine := by decide
  have hmax : maxHeaderLine = 998 := rfl
  have hfields := (partFields_empty.set hkeys.1 h).set hkeys.2.1 hencoding.1
  refine (longestLine_part hfields).mpr ⟨fun f hf => ?_, longestLine_writeQuotedPrintable s⟩
  rcases MIMEHeader.mem_set.mp hf with ⟨hf, -⟩ | rfl
  · rcases MIMEHeader.mem_set.mp hf with ⟨hempty, -⟩ | rfl
    · exact absurd hempty List.not_mem_nil
    · dsimp only
      rw [hkeys.2.2]
      omega
  · exact hencoding.2

/-- **The lines of an attachment** keep to the limit if two of its fields do. -/
theorem longestLine_attachment {a : Attachment} {p : Part} (hformat : L.FormatsUnbroken)
    (h : writeAttachment L a = .ok p) : longestLine p.text ≤ maxHeaderLine ↔ HeaderFits L a := by
  obtain ⟨hbody, ct, disposition, hct, hdisposition, hid, hentries⟩ := writeAttachment_sets h
  have hlines : longestLine p.body ≤ maxHeaderLine := by
    rw [hbody, longestLine, longest_le_iff]
    exact fun l hl => (lines_le a.content l hl).trans (by decide)
  have hkeys : (canonicalKey (lit "Content-Type")).length = 12 ∧
      (canonicalKey (lit "Content-Disposition")).length = 19 ∧
      (canonicalKey (lit "Content-ID")).length = 10 ∧ (lit "<").length = 1 ∧
      (lit ">").length = 1 := by decide
  have hencoding : (canonicalKey (lit "Content-Transfer-Encoding")).length + 2 +
      (lit "base64").length ≤ maxHeaderLine := by decide
  have hmax : maxHeaderLine = 998 := rfl
  -- the other fields are short: the content ID has been validated, the encoding is fixed
  have hcid : a.contentID ≠ [] → (canonicalKey (lit "Content-ID")).length + 2 +
      (lit "<" ++ a.contentID ++ lit ">").length ≤ maxHeaderLine := by
    intro hne
    have hle := length_of_validateContentID (hid hne)
    rw [List.length_append, List.length_append, hkeys.2.2.1, hkeys.2.2.2.1, hkeys.2.2.2.2]
    omega
  have hfields : (∀ f ∈ p.header.entries, f.1.length + 2 + f.2.length ≤ maxHeaderLine) ↔
      ∀ f ∈ attachmentFields ct disposition a.contentID,
        (canonicalKey f.1).length + 2 + f.2.length ≤ maxHeaderLine := by
    simp only [hentries, List.forall_mem_map]
  rw [longestLine_part (partFields_writeAttachment hformat h), and_iff_left hlines, hfields,
    forall_attachmentFields]
  dsimp only
  rw [hkeys.1, hkeys.2.1, length_sanitizeContentType hct, length_contentDisposition hdisposition]
  constructor
  · rintro ⟨htype, hdisp, -⟩
    exact ⟨htype, hdisp⟩
  · rintro ⟨htype, hdisp⟩
    exact ⟨htype, hdisp, hcid, hencoding⟩

theorem longestLine_attachments {as : List Attachment} {ps : List Part}
    (hformat : L.FormatsUnbroken) (h : as.mapM (writeAttachment L) = .ok ps) :
    (∀ p ∈ ps, longestLine p.text ≤ maxHeaderLine) ↔ ∀ a ∈ as, HeaderFits L a := by
  induction as generalizing ps with
  | nil =>
    obtain rfl := Except.ok.inj h
    exact iff_of_true (List.forall_mem_nil _) (List.forall_mem_nil _)
  | cons a as ih =>
    rw [List.mapM_cons, bind_eq_ok] at h
    obtain ⟨p, hp, h⟩ := h
    obtain ⟨ps', hps, h⟩ := bind_eq_ok.mp h
    obtain rfl := Except.ok.inj h
    rw [List.forall_mem_cons, List.forall_mem_cons, longestLine_attachment hformat hp, ih hps]

end Parts

/-! ## Bodies -/

section Bodies
variable {L : Libraries} {e : Entropy} {b : Body} {related : List Attachment} {raw : Bytes}
  {contentType : Bytes}

/-- The content type of a body with parts. -/
theorem boundary_short {start random : Bytes} (hstart : Unbroken start ∧ start.length ≤ 99)
    (h : random.length ≤ 16) :
    Unbroken (start ++ generateBoundary random ++ lit "\"") ∧
      (start ++ generateBoundary random ++ lit "\"").length ≤ 200 := by
  have hquote : (lit "\"").length = 1 := by decide
  have hlength := (generateBoundary_short h).2
  refine ⟨unbroken_boundary hstart.1 random, ?_⟩
  rw [List.length_append, List.length_append, hquote]
  omega

theorem longestLine_buildRelated {html : Bytes} (hformat : L.FormatsUnbroken) (he : e.Sized)
    (h : buildRelated L e html related = .ok (raw, contentType)) :
    (longestLine raw ≤ maxHeaderLine ↔ ∀ a ∈ related, HeaderFits L a) ∧
      Unbroken contentType ∧ contentType.length ≤ 200 := by
  obtain ⟨parts, hparts, h⟩ := bind_eq_ok.mp h
  obtain ⟨rfl, rfl⟩ := Prod.mk.inj (Except.ok.inj h)
  refine ⟨?_, boundary_short (by decide) he.related⟩
  rw [longestLine_multipartBody he.related, List.forall_mem_cons,
    longestLine_attachments hformat hparts]
  exact and_iff_right (longestLine_quotedPart (by decide) (by decide) html)

theorem longestLine_htmlPart {ps : List Part} (hformat : L.FormatsUnbroken) (he : e.Sized)
    (hrelated : ∀ a ∈ related, b.hasHTML = true) (h : htmlPart L e b related = .ok ps) :
    (∀ p ∈ ps, longestLine p.text ≤ maxHeaderLine) ↔ ∀ a ∈ related, HeaderFits L a := by
  unfold htmlPart at h
  split at h
  · -- without HTML nothing is related to it
    rename_i hnone
    obtain rfl := Except.ok.inj h
    refine iff_of_true (List.forall_mem_nil _) fun a ha => ?_
    rw [hrelated a ha] at hnone
    cases hnone
  · split at h
    · rename_i hempty
      obtain rfl := Except.ok.inj h
      rw [List.length_eq_zero_iff.mp hempty, List.forall_mem_singleton]
      exact iff_of_true (longestLine_quotedPart (by decide) (by decide) b.html)
        (List.forall_mem_nil _)
    · obtain ⟨⟨raw, contentType⟩, hbuild, h⟩ := bind_eq_ok.mp h
      obtain rfl := Except.ok.inj h
      obtain ⟨hraw, hunbroken, hlength⟩ := longestLine_buildRelated hformat he hbuild
      rw [List.forall_mem_singleton, longestLine_entity hunbroken hlength, hraw]

theorem longestLine_buildAlternative (hformat : L.FormatsUnbroken) (he : e.Sized)
    (hrelated : ∀ a ∈ related, b.hasHTML = true)
    (h : buildAlternative L e b related = .ok (raw, contentType)) :
    (longestLine raw ≤ maxHeaderLine ↔ ∀ a ∈ related, HeaderFits L a) ∧
      Unbroken contentType ∧ contentType.length ≤ 200 := by
  obtain ⟨html, hhtml, h⟩ := bind_eq_ok.mp h
  obtain ⟨rfl, rfl⟩ := Prod.mk.inj (Except.ok.inj h)
  refine ⟨?_, boundary_short (by decide) he.alternative⟩
  rw [longestLine_multipartBody he.alternative, List.forall_mem_append,
    longestLine_htmlPart hformat he hrelated hhtml]
  refine and_iff_right ?_
  split
  · exact List.forall_mem_singleton.mpr (longestLine_quotedPart (by decide) (by decide) b.text)
  · exact List.forall_mem_nil _

theorem longestLine_writeAlternative {hdr hdr' : MIMEHeader} (hformat : L.FormatsUnbroken)
    (he : e.Sized) (hrelated : ∀ a ∈ related, b.hasHTML = true)
    (h : writeAlternative L e hdr b related = .ok (hdr', raw)) :
    longestLine raw ≤ maxHeaderLine ↔ ∀ a ∈ related, HeaderFits L a := by
  unfold writeAlternative at h
  split at h
  · obtain ⟨⟨raw', contentType⟩, hbuild, h⟩ := bind_eq_ok.mp h
    rw [← (Prod.mk.inj (Except.ok.inj h)).2]
    exact (longestLine_buildAlternative hformat he hrelated hbuild).1
  · split at h
    · obtain ⟨⟨raw', contentType⟩, hbuild, h⟩ := bind_eq_ok.mp h
      rw [← (Prod.mk.inj (Except.ok.inj h)).2]
      exact (longestLine_buildRelated hformat he hbuild).1
    · -- one body alone, with nothing related to it
      rename_i hnone
      have hempty : related = [] := by
        rw [List.eq_nil_iff_forall_not_mem]
        exact fun a ha => hnone ⟨hrelated a ha, List.length_pos_of_mem ha⟩
      rw [hempty]
      refine iff_of_true ?_ (List.forall_mem_nil _)
      split at h
      · rw [← (Prod.mk.inj (Except.ok.inj h)).2]
        exact longestLine_writeQuotedPrintable b.html
      · rw [← (Prod.mk.inj (Except.ok.inj h)).2]
        exact longestLine_writeQuotedPrintable b.text

theorem longestLine_bodyPart {ps : List Part} (hformat : L.FormatsUnbroken) (he : e.Sized)
    (hrelated : ∀ a ∈ related, b.hasHTML = true) (h : bodyPart L e b related = .ok ps) :
    (∀ p ∈ ps, longestLine p.text ≤ maxHeaderLine) ↔ ∀ a ∈ related, HeaderFits L a := by
  unfold bodyPart at h
  split at h
  · obtain ⟨⟨raw, contentType⟩, hbuild, h⟩ := bind_eq_ok.mp h
    obtain rfl := Except.ok.inj h
    obtain ⟨hraw, hunbroken, hlength⟩ := longestLine_buildAlternative hformat he hrelated hbuild
    rw [List.forall_mem_singleton, longestLine_entity hunbroken hlength, hraw]
  · rename_i hnone
    obtain rfl := Except.ok.inj h
    refine iff_of_true (List.forall_mem_nil _) fun a ha => ?_
    rw [hrelated a ha, Bool.or_true] at hnone
    exact absurd rfl hnone

/-- **The lines of a body.**  Every attachment is in it, as a part of the message or
related to its HTML. -/
theorem longestLine_assembleBody {msg : Message} {hdr hdr' : MIMEHeader} {body : Bytes}
    (hformat : L.FormatsUnbroken) (he : e.Sized)
    (h : assembleBody L e hdr msg = .ok (hdr', body)) :
    longestLine body ≤ maxHeaderLine ↔ ∀ a ∈ msg.attachments, HeaderFits L a := by
  unfold assembleBody at h
  extract_lets isRelated related regular boundary hdr₁ at h
  have hrelated : ∀ a ∈ msg.attachments.filter isRelated, msg.body.hasHTML = true := by
    intro a ha
    have hkept := (List.mem_filter.mp ha).2
    simp only [isRelated, Bool.and_eq_true] at hkept
    exact hkept.1.1
  have hsplit : (∀ a ∈ msg.attachments, HeaderFits L a) ↔
      (∀ a ∈ msg.attachments.filter isRelated, HeaderFits L a) ∧
        ∀ a ∈ msg.attachments.filter fun a => !isRelated a, HeaderFits L a := by
    simp only [List.mem_filter]
    constructor
    · exact fun h => ⟨fun a ha => h a ha.1, fun a ha => h a ha.1⟩
    · rintro ⟨hin, hout⟩ a ha
      cases hcase : isRelated a with
      | true => exact hin a ⟨ha, hcase⟩
      | false => exact hout a ⟨ha, by rw [hcase]; rfl⟩
  rw [hsplit]
  split at h
  · -- no attachment is a part of the message itself
    rename_i hregular
    have hempty : msg.attachments.filter (fun a => !isRelated a) = [] :=
      List.length_eq_zero_iff.mp hregular
    rw [hempty, and_iff_left (List.forall_mem_nil _)]
    split at h
    · rename_i hblank
      rw [← (Prod.mk.inj (Except.ok.inj h)).2]
      refine iff_of_true (longestLine_nil ▸ Nat.zero_le _) fun a ha => ?_
      rw [hrelated a ha, Bool.not_true, Bool.and_false] at hblank
      cases hblank
    · exact longestLine_writeAlternative hformat he hrelated h
  · obtain ⟨first, hfirst, h⟩ := bind_eq_ok.mp h
    obtain ⟨parts, hparts, h⟩ := bind_eq_ok.mp h
    rw [← (Prod.mk.inj (Except.ok.inj h)).2, longestLine_multipartBody he.mixed,
      List.forall_mem_append, longestLine_bodyPart hformat he hrelated hfirst,
      longestLine_attachments hformat hparts]

/-- A body is short, or its last line is empty. -/
theorem Composed.ends {msg : Message} {body : Bytes} (h : Composed msg body) :
    longestLine body ≤ maxHeaderLine ∨ [13, 10] <:+ body := by
  cases h with
  | empty => exact .inl (longestLine_nil ▸ Nat.zero_le _)
  | text => exact .inl (longestLine_writeQuotedPrintable _)
  | html => exact .inl (longestLine_writeQuotedPrintable _)
  | attachment a ha =>
    refine .inl (longest_le_iff.mpr fun l hl => ?_)
    exact (lines_le a.content l hl).trans (by decide)
  | parts random ps hclean hparts =>
    have hend : lit "--\r\n" = lit "--" ++ [13, 10] := by decide
    rw [multipartBody, hend, ← List.append_assoc]
    exact .inr (List.suffix_append _ _)

end Bodies

/-! ## Messages -/

section Messages
variable {L : Libraries} {e : Entropy} {msg : Message} {heloDomain out id : Bytes}

/-- The header is checked, so that the body decides. -/
theorem longestLine_sentText {hdr : MIMEHeader} {body : Bytes} (h : Foldable hdr) :
    longestLine (sentText hdr body) ≤ maxHeaderLine ↔ longestLine body ≤ maxHeaderLine := by
  have hlines : ∀ fields : List (Bytes × Bytes),
      (∀ f ∈ fields, longestLine (foldHeaderLine f.1 f.2) ≤ maxHeaderLine) → ∀ rest,
      (longestLine ((fields.map fun f => foldHeaderLine f.1 f.2).flatten ++ rest) ≤
        maxHeaderLine ↔ longestLine rest ≤ maxHeaderLine) := by
    intro fields hfields rest
    induction fields with
    | nil => rfl
    | cons f fields ih =>
      obtain ⟨hf, hfields⟩ := List.forall_mem_cons.mp hfields
      rw [List.map_cons, List.flatten_cons, List.append_assoc,
        longestLine_append_le_iff (crlf_suffix_foldHeaderLine f.1 f.2), ih hfields]
      exact and_iff_right hf
  have hbreak : lit "\r\n" = [13, 10] := by decide
  rw [sentText, List.append_assoc, hlines _ fun f hf => h f (MIMEHeader.mem_sorted.mp hf), hbreak]
  exact longestLine_blank_le_iff

/-- What is sent, whichever ID the message has. -/
theorem assembleMessage_sent (h : assembleMessage L e msg heloDomain = .ok (out, id)) :
    ∃ custom hdr body, assembleBody L e custom msg = .ok (hdr, body) ∧ Foldable hdr ∧
      out = sentText hdr body := by
  unfold assembleMessage at h
  split at h
  · cases h
  · split at h
    · cases h
    · obtain ⟨custom, -, h⟩ := bind_eq_ok.mp h
      obtain ⟨⟨hdr, body⟩, hbody, h⟩ := bind_eq_ok.mp h
      obtain ⟨lines, hlines, h⟩ := bind_eq_ok.mp h
      obtain ⟨rfl, -⟩ := Prod.mk.inj (Except.ok.inj h)
      refine ⟨custom, hdr, body, hbody, exists_mapM_writeField_iff.mp ⟨lines, hlines⟩, ?_⟩
      rw [sentText, mapM_writeField_eq_ok hlines]

theorem longestLine_assembled (hformat : L.FormatsUnbroken) (he : e.Sized)
    (h : assembleMessage L e msg heloDomain = .ok (out, id)) :
    longestLine out ≤ maxHeaderLine ↔ ∀ a ∈ msg.attachments, HeaderFits L a := by
  obtain ⟨custom, hdr, body, hbody, hfold, rfl⟩ := assembleMessage_sent h
  rw [longestLine_sentText hfold, longestLine_assembleBody hformat he hbody]

/-- What is left behind the last CRLF is short. -/
theorem terminated_le_iff (hformat : L.FormatsUnbroken)
    (h : assembleMessage L e msg heloDomain = .ok (out, id)) :
    (∀ l ∈ (splitLines out).dropLast, l.length ≤ maxHeaderLine) ↔
      longestLine out ≤ maxHeaderLine := by
  obtain ⟨custom, hdr, body, hbody, hfold, rfl⟩ := assembleMessage_sent h
  rcases (composed_assembleBody hformat hbody).ends with hshort | hends
  · have hlongest := (longestLine_sentText hfold).mpr hshort
    have hall := longest_le_iff.mp hlongest
    exact iff_of_true (fun l hl => hall l (List.mem_of_mem_dropLast hl)) hlongest
  · -- then nothing is left behind the last CRLF
    exact forall_dropLast_splitLines (hends.trans (List.suffix_append _ _))

end Messages

/-- **When the lines of a message keep to the limit.**  For any message that is assembled,
every line that ends in CRLF has at most 998 octets exactly if for each attachment the
content type and the content disposition do, with their names. -/
theorem line_limit_iff (L : Libraries) (e : Entropy) (msg : Message) (heloDomain out id : Bytes)
    (hformat : L.FormatsUnbroken) (he : e.Sized)
    (h : assembleMessage L e msg heloDomain = .ok (out, id)) :
    (∀ l ∈ (splitLines out).dropLast, l.length ≤ maxHeaderLine) ↔
      ∀ a ∈ msg.attachments, HeaderFits L a := by
  rw [terminated_le_iff hformat h, longestLine_assembled hformat he h]

/-! Requests that differ in the name of an attachment. -/

theorem exists_assembled (filename : Bytes) (h : (assembleMessage .plain sampleEntropy
    (attachmentMessage filename) []).toOption.isSome = true) :
    ∃ out id, assembleMessage .plain sampleEntropy (attachmentMessage filename) [] =
      .ok (out, id) := by
  cases hout : assembleMessage .plain sampleEntropy (attachmentMessage filename) [] with
  | error err =>
    rw [hout] at h
    cases h
  | ok sent => exact ⟨sent.1, sent.2, rfl⟩

theorem sized_sampleEntropy : sampleEntropy.Sized := ⟨by decide, by decide, by decide, by decide⟩

/-- A name outside ASCII, which is written twice. -/
theorem line_limit_iff_named :
    ∃ out id, assembleMessage .plain sampleEntropy (attachmentMessage (lit "år \".txt")) [] =
        .ok (out, id) ∧
      ∀ l ∈ (splitLines out).dropLast, l.length ≤ maxHeaderLine := by
  obtain ⟨out, id, hout⟩ := exists_assembled (lit "år \".txt") (by decide +kernel)
  refine ⟨out, id, hout, (line_limit_iff .plain sampleEntropy _ [] out id formatsUnbroken_plain
    sized_sampleEntropy hout).mpr ?_⟩
  exact List.forall_mem_singleton.mpr ⟨by decide +kernel, by decide +kernel⟩

/-- A file name of a thousand letters. -/
def longName : Bytes := List.replicate 1000 97

/-- It passes all checks, and the header of its part is too long for a line. -/
theorem longName_overlong :
    handleSendMessage .plain (sampleDecoders (attachmentJSON longName) (attachmentPayload longName))
        ⟨lit "billing", lit "app"⟩ (lit "1f") (.json (attachmentJSON longName)) =
          .ok (attachmentRequest longName) ∧
      ∃ out id, assembleMessage .plain sampleEntropy (attachmentMessage longName) [] =
          .ok (out, id) ∧
        ∃ l ∈ (splitLines out).dropLast, maxHeaderLine < l.length := by
  refine ⟨by decide +kernel, ?_⟩
  obtain ⟨out, id, hout⟩ := exists_assembled longName (by decide +kernel)
  refine ⟨out, id, hout, ?_⟩
  by_contra hnone
  have hfits := (longestLine_assembled formatsUnbroken_plain sized_sampleEntropy hout).mp
    ((terminated_le_iff formatsUnbroken_plain hout).mp fun l hl =>
      Nat.le_of_not_lt fun hlong => hnone ⟨l, hl, hlong⟩)
  exact absurd (hfits _ List.mem_cons_self).disposition (by decide +kernel)

end Sigillum

import Sigillum.AssembledHeader
import Sigillum.Requests

/-! # What can be injected into a message

The bytes `AssembleMessage` returns, cut at CRLF as a reader cuts them.  Whatever the
caller puts into a subject, a display name, a header, a file name or a content type, the
header has the fields the function writes and no others, each once, and so has the header
of every part (`assembled_uninjected`).

A field is written as a block of lines, the first with the name in front and the others
with a space; `fieldNames_blocks` reads the names back from the lines of such blocks.
-/
namespace Sigillum
open Runes Bytes HeaderBlock WordEncoder

/-! ## Headers as they are read -/

/-- The lines of a text up to the first empty one. -/
def wireLines (text : Bytes) : List Bytes := (splitLines text).takeWhile fun l => l != []

/-- Whether a line continues the field of the line before it. -/
def continuesField (line : Bytes) : Bool := line.head? == some 32

/-- The names of the fields of a header: what stands before the colon of a line that starts
one. -/
def fieldNames (text : Bytes) : List Bytes :=
  ((wireLines text).filter fun l => !continuesField l).map fun l => l.takeWhile (· != 58)

/-- Lines that are one field: its name, and then lines that start with a space. -/
structure IsBlock (name : Bytes) (block : List Bytes) : Prop where
  isName : IsName name
  unbroken : ∀ l ∈ block, Unbroken l
  lines : ∃ first more, block = first :: more ∧ name ++ [58] <+: first ∧ ∀ l ∈ more, [32] <+: l

section Blocks
variable {name : Bytes} {block : List Bytes}

theorem IsBlock.ne_nil (h : IsBlock name block) : ∀ l ∈ block, l ≠ [] := by
  obtain ⟨first, more, rfl, ⟨t, rfl⟩, hmore⟩ := h.lines
  refine List.forall_mem_cons.mpr ⟨by simp, fun l hl => ?_⟩
  obtain ⟨t', rfl⟩ := hmore l hl
  simp

/-- The line with the name is the one that continues nothing. -/
theorem IsBlock.names (h : IsBlock name block) :
    (block.filter fun l => !continuesField l).map (fun l => l.takeWhile (· != 58)) = [name] := by
  obtain ⟨first, more, rfl, ⟨t, rfl⟩, hmore⟩ := h.lines
  have hcontinued : more.filter (fun l => !continuesField l) = [] := by
    rw [List.filter_eq_nil_iff]
    intro l hl
    obtain ⟨t', rfl⟩ := hmore l hl
    simp [continuesField]
  have hfirst : continuesField (name ++ [58] ++ t) = false := by
    obtain ⟨c, name', rfl⟩ := List.exists_cons_of_ne_nil h.isName.1
    have hbyte := (h.isName.2 c List.mem_cons_self).1.1
    have hne : c ≠ 32 := by
      rintro rfl
      exact absurd hbyte (by decide)
    simp [continuesField, hne]
  have hcolon : ∀ c ∈ name, (c != 58) = true := fun c hc => bne_iff_ne.mpr (h.isName.2 c hc).2
  rw [List.filter_cons, if_pos (by rw [hfirst]; rfl), hcontinued, List.map_singleton,
    List.append_assoc, List.takeWhile_append_of_pos hcolon]
  simp

theorem isBlock_fieldLines {value : Bytes} (hname : IsName name) (hvalue : Unbroken value) :
    IsBlock name (fieldLines name value) := by
  obtain ⟨first, more, heq, -, hfirst, hmore⟩ := fieldLines_eq name value
  exact ⟨hname, unbroken_fieldLines hname.unbroken hvalue, first, more, heq, hfirst, hmore⟩

theorem isBlock_line {value : Bytes} (hname : IsName name) (hvalue : Unbroken value) :
    IsBlock name [name ++ [58, 32] ++ value] := by
  refine ⟨hname, List.forall_mem_singleton.mpr ?_, _, [], rfl, ⟨32 :: value, by simp⟩, nofun⟩
  rw [unbroken_append, unbroken_append]
  exact ⟨⟨hname.unbroken, by decide⟩, hvalue⟩

variable {fields : List (Bytes × Bytes)} {lines : Bytes × Bytes → List Bytes}

/-- Fields, an empty line, and what comes behind it. -/
def blockText (fields : List (Bytes × Bytes)) (lines : Bytes × Bytes → List Bytes)
    (rest : Bytes) : Bytes :=
  (fields.flatMap lines).flatMap (· ++ [13, 10]) ++ 13 :: 10 :: rest

theorem splitLines_blocks (h : ∀ f ∈ fields, IsBlock f.1 (lines f)) (rest : Bytes) :
    splitLines (blockText fields lines rest) = fields.flatMap lines ++ [] :: splitLines rest := by
  have hunbroken : ∀ l ∈ fields.flatMap lines, Unbroken l := by
    intro l hl
    obtain ⟨f, hf, hl⟩ := List.mem_flatMap.mp hl
    exact (h f hf).unbroken l hl
  have hempty : Unbroken [] := nofun
  have hblank := splitLines_line hempty rest
  rw [List.nil_append] at hblank
  rw [blockText, splitLines_lines hunbroken, hblank]

theorem wireLines_blocks (h : ∀ f ∈ fields, IsBlock f.1 (lines f)) (rest : Bytes) :
    wireLines (blockText fields lines rest) = fields.flatMap lines := by
  have hne : ∀ l ∈ fields.flatMap lines, (l != []) = true := by
    intro l hl
    obtain ⟨f, hf, hl⟩ := List.mem_flatMap.mp hl
    exact bne_iff_ne.mpr ((h f hf).ne_nil l hl)
  rw [wireLines, splitLines_blocks h, List.takeWhile_append_of_pos hne]
  simp

/-- **The names read back** are those of the fields. -/
theorem fieldNames_blocks (h : ∀ f ∈ fields, IsBlock f.1 (lines f)) (rest : Bytes) :
    fieldNames (blockText fields lines rest) = fields.map Prod.fst := by
  rw [fieldNames, wireLines_blocks h]
  induction fields with
  | nil => rfl
  | cons f fields ih =>
    obtain ⟨hf, hfields⟩ := List.forall_mem_cons.mp h
    rw [List.flatMap_cons, List.filter_append, List.map_append, hf.names, ih hfields]
    rfl

/-- A header that is made of certain fields only: no line is broken, and each starts with the
name of a field or continues one with a space. -/
structure Clean (text : Bytes) : Prop where
  unbroken : ∀ l ∈ wireLines text, Unbroken l
  lines : ∀ l ∈ wireLines text, [32] <+: l ∨ ∃ name ∈ fieldNames text, name ++ [58] <+: l

theorem clean_blocks (h : ∀ f ∈ fields, IsBlock f.1 (lines f)) (rest : Bytes) :
    Clean (blockText fields lines rest) := by
  constructor
  · rw [wireLines_blocks h]
    intro l hl
    obtain ⟨f, hf, hl⟩ := List.mem_flatMap.mp hl
    exact (h f hf).unbroken l hl
  · rw [wireLines_blocks h, fieldNames_blocks h]
    intro l hl
    obtain ⟨f, hf, hl⟩ := List.mem_flatMap.mp hl
    obtain ⟨first, more, heq, hfirst, hmore⟩ := (h f hf).lines
    rw [heq] at hl
    rcases List.mem_cons.mp hl with rfl | hl
    · exact .inr ⟨f.1, List.mem_map_of_mem hf, hfirst⟩
    · exact .inl (hmore l hl)

end Blocks

/-! ## Parts -/

/-- The names of the fields a part may have. -/
def partNames : List Bytes :=
  [lit "Content-Type", lit "Content-Disposition", lit "Content-Id", lit "Content-Transfer-Encoding"]

/-- A part behind the line that delimits it: its header, an empty line and its body. -/
def Part.text (p : Part) : Bytes :=
  (p.header.sorted.flatMap fun f => f.1 ++ lit ": " ++ f.2 ++ lit "\r\n") ++ lit "\r\n" ++ p.body

theorem Part.write_eq (boundary : Bytes) (p : Part) :
    p.write boundary = lit "--" ++ boundary ++ lit "\r\n" ++ p.text := by
  simp [Part.write, Part.text]

/-- The header of a part: read back, it has some of these fields, each once. -/
structure PartClean (p : Part) : Prop where
  clean : Clean p.text
  names : ∀ n ∈ fieldNames p.text, n ∈ partNames
  once : (fieldNames p.text).Nodup

/-- What a body is made of: an encoded text or attachment, or parts with headers of their own,
which are made so again. -/
inductive Composed (msg : Message) : Bytes → Prop where
  | empty : Composed msg []
  | text : Composed msg (writeQuotedPrintable msg.body.text)
  | html : Composed msg (writeQuotedPrintable msg.body.html)
  | attachment (a : Attachment) (h : a ∈ msg.attachments) :
    Composed msg ((base64Writes a.content).flatMap lineBreakWrite)
  | parts (random : Bytes) (ps : List Part) (hclean : ∀ p ∈ ps, PartClean p)
    (h : ∀ p ∈ ps, Composed msg p.body) : Composed msg (multipartBody (generateBoundary random) ps)

/-- A media type and parameters that were parsed are formatted without line breaks. -/
def Libraries.FormatsUnbroken (L : Libraries) : Prop :=
  ∀ ct mt params, L.parseMediaType ct = .ok (mt, params) → ∀ kept, (∀ p ∈ kept, p ∈ params) →
    Unbroken (L.formatMediaType mt kept)

section Parts
variable {L : Libraries} {msg : Message}

/-- The fields of a part, each of one line. -/
def PartFields (hdr : MIMEHeader) : Prop := ∀ f ∈ hdr.entries, f.1 ∈ partNames ∧ Unbroken f.2

theorem PartFields.set {hdr : MIMEHeader} (h : PartFields hdr) {key value : Bytes}
    (hkey : canonicalKey key ∈ partNames) (hvalue : Unbroken value) :
    PartFields (hdr.set key value) := by
  intro f hf
  rcases MIMEHeader.mem_set.mp hf with ⟨hf, -⟩ | rfl
  · exact h f hf
  · exact ⟨hkey, hvalue⟩

theorem partFields_empty : PartFields .empty := nofun

theorem nodup_sorted (hdr : MIMEHeader) : (hdr.sorted.map Prod.fst).Nodup :=
  ((List.perm_insertionSort _ _).map Prod.fst).nodup_iff.mpr hdr.nodup

theorem PartFields.partClean {p : Part} (h : PartFields p.header) : PartClean p := by
  have hnames : ∀ n ∈ partNames, n ≠ [] ∧ ∀ c ∈ n, (33 ≤ c ∧ c ≤ 126) ∧ c ≠ 58 := by decide
  have hblocks : ∀ f ∈ p.header.sorted, IsBlock f.1 [f.1 ++ [58, 32] ++ f.2] := by
    intro f hf
    obtain ⟨hname, hvalue⟩ := h f (MIMEHeader.mem_sorted.mp hf)
    exact isBlock_line (hnames _ hname) hvalue
  have hcolon : lit ": " = [58, 32] := by decide
  have hcrlf : lit "\r\n" = [13, 10] := by decide
  have htext : p.text = blockText p.header.sorted (fun f => [f.1 ++ [58, 32] ++ f.2]) p.body := by
    rw [Part.text, blockText, hcolon, hcrlf, List.flatMap_assoc]
    simp
  have hfieldNames : fieldNames p.text = p.header.sorted.map Prod.fst := by
    rw [htext]
    exact fieldNames_blocks hblocks p.body
  refine ⟨?_, ?_, ?_⟩
  · rw [htext]
    exact clean_blocks hblocks p.body
  · rw [hfieldNames]
    intro n hn
    obtain ⟨f, hf, rfl⟩ := List.mem_map.mp hn
    exact (h f (MIMEHeader.mem_sorted.mp hf)).1
  · rw [hfieldNames]
    exact nodup_sorted p.header

theorem partClean_quotedPart {contentType : Bytes} (h : Unbroken contentType) (s : Bytes) :
    PartClean (quotedPart contentType s) :=
  PartFields.partClean ((partFields_empty.set (by decide) h).set (by decide) (by decide))

theorem partClean_entity {contentType : Bytes} (h : Unbroken contentType) (raw : Bytes) :
    PartClean ⟨MIMEHeader.empty.set (lit "Content-Type") contentType, raw⟩ :=
  PartFields.partClean (partFields_empty.set (by decide) h)

/-- The charset that is kept is one that was parsed. -/
theorem charset_mem {params : List (Bytes × Bytes)} {charset : Bytes} {text : Bool}
    (h : (if text then
      ((params.find? fun p => p.1 == lit "charset").map Prod.snd).getD [] else []) =
      charset) (hne : charset ≠ []) : (lit "charset", charset) ∈ params := by
  split at h
  · cases hfind : params.find? fun p => p.1 == lit "charset" with
    | none =>
      rw [hfind] at h
      exact absurd h.symm hne
    | some q =>
      rw [hfind] at h
      have hname : q.1 = lit "charset" := beq_iff_eq.mp (List.find?_some hfind :)
      rw [← h, ← hname]
      exact List.mem_of_find?_eq_some hfind
  · exact absurd h.symm hne

theorem unbroken_sanitizeContentType {ct out : Bytes} (hformat : L.FormatsUnbroken)
    (h : sanitizeContentType L ct = .ok out) : Unbroken out := by
  unfold sanitizeContentType at h
  split at h
  · rw [← Except.ok.inj h]
    decide
  · split at h
    · cases h
    · rename_i mt params hparse
      generalize hcharset : (if (lit "text/").isPrefixOf mt then _ else []) = charset at h
      dsimp only at h
      generalize hkept : (if charset = [] then [] else [(lit "charset", charset)]) = kept at h
      split at h
      · cases h
      · rw [← Except.ok.inj h]
        refine hformat ct mt params hparse kept fun p hp => ?_
        rw [← hkept] at hp
        split at hp
        · cases hp
        · rename_i hne
          rw [List.mem_singleton.mp hp]
          exact charset_mem hcharset hne

theorem unbroken_hexByte (c : UInt8) : Unbroken (hexByte c) :=
  unbroken_of_isText (isText_hexByte c)

theorem unbroken_flatMap {f : UInt8 → Bytes} {s : Bytes} (h : ∀ c ∈ s, Unbroken (f c)) :
    Unbroken (s.flatMap f) := by
  intro c hc
  obtain ⟨b, hb, hc⟩ := List.mem_flatMap.mp hc
  exact h b hb c hc

theorem unbroken_contentDispositionValue {disp : Bytes} (h : Unbroken disp) (filename : Bytes) :
    Unbroken (contentDispositionValue disp filename) := by
  have hfallback : Unbroken (asciiFilenameFallback filename) := by
    intro c hc
    obtain ⟨r, -, rfl⟩ := List.mem_map.mp hc
    have hprintable : ∀ r < 127, 32 ≤ r → UInt8.ofNat r ≠ 13 ∧ UInt8.ofNat r ≠ 10 := by decide
    split
    · exact hprintable r (by omega) (by omega)
    · decide
  have hescaped : ∀ c ∈ asciiFilenameFallback filename,
      Unbroken (if c = 92 ∨ c = 34 then [92, c] else [c]) := by
    intro c hc
    have hbyte := hfallback c hc
    split
    · exact List.forall_mem_cons.mpr ⟨by decide, List.forall_mem_singleton.mpr hbyte⟩
    · exact List.forall_mem_singleton.mpr hbyte
  have hencoded : Unbroken (rfc5987Encode filename) := by
    refine unbroken_flatMap fun c _ => ?_
    split
    · rename_i hplain
      refine List.forall_mem_singleton.mpr ⟨?_, ?_⟩
      · rintro rfl
        exact absurd hplain (by decide)
      · rintro rfl
        exact absurd hplain (by decide)
    · exact List.forall_mem_cons.mpr ⟨by decide, unbroken_hexByte c⟩
  rw [contentDispositionValue, unbroken_append, unbroken_append, unbroken_append, unbroken_append]
  refine ⟨⟨⟨⟨h, by decide⟩, unbroken_flatMap hescaped⟩, by decide⟩, ?_⟩
  split
  · nofun
  · rw [unbroken_append]
    exact ⟨by decide, hencoded⟩

theorem unbroken_contentDisposition {a : Attachment} {disposition : Bytes}
    (h : contentDisposition L a = .ok disposition) : Unbroken disposition := by
  have hdisp : Unbroken (if a.isInline L then lit "inline" else lit "attachment") := by
    split
    · decide
    · decide
  unfold contentDisposition at h
  dsimp only at h
  split at h
  · rw [← Except.ok.inj h]
    exact hdisp
  · split at h
    · cases h
    · rw [← Except.ok.inj h]
      exact unbroken_contentDispositionValue hdisp a.filename

theorem unbroken_of_isDotAtom {s : Bytes} (h : isDotAtom s = true) : Unbroken s := by
  unfold isDotAtom at h
  rw [Bool.and_eq_true] at h
  exact unbroken_of_forall (List.all_eq_true.mp h.2) (by decide) (by decide)

theorem unbroken_of_validateContentID {id : Bytes} (h : validateContentID L id = .ok ()) :
    Unbroken id := by
  unfold validateContentID at h
  split at h
  · cases h
  · dsimp only at h
    cases hcut : cut 64 id with
    | none =>
      rw [hcut] at h
      cases h
    | some p =>
      obtain ⟨left, right⟩ := p
      rw [hcut] at h
      dsimp only at h
      split at h
      · rename_i hatoms
        rw [Bool.and_eq_true] at hatoms
        have hat : Unbroken [64] := by decide
        rw [(cut_eq_some.mp hcut).1, ← List.singleton_append, unbroken_append, unbroken_append]
        exact ⟨unbroken_of_isDotAtom hatoms.1, hat, unbroken_of_isDotAtom hatoms.2⟩
      · cases h

/-- The header of an attachment has these fields, each of one line. -/
theorem partFields_writeAttachment {a : Attachment} {p : Part} (hformat : L.FormatsUnbroken)
    (h : writeAttachment L a = .ok p) : PartFields p.header := by
  obtain ⟨-, ct, disposition, hct, hdisposition, hid, hentries⟩ := writeAttachment_sets h
  have hkeys : ∀ k ∈ [lit "Content-Type", lit "Content-Disposition", lit "Content-ID",
      lit "Content-Transfer-Encoding"], canonicalKey k ∈ partNames := by decide
  simp only [List.forall_mem_cons] at hkeys
  obtain ⟨htype, hdisp, hcid, hencoding, -⟩ := hkeys
  have hfields : ∀ f ∈ attachmentFields ct disposition a.contentID,
      canonicalKey f.1 ∈ partNames ∧ Unbroken f.2 := by
    refine forall_attachmentFields.mpr ⟨⟨htype, unbroken_sanitizeContentType hformat hct⟩,
      ⟨hdisp, unbroken_contentDisposition hdisposition⟩, fun hne => ⟨hcid, ?_⟩,
      hencoding, by decide⟩
    rw [unbroken_append, unbroken_append]
    exact ⟨⟨by decide, unbroken_of_validateContentID (hid hne)⟩, by decide⟩
  intro f hf
  obtain ⟨f', hf', rfl⟩ := List.mem_map.mp ((hentries f).mp hf)
  exact hfields f' hf'

/-- A part that may be in the body of a message. -/
def GoodPart (msg : Message) (p : Part) : Prop := PartClean p ∧ Composed msg p.body

theorem composed_parts {random : Bytes} {ps : List Part} (h : ∀ p ∈ ps, GoodPart msg p) :
    Composed msg (multipartBody (generateBoundary random) ps) :=
  .parts random ps (fun p hp => (h p hp).1) fun p hp => (h p hp).2

theorem goodPart_attachments {keep : Attachment → Bool} {parts : List Part}
    (hformat : L.FormatsUnbroken)
    (h : (msg.attachments.filter keep).mapM (writeAttachment L) = .ok parts) :
    ∀ p ∈ parts, GoodPart msg p := by
  intro p hp
  obtain ⟨a, ha, hwrite⟩ := mem_of_mapM_eq_ok h p hp
  have hbody := (writeAttachment_sets hwrite).1
  exact ⟨(partFields_writeAttachment hformat hwrite).partClean,
    hbody ▸ .attachment a (List.mem_filter.mp ha).1⟩

theorem goodPart_text : GoodPart msg (quotedPart (lit "text/plain; charset=utf-8") msg.body.text) :=
  ⟨partClean_quotedPart (by decide) _, .text⟩

theorem goodPart_html : GoodPart msg (quotedPart (lit "text/html; charset=utf-8") msg.body.html) :=
  ⟨partClean_quotedPart (by decide) _, .html⟩

variable {e : Entropy} {raw contentType : Bytes} {keep : Attachment → Bool}

theorem composed_buildRelated (hformat : L.FormatsUnbroken)
    (h : buildRelated L e msg.body.html (msg.attachments.filter keep) = .ok (raw, contentType)) :
    Composed msg raw ∧ Unbroken contentType := by
  obtain ⟨parts, hparts, h⟩ := bind_eq_ok.mp h
  obtain ⟨rfl, rfl⟩ := Prod.mk.inj (Except.ok.inj h)
  refine ⟨composed_parts (List.forall_mem_cons.mpr ⟨goodPart_html, ?_⟩),
    unbroken_boundary (by decide) _⟩
  exact goodPart_attachments hformat hparts

theorem composed_buildAlternative (hformat : L.FormatsUnbroken)
    (h : buildAlternative L e msg.body (msg.attachments.filter keep) = .ok (raw, contentType)) :
    Composed msg raw ∧ Unbroken contentType := by
  obtain ⟨html, hhtml, h⟩ := bind_eq_ok.mp h
  obtain ⟨rfl, rfl⟩ := Prod.mk.inj (Except.ok.inj h)
  refine ⟨composed_parts (List.forall_mem_append.mpr ⟨?_, ?_⟩), unbroken_boundary (by decide) _⟩
  · split
    · exact List.forall_mem_singleton.mpr goodPart_text
    · nofun
  · unfold htmlPart at hhtml
    split at hhtml
    · rw [← Except.ok.inj hhtml]
      nofun
    · split at hhtml
      · rw [← Except.ok.inj hhtml]
        exact List.forall_mem_singleton.mpr goodPart_html
      · obtain ⟨⟨raw, contentType⟩, hbuild, hhtml⟩ := bind_eq_ok.mp hhtml
        obtain ⟨hcomposed, hunbroken⟩ := composed_buildRelated hformat hbuild
        rw [← Except.ok.inj hhtml]
        exact List.forall_mem_singleton.mpr ⟨partClean_entity hunbroken raw, hcomposed⟩

/-- **What a body is made of.** -/
theorem composed_assembleBody {hdr hdr' : MIMEHeader} {body : Bytes} (hformat : L.FormatsUnbroken)
    (h : assembleBody L e hdr msg = .ok (hdr', body)) : Composed msg body := by
  unfold assembleBody at h
  dsimp only at h
  split at h
  · split at h
    · rw [← (Prod.mk.inj (Except.ok.inj h)).2]
      exact .empty
    · unfold writeAlternative at h
      split at h
      · obtain ⟨⟨raw, contentType⟩, hbuild, h⟩ := bind_eq_ok.mp h
        rw [← (Prod.mk.inj (Except.ok.inj h)).2]
        exact (composed_buildAlternative hformat hbuild).1
      · split at h
        · obtain ⟨⟨raw, contentType⟩, hbuild, h⟩ := bind_eq_ok.mp h
          rw [← (Prod.mk.inj (Except.ok.inj h)).2]
          exact (composed_buildRelated hformat hbuild).1
        · split at h
          · rw [← (Prod.mk.inj (Except.ok.inj h)).2]
            exact .html
          · rw [← (Prod.mk.inj (Except.ok.inj h)).2]
            exact .text
  · obtain ⟨first, hfirst, h⟩ := bind_eq_ok.mp h
    obtain ⟨parts, hparts, h⟩ := bind_eq_ok.mp h
    rw [← (Prod.mk.inj (Except.ok.inj h)).2]
    refine composed_parts (List.forall_mem_append.mpr ⟨?_, goodPart_attachments hformat hparts⟩)
    unfold bodyPart at hfirst
    split at hfirst
    · obtain ⟨⟨raw, contentType⟩, hbuild, hfirst⟩ := bind_eq_ok.mp hfirst
      obtain ⟨hcomposed, hunbroken⟩ := composed_buildAlternative hformat hbuild
      rw [← Except.ok.inj hfirst]
      exact List.forall_mem_singleton.mpr ⟨partClean_entity hunbroken raw, hcomposed⟩
    · rw [← Except.ok.inj hfirst]
      nofun

end Parts

/-! ## The message -/

/-- How many fields of a header have a name, in any case. -/
def countField (text name : Bytes) : Nat :=
  (fieldNames text).countP fun n => asciiLower n == asciiLower name

/-- The fields every message has. -/
def requiredNames : List Bytes :=
  [lit "Date", lit "Message-Id", lit "From", lit "Mime-Version", lit "Content-Type"]

/-- The other fields the assembly sets. -/
def optionalNames : List Bytes :=
  [lit "To", lit "Cc", lit "Subject", lit "Content-Transfer-Encoding"]

/-- A message whose header is what the assembly makes of it, and whose parts are. -/
structure Uninjected (L : Libraries) (msg : Message) (out : Bytes) : Prop where
  clean : Clean out
  required : ∀ n ∈ requiredNames, countField out n = 1
  optional : ∀ n ∈ optionalNames, countField out n ≤ 1
  noBcc : countField out (lit "Bcc") = 0
  custom : ∀ kv ∈ msg.headers, isReservedHeader L kv.1 = false →
    (fieldNames out).count (canonicalKey kv.1) = 1
  others : ∀ n ∈ fieldNames out, n ∈ managedNames ∨
    ∃ kv ∈ msg.headers, isReservedHeader L kv.1 = false ∧ n = canonicalKey kv.1
  parts : ∃ body, splitLines out = wireLines out ++ [] :: splitLines body ∧ Composed msg body

section Sent
variable {L : Libraries} {e : Entropy} {msg : Message} {hdr : MIMEHeader} {body : Bytes}

theorem sentText_eq (hdr : MIMEHeader) (body : Bytes) :
    sentText hdr body = blockText hdr.sorted (fun f => fieldLines f.1 f.2) body := by
  have hcrlf : lit "\r\n" = [13, 10] := by decide
  have hlines : (hdr.sorted.map fun f => foldHeaderLine f.1 f.2).flatten =
      (hdr.sorted.flatMap fun f => fieldLines f.1 f.2).flatMap (· ++ [13, 10]) := by
    rw [← List.flatMap_def, List.flatMap_assoc]
    exact List.flatMap_congr fun f _ => foldHeaderLine_eq f.1 f.2
  rw [sentText, blockText, hlines, hcrlf, List.append_assoc]
  rfl

/-- For a name in canonical form, fields are counted by it. -/
theorem countP_sorted {name : Bytes} (htoken : name.all isTokenByte = true)
    (hname : canonicalFrom true name = name) :
    (hdr.sorted.map Prod.fst).countP (fun n => asciiLower n == asciiLower name) =
      (hdr.sorted.map Prod.fst).count name := by
  refine List.countP_congr fun n hn => ?_
  obtain ⟨f, hf, rfl⟩ := List.mem_map.mp hn
  have hcanonical := hdr.canonical f (MIMEHeader.mem_sorted.mp hf)
  rw [beq_iff_eq, beq_iff_eq, ← canonicalKey_eq_iff htoken hname, hcanonical]

theorem count_sorted_of_mem {name value : Bytes} (h : (name, value) ∈ hdr.entries) :
    (hdr.sorted.map Prod.fst).count name = 1 :=
  List.count_eq_one_of_mem (nodup_sorted hdr)
    (List.mem_map.mpr ⟨(name, value), MIMEHeader.mem_sorted.mpr h, rfl⟩)

theorem Headed.required (h : Headed L e msg hdr) :
    ∀ n ∈ requiredNames, ∃ v, (n, v) ∈ hdr.entries := by
  have hmanaged : ∀ k, (∃ v, (k, v) ∈ managedFields e msg.messageID msg) →
      ∃ v, (canonicalKey k, v) ∈ hdr.entries := by
    rintro k ⟨v, hv⟩
    exact ⟨v, h.managed _ hv⟩
  have hkeys : canonicalKey (lit "Date") = lit "Date" ∧
      canonicalKey (lit "Message-ID") = lit "Message-Id" ∧
      canonicalKey (lit "From") = lit "From" ∧
      canonicalKey (lit "MIME-Version") = lit "Mime-Version" := by decide
  have hdate := hmanaged (lit "Date") ⟨e.date, by simp [managedFields]⟩
  have hmessageID := hmanaged (lit "Message-ID") ⟨msg.messageID, by simp [managedFields]⟩
  have hfrom := hmanaged (lit "From") ⟨formatAddress msg.fromAddr, by simp [managedFields]⟩
  have hversion := hmanaged (lit "MIME-Version") ⟨lit "1.0", by simp [managedFields]⟩
  rw [hkeys.1] at hdate
  rw [hkeys.2.1] at hmessageID
  rw [hkeys.2.2.1] at hfrom
  rw [hkeys.2.2.2] at hversion
  unfold requiredNames
  simp only [List.forall_mem_cons]
  exact ⟨hdate, hmessageID, hfrom, hversion, h.contentType, List.forall_mem_nil _⟩

theorem Headed.bcc_notMem (h : Headed L e msg hdr) : ∀ f ∈ hdr.entries, f.1 ≠ lit "Bcc" := by
  have hbcc : lit "Bcc" ∉ managedNames ∧ (∀ c ∈ lit "Bcc", c < 0x80) ∧
      asciiLower (lit "Bcc") ∈ reservedHeaders := by decide
  intro f hf heq
  rcases h.name_cases hf with hname | ⟨kv, -, hfree, hname⟩
  · exact hbcc.1 (heq ▸ hname)
  · rw [heq] at hname
    rw [isReservedHeader, toLower_of_canonicalKey (hname ▸ hbcc.2.1), ← hname,
      List.contains_iff_mem.mpr hbcc.2.2] at hfree
    cases hfree

/-- **The header on the wire** is the one that was assembled. -/
theorem Headed.uninjected (h : Headed L e msg hdr) (hid : Unbroken msg.messageID)
    (hmsg : msg.WellAddressed) (hbody : Composed msg body) :
    Uninjected L msg (sentText hdr body) := by
  have hblocks : ∀ f ∈ hdr.sorted, IsBlock f.1 (fieldLines f.1 f.2) := by
    intro f hf
    obtain ⟨hname, hvalue⟩ := h.entry hid hmsg f (MIMEHeader.mem_sorted.mp hf)
    exact isBlock_fieldLines hname hvalue
  have hnames : fieldNames (sentText hdr body) = hdr.sorted.map Prod.fst := by
    rw [sentText_eq]
    exact fieldNames_blocks hblocks body
  have hcanonical : ∀ n ∈ requiredNames ++ optionalNames ++ [lit "Bcc"],
      n.all isTokenByte = true ∧ canonicalFrom true n = n := by decide
  have hcount : ∀ n ∈ requiredNames ++ optionalNames ++ [lit "Bcc"],
      countField (sentText hdr body) n = (hdr.sorted.map Prod.fst).count n := by
    intro n hn
    rw [countField, hnames, countP_sorted (hcanonical n hn).1 (hcanonical n hn).2]
  refine ⟨?_, fun n hn => ?_, fun n hn => ?_, ?_, fun kv hkv hfree => ?_, fun n hn => ?_,
    body, ?_, hbody⟩
  · rw [sentText_eq]
    exact clean_blocks hblocks body
  · obtain ⟨v, hv⟩ := h.required n hn
    rw [hcount n (by simp [hn])]
    exact count_sorted_of_mem hv
  · rw [hcount n (by simp [hn])]
    exact List.nodup_iff_count_le_one.mp (nodup_sorted hdr) n
  · rw [hcount (lit "Bcc") (by simp), List.count_eq_zero]
    intro hmem
    obtain ⟨f, hf, heq⟩ := List.mem_map.mp hmem
    exact h.bcc_notMem f (MIMEHeader.mem_sorted.mp hf) heq
  · obtain ⟨v, hv⟩ := h.custom kv hkv hfree
    rw [hnames]
    exact count_sorted_of_mem hv
  · rw [hnames] at hn
    obtain ⟨f, hf, rfl⟩ := List.mem_map.mp hn
    exact h.name_cases (MIMEHeader.mem_sorted.mp hf)
  · rw [sentText_eq, splitLines_blocks hblocks, wireLines_blocks hblocks]

end Sent

/-- **Assembled messages cannot be injected into.**  For a message with an ID of the REST
handler and with mailboxes for addresses, whatever else is in it: the header read from
what is assembled has the fields of the assembly and no others, the parts have theirs, and
blind copies matter only as recipients. -/
theorem assembled_uninjected (L : Libraries) (e : Entropy) (msg : Message)
    (msgID heloDomain out id : Bytes) (hformat : L.FormatsUnbroken)
    (haddresses : ∀ a ∈ msg.fromAddr :: (msg.toAddrs ++ msg.cc ++ msg.bcc),
      validateMailbox L.unicode a.address = none)
    (hmsgID : Unbroken msgID) (hid : msg.messageID = lit "<" ++ msgID ++ lit "@sigillum.local>")
    (h : assembleMessage L e msg heloDomain = .ok (out, id)) :
    Uninjected L msg out ∧
      ∀ bcc : List Address, msg.toAddrs.length + msg.cc.length + bcc.length ≠ 0 →
        assembleMessage L e { msg with bcc := bcc } heloDomain = .ok (out, id) := by
  have hwell : msg.WellAddressed :=
    { fromAddr := validateMailbox_spec (haddresses _ List.mem_cons_self)
      toAddrs := fun a ha => validateMailbox_spec (haddresses a (by simp [ha]))
      cc := fun a ha => validateMailbox_spec (haddresses a (by simp [ha])) }
  have hunbroken : Unbroken msg.messageID := by
    rw [hid, unbroken_append, unbroken_append]
    exact ⟨⟨by decide, hmsgID⟩, by decide⟩
  have hne : msg.messageID ≠ [] := by
    rw [hid]
    simp [lit]
  obtain ⟨hfrom, hrecipients, custom, hdr, body, hstages, rfl, -⟩ :=
    (assembleMessage_eq_ok_iff hne).mp h
  constructor
  · exact (headed_of_assembleBody hstages.headers hstages.described).uninjected hunbroken hwell
      (composed_assembleBody hformat hstages.described)
  · intro bcc hbcc
    rw [← h]
    unfold assembleMessage
    rw [if_neg hfrom, if_neg hfrom, if_neg hbcc, if_neg hrecipients]
    rfl

theorem formatsUnbroken_plain : Libraries.plain.FormatsUnbroken := by
  intro ct mt params hparse kept hkept
  obtain ⟨rfl, rfl, hbytes⟩ := parseMediaType_plain hparse
  obtain rfl : kept = [] := List.eq_nil_iff_forall_not_mem.mpr fun p hp => nomatch hkept p hp
  simp only [Libraries.plain, List.flatMap_nil, List.append_nil]
  exact unbroken_of_forall hbytes (by decide) (by decide)

/-- A subject and a display name with line breaks in them. -/
def smuggling : Message :=
  { sampleMessage [] with
    fromAddr := ⟨lit "A\r\nB", lit "app@billing.example"⟩
    bcc := [⟨[], lit "b@x.example"⟩]
    subject := lit "Hi\r\nBcc: eve@y.example" }

def smugglingSent : Bytes :=
  lit "Content-Transfer-Encoding: quoted-printable\r\nContent-Type: text/plain; charset=utf-8\r\n" ++
    lit "Date: Mon, 02 Jan 2006 15:04:05 +0000\r\n" ++
    lit "From: =?utf-8?b?QQ0KQg==?= <app@billing.example>\r\n" ++
    lit "Message-Id: <1f@sigillum.local>\r\nMime-Version: 1.0\r\n" ++
    lit "Subject: =?utf-8?q?Hi=0D=0ABcc:_eve@y.example?=\r\nTo: a@x.example\r\n\r\ntext"

theorem assembled_uninjected_smuggling :
    assembleMessage .plain sampleEntropy smuggling [] =
        .ok (smugglingSent, lit "<1f@sigillum.local>") ∧
      Uninjected .plain smuggling smugglingSent := by
  have hsent : assembleMessage .plain sampleEntropy smuggling [] =
      .ok (smugglingSent, lit "<1f@sigillum.local>") := by decide +kernel
  exact ⟨hsent, (assembled_uninjected .plain sampleEntropy smuggling (lit "1f") [] _ _
    formatsUnbroken_plain (by decide +kernel) (by decide) (by decide) hsent).1⟩

end Sigillum

import Sigillum.AssembledHeader
import Sigillum.RequestChecks

/-! # Requests whose message cannot be assembled

The REST API checks a request before it is charged to the rate limit, and the driver
checks its message again when it is assembled.  What the first lets through, the second
should not refuse: by then the only answer left is that the upstream rejected the
message.

The checks of attachments do agree (`writable_of_readContent`), and those of header
values.  Two rules are the driver's alone, that a header name is visible ASCII without a
colon and that an address fits into a line; `assembly_agrees_iff` says that a request
is assembled exactly if it keeps them.
-/
namespace Sigillum
open Runes Bytes HeaderBlock WordEncoder

/-! ## Attachments -/

/-- A media type that was parsed can be formatted again, as `mime.FormatMediaType` says. -/
def Libraries.FormatsParsed (L : Libraries) : Prop :=
  ∀ ct mt params, ct ≠ [] → L.parseMediaType ct = .ok (mt, params) →
    L.formatMediaType mt [] ≠ [] ∧ ∀ charset, L.formatMediaType mt [(lit "charset", charset)] ≠ []

/-- The metadata `writeAttachment` asks for. -/
structure Writable (L : Libraries) (filename contentType contentID : Bytes) : Prop where
  filename : ¬ containsInjectionChars filename = true
  contentType : trimSpace contentType = [] ∨ ∃ t, L.parseMediaType contentType = .ok t
  contentID : contentID = [] ∨ validateContentID L contentID = .ok ()

section Attachments
variable {L : Libraries} {D : Decoders}

theorem exists_writeAttachment {a : Attachment} (hmedia : L.FormatsParsed)
    (h : Writable L a.filename a.contentType a.contentID) : ∃ p, writeAttachment L a = .ok p := by
  have htype : ∃ ct, sanitizeContentType L a.contentType = .ok ct := by
    unfold sanitizeContentType
    split
    · exact ⟨_, rfl⟩
    · rename_i hblank
      obtain ⟨⟨mt, params⟩, hparse⟩ := h.contentType.resolve_left hblank
      have hne : a.contentType ≠ [] := by
        rintro hnil
        exact hblank (by rw [hnil]; rfl)
      obtain ⟨hplain, hcharset⟩ := hmedia _ mt params hne hparse
      rw [hparse]
      dsimp only
      generalize (if (lit "text/").isPrefixOf mt then _ else []) = charset
      by_cases hnil : charset = []
      · rw [if_pos hnil, if_neg hplain]
        exact ⟨_, rfl⟩
      · rw [if_neg hnil, if_neg (hcharset charset)]
        exact ⟨_, rfl⟩
  have hdisposition : ∃ disposition, contentDisposition L a = .ok disposition := by
    unfold contentDisposition
    dsimp only
    split
    · exact ⟨_, rfl⟩
    · rw [if_neg h.filename]
      exact ⟨_, rfl⟩
  have hid : ∀ hdr, ∃ hdr', setContentID L hdr a.contentID = .ok hdr' := by
    intro hdr
    unfold setContentID
    split
    · exact ⟨hdr, rfl⟩
    · rename_i hne
      rw [h.contentID.resolve_left hne]
      exact ⟨_, rfl⟩
  obtain ⟨ct, hct⟩ := htype
  obtain ⟨disposition, hdisp⟩ := hdisposition
  obtain ⟨hdr, hhdr⟩ := hid ((MIMEHeader.empty.set (lit "Content-Type") ct).set
    (lit "Content-Disposition") disposition)
  exact ⟨_, bind_eq_ok.mpr ⟨ct, hct, bind_eq_ok.mpr ⟨disposition, hdisp,
    bind_eq_ok.mpr ⟨hdr, hhdr, rfl⟩⟩⟩⟩

/-- The parts of a message can be written if its attachments can. -/
theorem exists_assembleBody {e : Entropy} {hdr : MIMEHeader} {msg : Message}
    (h : ∀ a ∈ msg.attachments, ∃ p, writeAttachment L a = .ok p) :
    ∃ assembled, assembleBody L e hdr msg = .ok assembled := by
  have hparts : ∀ keep : Attachment → Bool,
      ∃ parts, (msg.attachments.filter keep).mapM (writeAttachment L) = .ok parts := fun keep =>
    exists_mapM_eq_ok_iff.mpr fun a ha => h a (List.mem_filter.mp ha).1
  have hrelated : ∀ html keep,
      ∃ built, buildRelated L e html (msg.attachments.filter keep) = .ok built := by
    intro html keep
    obtain ⟨parts, hok⟩ := hparts keep
    exact ⟨_, bind_eq_ok.mpr ⟨parts, hok, rfl⟩⟩
  have halternative : ∀ keep,
      ∃ built, buildAlternative L e msg.body (msg.attachments.filter keep) = .ok built := by
    intro keep
    have hhtml : ∃ html, htmlPart L e msg.body (msg.attachments.filter keep) = .ok html := by
      unfold htmlPart
      split
      · exact ⟨_, rfl⟩
      · split
        · exact ⟨_, rfl⟩
        · obtain ⟨built, hok⟩ := hrelated msg.body.html keep
          exact ⟨_, bind_eq_ok.mpr ⟨built, hok, rfl⟩⟩
    obtain ⟨html, hok⟩ := hhtml
    exact ⟨_, bind_eq_ok.mpr ⟨html, hok, rfl⟩⟩
  unfold assembleBody
  dsimp only
  split
  · split
    · exact ⟨_, rfl⟩
    · unfold writeAlternative
      split
      · obtain ⟨built, hok⟩ := halternative _
        exact ⟨_, bind_eq_ok.mpr ⟨built, hok, rfl⟩⟩
      · split
        · obtain ⟨built, hok⟩ := hrelated msg.body.html _
          exact ⟨_, bind_eq_ok.mpr ⟨built, hok, rfl⟩⟩
        · split
          · exact ⟨_, rfl⟩
          · exact ⟨_, rfl⟩
  · have hfirst : ∀ keep, ∃ first,
        bodyPart L e msg.body (msg.attachments.filter keep) = .ok first := by
      intro keep
      unfold bodyPart
      split
      · obtain ⟨built, hok⟩ := halternative keep
        exact ⟨_, bind_eq_ok.mpr ⟨built, hok, rfl⟩⟩
      · exact ⟨_, rfl⟩
    obtain ⟨first, hfirst⟩ := hfirst _
    obtain ⟨parts, hok⟩ := hparts _
    exact ⟨_, bind_eq_ok.mpr ⟨first, hfirst, bind_eq_ok.mpr ⟨parts, hok, rfl⟩⟩⟩

theorem validateAttachmentMeta_eq_ok {a : RequestAttachment}
    (h : validateAttachmentMeta L a = .ok ()) :
    Writable L a.filename a.contentType a.contentID := by
  unfold validateAttachmentMeta at h
  split at h
  · cases h
  · rename_i hfilename
    split at h
    · cases h
    · split at h
      · cases h
      · obtain ⟨⟨⟩, htype, h⟩ := bind_eq_ok.mp h
        refine ⟨hfilename, ?_, ?_⟩
        · unfold validateMediaType at htype
          split at htype
          · exact .inl (by assumption)
          · split at htype
            · cases htype
            · exact .inr ⟨_, by assumption⟩
        · split at h
          · cases h
          · unfold validateInlineID at h
            split at h
            · exact .inl (by assumption)
            · split at h
              · cases h
              · exact .inr h

theorem validateAttachments_eq_ok {ε : Type} {fail : Nat → Err → ε} {i : Nat}
    {as : List RequestAttachment} (h : validateAttachments L fail i as = .ok ()) :
    ∀ a ∈ as, Writable L a.filename a.contentType a.contentID := by
  induction as generalizing i with
  | nil => nofun
  | cons a as ih =>
    rw [validateAttachments] at h
    split at h
    · cases h
    · rename_i hmeta
      exact List.forall_mem_cons.mpr ⟨validateAttachmentMeta_eq_ok hmeta, ih h⟩

/-- Decoding an attachment leaves its metadata. -/
theorem decodeAttachmentsFrom_eq_ok {i : Nat} {as : List RequestAttachment} {atts : List Attachment}
    (h : decodeAttachmentsFrom L D i as = .ok atts) : ∀ att ∈ atts, ∃ a ∈ as,
      att.filename = a.filename ∧ att.contentType = a.contentType ∧
        att.contentID = a.contentID := by
  induction as generalizing i atts with
  | nil =>
    obtain rfl := Except.ok.inj h
    nofun
  | cons a as ih =>
    rw [decodeAttachmentsFrom] at h
    split at h
    · cases h
    · obtain ⟨rest, hrest, h⟩ := bind_eq_ok.mp h
      obtain rfl := Except.ok.inj h
      refine List.forall_mem_cons.mpr ⟨⟨a, List.mem_cons_self, rfl, rfl, rfl⟩, fun att hatt => ?_⟩
      obtain ⟨a', ha', hsame⟩ := ih hrest att hatt
      exact ⟨a', List.mem_cons_of_mem _ ha', hsame⟩

/-- All attachments can be written. -/
def AllWritable (L : Libraries) (atts : List Attachment) : Prop :=
  ∀ a ∈ atts, Writable L a.filename a.contentType a.contentID

theorem allWritable_decoded {ε : Type} {fail : Nat → Err → ε} {as : List RequestAttachment}
    {atts : List Attachment} (hvalid : validateAttachments L fail 0 as = .ok ())
    (h : decodeAttachments L D as = .ok atts) : AllWritable L atts := by
  intro att hatt
  obtain ⟨a, ha, hfilename, htype, hid⟩ := decodeAttachmentsFrom_eq_ok h att hatt
  rw [hfilename, htype, hid]
  exact validateAttachments_eq_ok hvalid a ha

theorem applyContentID_writable {parts parts' : List (Bytes × Attachment)} {entry : Bytes × Bytes}
    (hparts : AllWritable L (parts.map Prod.snd)) (h : applyContentID L parts entry = .ok parts') :
    AllWritable L (parts'.map Prod.snd) := by
  unfold applyContentID at h
  dsimp only at h
  split at h
  · cases h
  · split at h
    · cases h
    · split at h
      · cases h
      · rename_i hvalid
        obtain rfl := Except.ok.inj h
        intro att hatt
        obtain ⟨p, hp, rfl⟩ := List.mem_map.mp hatt
        obtain ⟨q, hq, rfl⟩ := List.mem_map.mp hp
        have hwritable := hparts q.2 (List.mem_map_of_mem hq)
        split
        · exact ⟨hwritable.filename, hwritable.contentType, .inr hvalid⟩
        · exact hwritable
  · cases h

theorem readPart_writable {maxBytes : Nat} {f f' : Form} {p : FormPart}
    (hparts : AllWritable L (f.parts.map Prod.snd)) (h : readPart L D maxBytes f p = .ok f') :
    AllWritable L (f'.parts.map Prod.snd) := by
  unfold readPart at h
  split at h
  · cases h
  · dsimp only at h
    split at h
    · split at h
      · cases h
      · split at h
        · cases h
        · obtain rfl := Except.ok.inj h
          exact hparts
    · obtain ⟨filename, -, h⟩ := bind_eq_ok.mp h
      split at h
      · cases h
      · rename_i hmeta
        obtain rfl := Except.ok.inj h
        rw [List.map_append, List.map_singleton]
        exact List.forall_mem_append.mpr
          ⟨hparts, List.forall_mem_singleton.mpr (validateAttachmentMeta_eq_ok hmeta)⟩

theorem dataPart_eq_ok {α : Type} {x : Except Err α} {a : α} (h : dataPart x = .ok a) :
    x = .ok a := by
  cases x with
  | error err => cases h
  | ok b => exact congrArg Except.ok (Except.ok.inj h)

/-- **Attachments of accepted requests can be written**, however they came. -/
theorem writable_of_readContent {content : Content} {req : Payload} {atts : List Attachment}
    (h : readContent L D content = .ok (req, atts)) : AllWritable L atts := by
  cases content with
  | json body =>
    rw [readContent, parseJSONMessage] at h
    split at h
    · cases h
    · obtain ⟨req', -, h⟩ := bind_eq_ok.mp h
      obtain ⟨⟨⟩, hvalid, h⟩ := bind_eq_ok.mp h
      split at h
      · cases h
      · obtain ⟨atts', hdecode, h⟩ := bind_eq_ok.mp h
        obtain ⟨rfl, rfl⟩ := Prod.mk.inj (Except.ok.inj h)
        exact allWritable_decoded hvalid (problem_eq_ok hdecode)
  | form parts =>
    rw [readContent] at h
    split at h
    · cases h
    · cases h
    · rename_i read hread
      obtain rfl := Except.ok.inj h
      obtain ⟨f, hparts, hread⟩ := bind_eq_ok.mp hread
      obtain ⟨applied, happlied, hread⟩ := bind_eq_ok.mp hread
      obtain ⟨⟨⟩, hvalid, hread⟩ := bind_eq_ok.mp hread
      obtain ⟨inlined, hdecode, hread⟩ := bind_eq_ok.mp hread
      obtain ⟨rfl, rfl⟩ := Prod.mk.inj (Except.ok.inj hread)
      have hfiles : AllWritable L (f.parts.map Prod.snd) :=
        foldlM_keeps (fun f p f' => readPart_writable) (by nofun) hparts
      have happlied : AllWritable L (applied.map Prod.snd) :=
        foldlM_keeps (fun ps entry ps' => applyContentID_writable) hfiles (dataPart_eq_ok happlied)
      exact List.forall_mem_append.mpr
        ⟨allWritable_decoded hvalid (dataPart_eq_ok hdecode), happlied⟩

end Attachments

/-! ## Header lines -/

/-- The time is formatted in 31 characters, and a boundary is made of 16 random bytes. -/
structure Entropy.Sized (e : Entropy) : Prop where
  date : e.date.length ≤ 31
  mixed : e.mixed.length ≤ 16
  alternative : e.alternative.length ≤ 16
  related : e.related.length ≤ 16

/-- What the driver asks for and the API does not: names of visible ASCII without a colon,
and addresses that fit into the lines of their fields. -/
structure Relayable (L : Libraries) (msg : Message) : Prop where
  names : ∀ kv ∈ msg.headers, isReservedHeader L kv.1 = false → IsName kv.1
  fromAddr : addressesFit 992 [msg.fromAddr] = true
  toAddrs : addressesFit 994 msg.toAddrs = true
  cc : addressesFit 994 msg.cc = true

section Lines
variable {L : Libraries} {e : Entropy} {msg : Message} {hdr : MIMEHeader}

theorem fits_addresses_iff {key : Bytes} {room : Nat} {addrs : List Address} (hkey : Unbroken key)
    (hlen : key.length + 2 + room = maxHeaderLine) (hroom : maxFoldableToken ≤ room)
    (h : ∀ a ∈ addrs, ∃ localPart domain, IsMailbox a.address localPart domain) :
    longestLine (foldHeaderLine key (formatAddressList addrs)) ≤ maxHeaderLine ↔
      addressesFit room addrs = true := by
  rw [longestLine_foldHeaderLine_le_iff hkey (unbroken_formatAddressList h) hlen]
  exact fitsFrom_formatAddressList h hroom (by omega)

theorem fits_from_iff (hmsg : msg.WellAddressed) :
    longestLine (foldHeaderLine (lit "From") (formatAddress msg.fromAddr)) ≤ maxHeaderLine ↔
      addressesFit 992 [msg.fromAddr] = true := by
  have hlist : formatAddressList [msg.fromAddr] = formatAddress msg.fromAddr :=
    List.intercalate_singleton
  rw [← hlist]
  exact fits_addresses_iff (by decide) (by decide) (by decide)
    (List.forall_mem_singleton.mpr hmsg.fromAddr)

theorem length_boundary_le {random start : Bytes} (h : random.length ≤ 16)
    (hstart : start.length ≤ 100) :
    longestToken (start ++ generateBoundary random ++ lit "\"") ≤ maxFoldableToken := by
  have hmax : maxFoldableToken = 971 := by decide
  have hlit : (lit "sigillum-").length = 9 ∧ (lit "\"").length = 1 := by decide
  have hlen := length_encode_le rawURLEncoding random
  refine (longestToken_le_length _).trans ?_
  rw [generateBoundary, List.length_append, List.length_append, List.length_append, hlit.1, hlit.2]
  omega

/-- The fields that describe the body can be folded. -/
theorem fits_fields (he : e.Sized) (kind : BodyKind) : ∀ f ∈ kind.fields e,
    longestLine (foldHeaderLine (canonicalKey f.1) f.2) ≤ maxHeaderLine := by
  have hkeys : ∀ k ∈ contentNames,
      Unbroken k ∧ k.length + 2 + maxFoldableToken ≤ maxHeaderLine := by
    decide
  have htokens : ∀ f ∈ kind.fields e, longestToken f.2 ≤ maxFoldableToken := by
    cases kind with
    | empty =>
      rw [BodyKind.fields]
      decide
    | text =>
      rw [BodyKind.fields]
      decide
    | html =>
      rw [BodyKind.fields]
      decide
    | mixed => exact List.forall_mem_singleton.mpr (length_boundary_le he.mixed (by decide))
    | alternative =>
      exact List.forall_mem_singleton.mpr (length_boundary_le he.alternative (by decide))
    | related => exact List.forall_mem_singleton.mpr (length_boundary_le he.related (by decide))
  intro f hf
  obtain ⟨hname, hvalue⟩ := forall_fields e kind f hf
  obtain ⟨hkey, hlen⟩ := hkeys _ hname
  have htoken := htokens f hf
  exact fits_of_longestToken hkey hvalue (by omega)

/-- A field with a list of addresses, which is set if there are any. -/
theorem fits_optional_iff {key : Bytes} {addrs : List Address}
    (hkey : Unbroken (canonicalKey key) ∧ (canonicalKey key).length + 2 + 994 = maxHeaderLine)
    (h : ∀ a ∈ addrs, ∃ localPart domain, IsMailbox a.address localPart domain) :
    (∀ f ∈ (if 0 < addrs.length then [(key, formatAddressList addrs)] else []),
        longestLine (foldHeaderLine (canonicalKey f.1) f.2) ≤ maxHeaderLine) ↔
      addressesFit 994 addrs = true := by
  cases addrs with
  | nil => exact iff_of_true nofun rfl
  | cons a addrs =>
    have hpos : 0 < (a :: addrs).length := Nat.succ_pos addrs.length
    rw [if_pos hpos, List.forall_mem_singleton]
    exact fits_addresses_iff hkey.1 hkey.2 (by decide) h

/-- The managed fields can be folded exactly if the addresses fit. -/
theorem fits_managedFields_iff (he : e.Sized) {messageID : Bytes} (hid : Unbroken messageID)
    (hlen : messageID.length ≤ 900) (hmsg : msg.WellAddressed) :
    (∀ f ∈ managedFields e messageID msg,
        longestLine (foldHeaderLine (canonicalKey f.1) f.2) ≤ maxHeaderLine) ↔
      addressesFit 992 [msg.fromAddr] = true ∧ addressesFit 994 msg.toAddrs = true ∧
        addressesFit 994 msg.cc = true := by
  have hmax : maxFoldableToken = 971 := by decide
  have hkeys : ∀ k ∈ [lit "Date", lit "Message-ID", lit "Subject", lit "MIME-Version"],
      Unbroken (canonicalKey k) ∧
        (canonicalKey k).length + 2 + maxFoldableToken ≤ maxHeaderLine := by
    decide
  have hfits : ∀ k ∈ [lit "Date", lit "Message-ID", lit "Subject", lit "MIME-Version"], ∀ v,
      Unbroken v → longestToken v ≤ maxFoldableToken →
        longestLine (foldHeaderLine (canonicalKey k) v) ≤ maxHeaderLine := fun k hk v hv hle =>
    fits_of_longestToken (hkeys k hk).1 hv (by have := (hkeys k hk).2; omega)
  have hdate := hfits (lit "Date") (by simp) e.date (unbroken_of_isText e.date_text)
    ((longestToken_le_length _).trans (by have := he.date; omega))
  have hmessageID := hfits (lit "Message-ID") (by simp) messageID hid
    ((longestToken_le_length _).trans (by omega))
  have hversion := hfits (lit "MIME-Version") (by simp) (lit "1.0") (by decide) (by decide)
  have hsubject : ∀ f ∈ (if msg.subject = [] then []
      else [(lit "Subject", subjectField msg.subject)]),
      longestLine (foldHeaderLine (canonicalKey f.1) f.2) ≤ maxHeaderLine := by
    split
    · exact List.forall_mem_nil _
    · exact List.forall_mem_singleton.mpr (hfits (lit "Subject") (by simp) _
        (unbroken_subjectField msg.subject) (longestToken_subjectField msg.subject))
  have hfrom : canonicalKey (lit "From") = lit "From" := by decide
  unfold managedFields
  rw [List.forall_mem_append, List.forall_mem_append, List.forall_mem_append,
    List.forall_mem_append, fits_optional_iff (by decide) hmsg.toAddrs,
    fits_optional_iff (by decide) hmsg.cc, List.forall_mem_cons, List.forall_mem_cons,
    List.forall_mem_singleton, List.forall_mem_singleton, ← fits_from_iff hmsg, hfrom]
  constructor
  · rintro ⟨⟨⟨⟨⟨-, -, hfrom⟩, hto⟩, hcc⟩, -⟩, -⟩
    exact ⟨hfrom, hto, hcc⟩
  · rintro ⟨hfrom, hto, hcc⟩
    exact ⟨⟨⟨⟨⟨hdate, hmessageID, hfrom⟩, hto⟩, hcc⟩, hsubject⟩, hversion⟩

/-- **Which headers can be folded**: the caller's, and those whose addresses fit. -/
theorem Headed.foldable_iff (h : Headed L e msg hdr) (he : e.Sized) (hid : Unbroken msg.messageID)
    (hlen : msg.messageID.length ≤ 900) (hmsg : msg.WellAddressed)
    (hnames : ∀ kv ∈ msg.headers, isReservedHeader L kv.1 = false → IsName kv.1)
    (hlines : ∀ kv ∈ msg.headers, ¬ containsInjectionChars kv.2 = true ∧
      kv.1.length + 2 + kv.2.length ≤ maxHeaderLine) :
    Foldable hdr ↔ addressesFit 992 [msg.fromAddr] = true ∧
      addressesFit 994 msg.toAddrs = true ∧ addressesFit 994 msg.cc = true := by
  rw [← fits_managedFields_iff he hid hlen hmsg]
  constructor
  · exact fun hfold f hf => hfold _ (h.managed f hf)
  · intro hmanaged f hf
    rcases h.cases f hf with ⟨f', hf', rfl⟩ | ⟨kind, f', hf', rfl⟩ | ⟨kv, hkv, hfree, rfl⟩
    · exact hmanaged f' hf'
    · exact fits_fields he kind f' hf'
    · obtain ⟨hvalue, hline⟩ := hlines kv hkv
      have hkey := (isName_canonicalKey (hnames kv hkv hfree)).unbroken
      have htoken := longestToken_le_length kv.2
      refine fits_of_longestToken hkey (unbroken_of_not_injection hvalue) ?_
      rw [length_canonicalKey]
      exact (Nat.add_le_add_left htoken _).trans hline

/-- What holds of the message of an accepted request. -/
structure Checked (L : Libraries) (msg : Message) : Prop where
  well : msg.WellAddressed
  recipients : msg.toAddrs.length + msg.cc.length + msg.bcc.length ≠ 0
  messageID : msg.messageID ≠ [] ∧ Unbroken msg.messageID ∧ msg.messageID.length ≤ 900
  headers : ∀ kv ∈ msg.headers, ¬ containsInjectionChars kv.2 = true ∧
    kv.1.length + 2 + kv.2.length ≤ maxHeaderLine
  attachments : AllWritable L msg.attachments

theorem Checked.assembles_iff (h : Checked L msg) (hmedia : L.FormatsParsed) (he : e.Sized)
    (heloDomain : Bytes) :
    (∃ out, assembleMessage L e msg heloDomain = .ok out) ↔ Relayable L msg := by
  obtain ⟨hne, hid, hlen⟩ := h.messageID
  have hfrom : msg.fromAddr.address ≠ [] := by
    obtain ⟨localPart, domain, hmailbox⟩ := h.well.fromAddr
    rw [hmailbox.eq]
    simp
  have hvalues : ∀ kv ∈ msg.headers, ¬ containsInjectionChars kv.2 = true := fun kv hkv =>
    (h.headers kv hkv).1
  constructor
  · rintro ⟨⟨out, id⟩, hout⟩
    obtain ⟨-, -, custom, hdr, body, hstages, -, -⟩ := (assembleMessage_eq_ok_iff hne).mp hout
    have hnames := (exists_foldlM_setCustom_iff hvalues).mp ⟨custom, hstages.headers⟩
    have hheaded := headed_of_assembleBody hstages.headers hstages.described
    obtain ⟨hfits, hto, hcc⟩ :=
      (hheaded.foldable_iff he hid hlen h.well hnames h.headers).mp hstages.foldable
    exact ⟨hnames, hfits, hto, hcc⟩
  · intro hrelayable
    have hattachments : ∀ a ∈ msg.attachments, ∃ p, writeAttachment L a = .ok p := fun a ha =>
      exists_writeAttachment hmedia (h.attachments a ha)
    obtain ⟨custom, hcustom⟩ := (exists_foldlM_setCustom_iff hvalues).mpr hrelayable.names
    obtain ⟨⟨hdr, body⟩, hbody⟩ := exists_assembleBody hattachments
    have hheaded : Headed L e msg hdr := headed_of_assembleBody hcustom hbody
    have hfold := (hheaded.foldable_iff he hid hlen h.well hrelayable.names h.headers).mpr
      ⟨hrelayable.fromAddr, hrelayable.toAddrs, hrelayable.cc⟩
    exact ⟨_, (assembleMessage_eq_ok_iff hne).mpr
      ⟨hfrom, h.recipients, custom, hdr, body, ⟨hcustom, hbody, hfold⟩, rfl, rfl⟩⟩

end Lines

/-- **Which accepted requests are assembled.**  A request that passes all checks of the API
is assembled, whatever the order its headers are set in, exactly if the names of its
headers are valid and its addresses fit into lines. -/
theorem assembly_agrees_iff (L : Libraries) (D : Decoders) (e : Entropy) (subject : Subject)
    (msgID heloDomain : Bytes) (content : Content) (r : Request) (sent : List (Bytes × Bytes))
    (hmedia : L.FormatsParsed) (he : e.Sized) (hid : Unbroken msgID) (hlen : msgID.length = 36)
    (h : handleSendMessage L D subject msgID content = .ok r)
    (hsent : sent.Perm r.message.headers) :
    (∃ out, assembleMessage L e { r.message with headers := sent } heloDomain = .ok out) ↔
      Relayable L r.message := by
  obtain ⟨req, atts, haccepts⟩ := handleSendMessage_eq_ok h
  obtain ⟨hwell, hmessageID, -, -⟩ := requestMessage_eq_ok haccepts.message
  have hconveys := requestMessage_conveys haccepts.message
  have hlit : (lit "<").length = 1 ∧ (lit "@sigillum.local>").length = 16 := by decide
  have hlength : r.message.messageID.length = 53 := by
    rw [hmessageID, List.length_append, List.length_append, hlit.1, hlit.2, hlen]
  have hunbroken : Unbroken r.message.messageID := by
    rw [hmessageID, unbroken_append, unbroken_append]
    exact ⟨⟨by decide, hid⟩, by decide⟩
  have hchecked : Checked L { r.message with headers := sent } :=
    { well := ⟨hwell.fromAddr, hwell.toAddrs, hwell.cc⟩
      recipients := by
        have hsome := hconveys.recipients
        rwa [Message.recipients, List.length_map, List.length_append, List.length_append] at hsome
      messageID := ⟨List.ne_nil_of_length_pos (hlength ▸ by decide), hunbroken, hlength ▸ by decide⟩
      headers := fun kv hkv =>
        validateHeadersFrom_lines haccepts.headers kv (hconveys.headers ▸ hsent.mem_iff.mp hkv)
      attachments := hconveys.attachments ▸ writable_of_readContent haccepts.read }
  rw [hchecked.assembles_iff hmedia he]
  -- the order of the headers does not matter
  constructor
  · intro hr
    exact ⟨fun kv hkv => hr.names kv (hsent.mem_iff.mpr hkv), hr.fromAddr, hr.toAddrs, hr.cc⟩
  · intro hr
    exact ⟨fun kv hkv => hr.names kv (hsent.mem_iff.mp hkv), hr.fromAddr, hr.toAddrs, hr.cc⟩

/-! Requests that differ in the name of a header. -/

def namedPayload (name : Bytes) : Payload := ⟨sampleRequest [(name, lit "1")], [], []⟩

/-- The body of such a request. -/
def namedJSON (name : Bytes) : Bytes :=
  lit "\x7b\"from\":\"app@billing.example\",\"to\":[\"a@x.example\"]," ++
    lit "\"body\":\x7b\"text\":\"text\"\x7d,\"headers\":\x7b\"" ++ name ++ lit "\":\"1\"\x7d\x7d"

def sampleID : Bytes := lit "0b26c7a1-9d5e-4f0a-8c3b-2f6d1e7a9c54"

def namedRequest (name : Bytes) : Request where
  identity := ⟨lit "billing", lit "app", .oauthBearer, [], [], false⟩
  transport := .rest
  messageID := sampleID
  message := { sampleMessage [(name, lit "1")] with
    messageID := lit "<" ++ sampleID ++ lit "@sigillum.local>" }
  raw := none
  envelopeFrom := []
  sender := []
  replyTo := []
  sizeBytes := 5 + name.length

/-- Decoders for such a request. -/
def namedDecoders (name : Bytes) : Decoders := sampleDecoders (namedJSON name) (namedPayload name)

theorem formatsParsed_plain : Libraries.plain.FormatsParsed := by
  intro ct mt params hne hparse
  obtain ⟨rfl, -⟩ := parseMediaType_plain hparse
  simp [Libraries.plain, hne]

/-- A valid name is assembled. -/
theorem assembly_agrees_iff_named :
    ∃ out,
      assembleMessage .plain sampleEntropy (namedRequest (lit "X-Tag")).message [] = .ok out := by
  have haccepted : handleSendMessage .plain (namedDecoders (lit "X-Tag"))
      ⟨lit "billing", lit "app"⟩ sampleID (.json (namedJSON (lit "X-Tag"))) =
        .ok (namedRequest (lit "X-Tag")) := by
    decide +kernel
  have hnames : ∀ kv ∈ [(lit "X-Tag", lit "1")], kv.1 ≠ [] ∧
      ∀ c ∈ kv.1, (33 ≤ c ∧ c ≤ 126) ∧ c ≠ 58 := by decide
  exact (assembly_agrees_iff .plain _ sampleEntropy _ sampleID [] _ (namedRequest (lit "X-Tag"))
    (namedRequest (lit "X-Tag")).message.headers formatsParsed_plain
    ⟨by decide, by decide, by decide, by decide⟩ (by decide) (by decide) haccepted (.refl _)).mpr
    ⟨fun kv hkv _ => hnames kv hkv, by decide, by decide, by decide⟩

/-- A name with a space passes all checks, and the driver refuses it. -/
theorem spaced_name_refused :
    handleSendMessage .plain (namedDecoders (lit "X Tag")) ⟨lit "billing", lit "app"⟩ sampleID
        (.json (namedJSON (lit "X Tag"))) = .ok (namedRequest (lit "X Tag")) ∧
      assembleMessage .plain sampleEntropy (namedRequest (lit "X Tag")).message [] =
        .error (.new (lit "header key \"X Tag\" contains invalid character")) := by
  decide +kernel

end Sigillum

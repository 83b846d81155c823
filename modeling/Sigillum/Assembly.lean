import Sigillum.Driver
import Sigillum.HeaderFields

/-! # Assembled messages

`AssembleMessage` in `internal/driver/smtp/mime.go`: the message a driver sends for
what the REST API was given.  What it takes from the clock and the random source is
an argument, `Entropy`.

Its header has the fields that the function manages itself, and the caller's under
names it does not manage.
-/
namespace Sigillum
open Runes Bytes HeaderBlock WordEncoder

/-- What the assembly takes from the clock and the random source. -/
structure Entropy where
  /-- The time, as `time.RFC1123Z` formats it. -/
  date : Bytes
  /-- The random bytes of a message ID. -/
  messageID : Bytes
  /-- The random bytes of the boundary of each kind of multipart body. -/
  mixed : Bytes
  alternative : Bytes
  related : Bytes
  date_text : ∀ c ∈ date, isText c = true

/-- `generateBoundary`. -/
def generateBoundary (random : Bytes) : Bytes := lit "sigillum-" ++ rawURLEncoding.encode random

/-- `generateMessageID`. -/
def generateMessageID (random domain : Bytes) : Bytes :=
  lit "<" ++ rawURLEncoding.encode random ++ lit "@" ++
    (if domain = [] then lit "sigillum.local" else domain) ++ lit ">"

/-! ## Transfer encodings -/

/-- `writeQuotedPrintable`, at column `col`. -/
def quotedPrintableFrom (col : Nat) : Bytes → Bytes
  | [] => []
  | c :: s =>
    if c = 10 then lit "\r\n" ++ quotedPrintableFrom 0 s
    else if c = 13 then quotedPrintableFrom col s
    else
      let encoded := if c = 61 ∨ c < 32 ∨ 126 < c then 61 :: hexByte c else [c]
      if 75 < col + encoded.length then
        lit "=\r\n" ++ encoded ++ quotedPrintableFrom encoded.length s
      else encoded ++ quotedPrintableFrom (col + encoded.length) s

def writeQuotedPrintable (s : Bytes) : Bytes := quotedPrintableFrom 0 s

/-- The loop of `lineBreakWriter.Write`, at column `col`. -/
def lineBreakFrom (col : Nat) (p : Bytes) : Bytes :=
  if p = [] then []
  else
    let full := 76 ≤ col
    let room := if full then 76 else 76 - col
    (if full then lit "\r\n" else []) ++ p.take room ++
      lineBreakFrom ((if full then 0 else col) + (p.take room).length) (p.drop room)
termination_by p.length
decreasing_by
  have hpos := List.length_pos_iff.mpr ‹p ≠ []›
  rw [List.length_drop]
  split <;> omega

/-- `lineBreakWriter.Write`.  The writer is passed by value, so that the column a write
leaves off at is not kept for the next one. -/
def lineBreakWrite (p : Bytes) : Bytes := lineBreakFrom 0 p

/-- What `base64.NewEncoder` writes for one `Write` and `Close`: up to 1024 characters at
a time, and last what does not fill a quantum. -/
def base64Writes (p : Bytes) : List Bytes :=
  if p.length < 3 then if p = [] then [] else [stdEncoding.encode p]
  else
    let n := if p.length < 768 then p.length - p.length % 3 else 768
    stdEncoding.encode (p.take n) :: base64Writes (p.drop n)
termination_by p.length
decreasing_by
  rw [List.length_drop]
  split <;> omega

/-! ## Parts -/

/-- A part of a multipart body. -/
structure Part where
  header : MIMEHeader
  body : Bytes

/-- `multipart.Writer.CreatePart`, and what is written to the part. -/
def Part.write (boundary : Bytes) (p : Part) : Bytes :=
  lit "--" ++ boundary ++ lit "\r\n" ++
    (p.header.sorted.flatMap fun e => e.1 ++ lit ": " ++ e.2 ++ lit "\r\n") ++ lit "\r\n" ++ p.body

/-- What a `multipart.Writer` has written when it is closed. -/
def multipartBody (boundary : Bytes) (parts : List Part) : Bytes :=
  List.intercalate (lit "\r\n") (parts.map (Part.write boundary)) ++
    lit "\r\n--" ++ boundary ++ lit "--\r\n"

/-- A part of text, of a content type. -/
def quotedPart (contentType s : Bytes) : Part where
  header := (MIMEHeader.empty.set (lit "Content-Type") contentType).set
    (lit "Content-Transfer-Encoding") (lit "quoted-printable")
  body := writeQuotedPrintable s

/-- `containsInjectionChars`. -/
def containsInjectionChars (s : Bytes) : Bool := s.any fun c => c == 13 || c == 10 || c == 0

/-- `isASCII` of file names: printable ASCII. -/
def isASCII (s : Bytes) : Bool := s.all fun c => 32 ≤ c && c ≤ 126

/-- `asciiFilenameFallback`. -/
def asciiFilenameFallback (s : Bytes) : Bytes :=
  (runes s).map fun r => if 32 ≤ r ∧ r ≤ 126 then UInt8.ofNat r else 95

/-- `rfc5987Encode`. -/
def rfc5987Encode (s : Bytes) : Bytes :=
  s.flatMap fun c =>
    if (97 ≤ c ∧ c ≤ 122) ∨ (65 ≤ c ∧ c ≤ 90) ∨ (48 ≤ c ∧ c ≤ 57) ∨
        (lit "!#$&+-.^_`|~").contains c then [c]
    else 37 :: hexByte c

/-- `contentDispositionValue`. -/
def contentDispositionValue (disp filename : Bytes) : Bytes :=
  disp ++ lit "; filename=\"" ++
    ((asciiFilenameFallback filename).flatMap fun c => if c = 92 ∨ c = 34 then [92, c] else [c]) ++
    lit "\"" ++
    (if isASCII filename then [] else lit "; filename*=UTF-8''" ++ rfc5987Encode filename)

/-- `isDotAtom`. -/
def isDotAtom (s : Bytes) : Bool :=
  s != [] && s.head? != some 46 && s.getLast? != some 46 && !decide (lit ".." <:+: s) &&
    s.all fun c => (97 ≤ c && c ≤ 122) || (65 ≤ c && c ≤ 90) || (48 ≤ c && c ≤ 57) || c == 46 ||
      (lit "!#$%&'*+-/=?^_`\x7b|\x7d~").contains c

section Parts
variable (L : Libraries)

/-- `driver.ValidateContentID`. -/
def validateContentID (id : Bytes) : Except Err Unit :=
  if id = [] ∨ 250 < id.length then
    .error (.new (lit "content ID must be 1 to 250 characters"))
  else
    let ok := match cut 64 id with
      | none => false
      | some (left, right) => isDotAtom left && isDotAtom right
    if ok then .ok ()
    else .error (.new (lit "content ID " ++ quote L.unicode id ++
      lit (" must look like id-left@id-right (letters, digits, dots and " ++
        "!#$%&'*+-/=?^_`\x7b|\x7d~), without <>")))

/-- `sanitizeContentType`. -/
def sanitizeContentType (ct : Bytes) : Except Err Bytes :=
  if trimSpace ct = [] then .ok (lit "application/octet-stream")
  else match L.parseMediaType ct with
  | .error err => .error (.wrap (lit "attachment contentType " ++ quote L.unicode ct ++
      lit " is not a valid media type: ") err)
  | .ok (mt, params) =>
    let charset := if (lit "text/").isPrefixOf mt then
      ((params.find? fun p => p.1 == lit "charset").map Prod.snd).getD [] else []
    let out := L.formatMediaType mt (if charset = [] then [] else [(lit "charset", charset)])
    if out = [] then
      .error (.new (lit "attachment contentType " ++ quote L.unicode ct ++
        lit " is not a valid media type"))
    else .ok out

/-- Whether the disposition of an attachment is `inline`. -/
def Attachment.isInline (a : Attachment) : Bool := L.unicode.equalFold a.disposition (lit "inline")

/-- The content disposition of an attachment. -/
def contentDisposition (a : Attachment) : Except Err Bytes :=
  let disp := if a.isInline L then lit "inline" else lit "attachment"
  if a.filename = [] then .ok disp
  else if containsInjectionChars a.filename then
    .error (.new (lit "attachment filename contains CR, LF, or NUL"))
  else .ok (contentDispositionValue disp a.filename)

/-- The content ID of an attachment, if it has one. -/
def setContentID (header : MIMEHeader) (id : Bytes) : Except Err MIMEHeader :=
  if id = [] then .ok header
  else do
    validateContentID L id
    .ok (header.set (lit "Content-ID") (lit "<" ++ id ++ lit ">"))

/-- `writeAttachment`: the part it creates. -/
def writeAttachment (a : Attachment) : Except Err Part := do
  let ct ← sanitizeContentType L a.contentType
  let disposition ← contentDisposition L a
  let header := (MIMEHeader.empty.set (lit "Content-Type") ct).set
    (lit "Content-Disposition") disposition
  let header ← setContentID L header a.contentID
  .ok ⟨header.set (lit "Content-Transfer-Encoding") (lit "base64"),
    (base64Writes a.content).flatMap lineBreakWrite⟩

/-- `buildRelated`: the entity and its content type. -/
def buildRelated (e : Entropy) (html : Bytes) (inlined : List Attachment) :
    Except Err (Bytes × Bytes) := do
  let boundary := generateBoundary e.related
  let parts ← inlined.mapM (writeAttachment L)
  .ok (multipartBody boundary (quotedPart (lit "text/html; charset=utf-8") html :: parts),
    lit "multipart/related; type=\"text/html\"; boundary=\"" ++ boundary ++ lit "\"")

def Body.hasText (b : Body) : Bool := trimSpace b.text != []
def Body.hasHTML (b : Body) : Bool := trimSpace b.html != []

/-- The HTML part of an alternative, if there is one, with what it refers to. -/
def htmlPart (e : Entropy) (b : Body) (related : List Attachment) : Except Err (List Part) :=
  if !b.hasHTML then .ok []
  else if related.length = 0 then .ok [quotedPart (lit "text/html; charset=utf-8") b.html]
  else do
    let (raw, contentType) ← buildRelated L e b.html related
    .ok [⟨MIMEHeader.empty.set (lit "Content-Type") contentType, raw⟩]

/-- `buildAlternative`: the entity and its content type. -/
def buildAlternative (e : Entropy) (b : Body) (related : List Attachment) :
    Except Err (Bytes × Bytes) := do
  let boundary := generateBoundary e.alternative
  let text := if b.hasText then [quotedPart (lit "text/plain; charset=utf-8") b.text] else []
  let html ← htmlPart L e b related
  .ok (multipartBody boundary (text ++ html),
    lit "multipart/alternative; boundary=\"" ++ boundary ++ lit "\"")

/-- `writeAlternative`: the header fields it sets, and the body. -/
def writeAlternative (e : Entropy) (hdr : MIMEHeader) (b : Body) (related : List Attachment) :
    Except Err (MIMEHeader × Bytes) :=
  if b.hasText ∧ b.hasHTML then do
    let (raw, contentType) ← buildAlternative L e b related
    .ok (hdr.set (lit "Content-Type") contentType, raw)
  else if b.hasHTML ∧ 0 < related.length then do
    let (raw, contentType) ← buildRelated L e b.html related
    .ok (hdr.set (lit "Content-Type") contentType, raw)
  else if b.hasHTML then
    .ok ((hdr.set (lit "Content-Type") (lit "text/html; charset=utf-8")).set
      (lit "Content-Transfer-Encoding") (lit "quoted-printable"), writeQuotedPrintable b.html)
  else
    .ok ((hdr.set (lit "Content-Type") (lit "text/plain; charset=utf-8")).set
      (lit "Content-Transfer-Encoding") (lit "quoted-printable"), writeQuotedPrintable b.text)

/-! ## The message -/

/-- The names the assembly manages, in lower case. -/
def reservedHeaders : List Bytes :=
  [lit "from", lit "to", lit "cc", lit "bcc", lit "subject", lit "date", lit "message-id",
    lit "mime-version", lit "content-type", lit "content-transfer-encoding"]

/-- `isReservedHeader`. -/
def isReservedHeader (k : Bytes) : Bool := reservedHeaders.contains (L.unicode.toLower k)

/-- `validateHeaderKey`, for each byte: those of a code point outside ASCII are refused. -/
def validateHeaderKey (k : Bytes) : Except Err Unit :=
  if k = [] then .error (.new (lit "header key must not be empty"))
  else if k.any fun c => c < 33 || 126 < c || c == 58 then
    .error (.new (lit "header key " ++ quote L.unicode k ++ lit " contains invalid character"))
  else .ok ()

/-- The Subject field. -/
def subjectField (subject : Bytes) : Bytes :=
  let encoded := qEncode subject
  if maxFoldableToken < longestToken encoded then forceEncodedWords subject else encoded

/-- The header fields set before the caller's. -/
def managedHeader (e : Entropy) (messageID : Bytes) (msg : Message) : MIMEHeader :=
  let hdr := MIMEHeader.empty.set (lit "Date") e.date
  let hdr := hdr.set (lit "Message-ID") messageID
  let hdr := hdr.set (lit "From") (formatAddress msg.fromAddr)
  let hdr := if 0 < msg.toAddrs.length then
    hdr.set (lit "To") (formatAddressList msg.toAddrs) else hdr
  let hdr := if 0 < msg.cc.length then hdr.set (lit "Cc") (formatAddressList msg.cc) else hdr
  let hdr := if msg.subject = [] then hdr else hdr.set (lit "Subject") (subjectField msg.subject)
  hdr.set (lit "MIME-Version") (lit "1.0")

/-- The loop over the caller's headers, for one of them. -/
def setCustom (hdr : MIMEHeader) (kv : Bytes × Bytes) : Except Err MIMEHeader :=
  if isReservedHeader L kv.1 then .ok hdr
  else do
    validateHeaderKey L kv.1
    if containsInjectionChars kv.2 then
      .error (.new (lit "header " ++ quote L.unicode kv.1 ++ lit " value contains CR, LF, or NUL"))
    else .ok (hdr.set kv.1 kv.2)

/-- The body part of a message with attachments, if there is one. -/
def bodyPart (e : Entropy) (b : Body) (related : List Attachment) : Except Err (List Part) :=
  if b.hasText || b.hasHTML then do
    let (raw, contentType) ← buildAlternative L e b related
    .ok [⟨MIMEHeader.empty.set (lit "Content-Type") contentType, raw⟩]
  else .ok []

/-- The body, and the header with the fields that describe it. -/
def assembleBody (e : Entropy) (hdr : MIMEHeader) (msg : Message) :
    Except Err (MIMEHeader × Bytes) :=
  let isRelated := fun a : Attachment => msg.body.hasHTML && a.contentID != [] && a.isInline L
  let related := msg.attachments.filter isRelated
  let regular := msg.attachments.filter fun a => !isRelated a
  if regular.length = 0 then
    if !msg.body.hasText && !msg.body.hasHTML then
      .ok ((hdr.set (lit "Content-Type") (lit "text/plain; charset=utf-8")).set
        (lit "Content-Transfer-Encoding") (lit "7bit"), [])
    else writeAlternative L e hdr msg.body related
  else do
    let boundary := generateBoundary e.mixed
    let hdr := hdr.set (lit "Content-Type")
      (lit "multipart/mixed; boundary=\"" ++ boundary ++ lit "\"")
    let first ← bodyPart L e msg.body related
    let parts ← regular.mapM (writeAttachment L)
    .ok (hdr, multipartBody boundary (first ++ parts))

/-- A field of the header, folded. -/
def writeField (kv : Bytes × Bytes) : Except Err Bytes :=
  let line := foldHeaderLine kv.1 kv.2
  if maxHeaderLine < longestLine line then
    .error (.new (lit "header " ++ quote L.unicode kv.1 ++
      lit " cannot be folded within the 998-character line limit"))
  else .ok line

/-- `AssembleMessage`: the message and its ID. -/
def assembleMessage (e : Entropy) (msg : Message) (heloDomain : Bytes) :
    Except Err (Bytes × Bytes) :=
  if msg.fromAddr.address = [] then .error (.new (lit "from address required"))
  else if msg.toAddrs.length + msg.cc.length + msg.bcc.length = 0 then
    .error (.new (lit "at least one recipient required"))
  else do
    let messageID := if msg.messageID = [] then generateMessageID e.messageID heloDomain
      else msg.messageID
    let hdr ← msg.headers.foldlM (setCustom L) (managedHeader e messageID msg)
    let (hdr, body) ← assembleBody L e hdr msg
    let lines ← hdr.sorted.mapM (writeField L)
    .ok (lines.flatten ++ lit "\r\n" ++ body, messageID)

end Parts

/-- The fields of the header of an attachment. -/
def attachmentFields (ct disposition id : Bytes) : List (Bytes × Bytes) :=
  [(lit "Content-Type", ct), (lit "Content-Disposition", disposition)] ++
    (if id = [] then [] else [(lit "Content-ID", lit "<" ++ id ++ lit ">")]) ++
    [(lit "Content-Transfer-Encoding", lit "base64")]

/-- What `writeAttachment` writes. -/
theorem writeAttachment_sets {L : Libraries} {a : Attachment} {p : Part}
    (h : writeAttachment L a = .ok p) :
    p.body = (base64Writes a.content).flatMap lineBreakWrite ∧
      ∃ ct disposition, sanitizeContentType L a.contentType = .ok ct ∧
        contentDisposition L a = .ok disposition ∧
        (a.contentID ≠ [] → validateContentID L a.contentID = .ok ()) ∧
        ∀ f, f ∈ p.header.entries ↔ f ∈ (attachmentFields ct disposition a.contentID).map
          fun f => (canonicalKey f.1, f.2) := by
  obtain ⟨ct, hct, h⟩ := bind_eq_ok.mp h
  obtain ⟨disposition, hdisposition, h⟩ := bind_eq_ok.mp h
  obtain ⟨header, hheader, h⟩ := bind_eq_ok.mp h
  obtain rfl := Except.ok.inj h
  have hnodup : ((attachmentFields ct disposition a.contentID).map
      fun f => canonicalKey f.1).Nodup := by
    unfold attachmentFields
    split <;> simp only [List.map_append, List.map_cons, List.map_nil] <;> decide
  have hset : header.set (lit "Content-Transfer-Encoding") (lit "base64") =
      MIMEHeader.empty.setAll (attachmentFields ct disposition a.contentID) ∧
        (a.contentID ≠ [] → validateContentID L a.contentID = .ok ()) := by
    unfold setContentID at hheader
    unfold attachmentFields
    split at hheader
    · rename_i hnil
      obtain rfl := Except.ok.inj hheader
      rw [if_pos hnil]
      exact ⟨rfl, fun hne => absurd hnil hne⟩
    · rename_i hne
      obtain ⟨⟨⟩, hvalid, hheader⟩ := bind_eq_ok.mp hheader
      obtain rfl := Except.ok.inj hheader
      rw [if_neg hne]
      exact ⟨rfl, fun _ => hvalid⟩
  refine ⟨rfl, ct, disposition, hct, hdisposition, hset.2, fun f => ?_⟩
  rw [hset.1, MIMEHeader.mem_setAll hnodup]
  exact or_iff_right fun hempty => absurd hempty.1 List.not_mem_nil

/-- What holds of the fields of an attachment. -/
theorem forall_attachmentFields {ct disposition id : Bytes} {P : Bytes × Bytes → Prop} :
    (∀ f ∈ attachmentFields ct disposition id, P f) ↔
      P (lit "Content-Type", ct) ∧ P (lit "Content-Disposition", disposition) ∧
        (id ≠ [] → P (lit "Content-ID", lit "<" ++ id ++ lit ">")) ∧
        P (lit "Content-Transfer-Encoding", lit "base64") := by
  unfold attachmentFields
  rw [List.forall_mem_append, List.forall_mem_append, List.forall_mem_cons,
    List.forall_mem_singleton, List.forall_mem_singleton, and_assoc, and_assoc]
  refine and_congr_right fun _ => and_congr_right fun _ => and_congr_left fun _ => ?_
  split
  · rename_i hnil
    exact iff_of_true (List.forall_mem_nil _) fun hne => absurd hnil hne
  · rename_i hne
    rw [List.forall_mem_singleton]
    exact ⟨fun hid _ => hid, fun hid => hid hne⟩

/-! ## What the header holds -/

/-- The names of the fields the assembly sets, in canonical form. -/
def managedNames : List Bytes :=
  [lit "Date", lit "Message-Id", lit "From", lit "To", lit "Cc", lit "Subject", lit "Mime-Version",
    lit "Content-Type", lit "Content-Transfer-Encoding"]

/-- The fields that are set before the caller's. -/
def managedFields (e : Entropy) (messageID : Bytes) (msg : Message) : List (Bytes × Bytes) :=
  [(lit "Date", e.date), (lit "Message-ID", messageID), (lit "From", formatAddress msg.fromAddr)] ++
    (if 0 < msg.toAddrs.length then [(lit "To", formatAddressList msg.toAddrs)] else []) ++
    (if 0 < msg.cc.length then [(lit "Cc", formatAddressList msg.cc)] else []) ++
    (if msg.subject = [] then [] else [(lit "Subject", subjectField msg.subject)]) ++
    [(lit "MIME-Version", lit "1.0")]

theorem managedHeader_eq (e : Entropy) (messageID : Bytes) (msg : Message) :
    managedHeader e messageID msg = MIMEHeader.empty.setAll (managedFields e messageID msg) := by
  unfold managedHeader managedFields
  dsimp only
  split <;> split <;> split <;> rfl

theorem nodup_managedFields (e : Entropy) (messageID : Bytes) (msg : Message) :
    ((managedFields e messageID msg).map fun f => canonicalKey f.1).Nodup := by
  unfold managedFields
  split <;> split <;> split <;>
    simp only [List.map_append, List.map_cons, List.map_nil] <;> decide

/-- The kinds of bodies: none, a text, or parts. -/
inductive BodyKind where
  | empty
  | text
  | html
  | mixed
  | alternative
  | related

/-- What is set to describe a body: its content type, and its encoding unless it has parts. -/
def BodyKind.fields (e : Entropy) : BodyKind → List (Bytes × Bytes)
  | empty => [(lit "Content-Type", lit "text/plain; charset=utf-8"),
      (lit "Content-Transfer-Encoding", lit "7bit")]
  | text => [(lit "Content-Type", lit "text/plain; charset=utf-8"),
      (lit "Content-Transfer-Encoding", lit "quoted-printable")]
  | html => [(lit "Content-Type", lit "text/html; charset=utf-8"),
      (lit "Content-Transfer-Encoding", lit "quoted-printable")]
  | mixed => [(lit "Content-Type",
      lit "multipart/mixed; boundary=\"" ++ generateBoundary e.mixed ++ lit "\"")]
  | alternative => [(lit "Content-Type",
      lit "multipart/alternative; boundary=\"" ++ generateBoundary e.alternative ++ lit "\"")]
  | related => [(lit "Content-Type", lit "multipart/related; type=\"text/html\"; boundary=\"" ++
      generateBoundary e.related ++ lit "\"")]

section Header
variable {L : Libraries} {hdr hdr' : MIMEHeader}

theorem unbroken_subjectField (subject : Bytes) : Unbroken (subjectField subject) := by
  unfold subjectField
  dsimp only
  split
  · exact unbroken_forceEncodedWords subject
  · exact unbroken_of_isText (isText_qEncode subject)

/-- The addresses of a message that go into its header are mailboxes. -/
structure Message.WellAddressed (msg : Message) : Prop where
  fromAddr : ∃ localPart domain, IsMailbox msg.fromAddr.address localPart domain
  toAddrs : ∀ a ∈ msg.toAddrs, ∃ localPart domain, IsMailbox a.address localPart domain
  cc : ∀ a ∈ msg.cc, ∃ localPart domain, IsMailbox a.address localPart domain

theorem forall_managedFields (e : Entropy) {messageID : Bytes} {msg : Message}
    (hid : Unbroken messageID) (hmsg : msg.WellAddressed) :
    ∀ f ∈ managedFields e messageID msg, canonicalKey f.1 ∈ managedNames ∧ Unbroken f.2 := by
  obtain ⟨localPart, domain, hfrom⟩ := hmsg.fromAddr
  have hname : ∀ k ∈ [lit "Date", lit "Message-ID", lit "From", lit "To", lit "Cc", lit "Subject",
      lit "MIME-Version"], canonicalKey k ∈ managedNames := by decide
  simp only [List.forall_mem_cons] at hname
  obtain ⟨hdate, hmessageID, hfrom', hto, hcc, hsubject, hversion, -⟩ := hname
  unfold managedFields
  simp only [List.forall_mem_append]
  refine ⟨⟨⟨⟨?_, ?_⟩, ?_⟩, ?_⟩, List.forall_mem_singleton.mpr ⟨hversion, by decide⟩⟩
  · refine List.forall_mem_cons.mpr ⟨⟨hdate, unbroken_of_isText e.date_text⟩, ?_⟩
    refine List.forall_mem_cons.mpr ⟨⟨hmessageID, hid⟩, ?_⟩
    exact List.forall_mem_singleton.mpr ⟨hfrom', (formatAddress_spec hfrom).1⟩
  · split
    · exact List.forall_mem_singleton.mpr ⟨hto, unbroken_formatAddressList hmsg.toAddrs⟩
    · exact List.forall_mem_nil _
  · split
    · exact List.forall_mem_singleton.mpr ⟨hcc, unbroken_formatAddressList hmsg.cc⟩
    · exact List.forall_mem_nil _
  · split
    · exact List.forall_mem_nil _
    · exact List.forall_mem_singleton.mpr ⟨hsubject, unbroken_subjectField msg.subject⟩

/-- The header set first has these fields. -/
theorem mem_managedHeader {e : Entropy} {messageID : Bytes} {msg : Message} {f : Bytes × Bytes} :
    f ∈ (managedHeader e messageID msg).entries ↔
      f ∈ (managedFields e messageID msg).map fun f => (canonicalKey f.1, f.2) := by
  rw [managedHeader_eq, MIMEHeader.mem_setAll (nodup_managedFields e messageID msg)]
  exact or_iff_right fun h => nomatch h.1

theorem validateHeaderKey_eq_ok {k : Bytes} (h : validateHeaderKey L k = .ok ()) : IsName k := by
  unfold validateHeaderKey at h
  split at h
  · cases h
  · rename_i hne
    split at h
    · cases h
    · rename_i hbytes
      refine ⟨hne, fun c hc => ?_⟩
      have hbyte : ¬ (c < 33 || 126 < c || c == 58) = true := fun hbad =>
        hbytes (List.any_eq_true.mpr ⟨c, hc, hbad⟩)
      simp only [Bool.or_eq_true, decide_eq_true_eq, beq_iff_eq, not_or, UInt8.not_lt] at hbyte
      exact hbyte

theorem unbroken_of_not_injection {v : Bytes} (h : ¬ containsInjectionChars v = true) :
    Unbroken v := by
  intro c hc
  have hbyte : ¬ (c == 13 || c == 10 || c == 0) = true := fun hbad =>
    h (List.any_eq_true.mpr ⟨c, hc, hbad⟩)
  simp only [Bool.or_eq_true, beq_iff_eq, not_or] at hbyte
  exact hbyte.1

/-- A header of the caller is dropped, or set if it is valid. -/
theorem setCustom_eq_ok {kv : Bytes × Bytes} (h : setCustom L hdr kv = .ok hdr') :
    (isReservedHeader L kv.1 = true ∧ hdr' = hdr) ∨
      (isReservedHeader L kv.1 = false ∧ IsName kv.1 ∧ Unbroken kv.2 ∧
        hdr' = hdr.set kv.1 kv.2) := by
  unfold setCustom at h
  split at h
  · rename_i hreserved
    exact .inl ⟨hreserved, (Except.ok.inj h).symm⟩
  · rename_i hreserved
    obtain ⟨⟨⟩, hname, h⟩ := bind_eq_ok.mp h
    split at h
    · cases h
    · rename_i hvalue
      exact .inr ⟨Bool.eq_false_iff.mpr hreserved, validateHeaderKey_eq_ok hname,
        unbroken_of_not_injection hvalue, (Except.ok.inj h).symm⟩

/-- What the loop over the caller's headers leaves. -/
structure CustomSet (L : Libraries) (headers : List (Bytes × Bytes)) (hdr hdr' : MIMEHeader) :
    Prop where
  valid : ∀ kv ∈ headers, isReservedHeader L kv.1 = false → IsName kv.1 ∧ Unbroken kv.2
  cases : ∀ e ∈ hdr'.entries, e ∈ hdr.entries ∨
    ∃ kv ∈ headers, isReservedHeader L kv.1 = false ∧ e = (canonicalKey kv.1, kv.2)
  kept : ∀ e ∈ hdr.entries,
    (∀ kv ∈ headers, isReservedHeader L kv.1 = false → e.1 ≠ canonicalKey kv.1) → e ∈ hdr'.entries
  set : (headers.map fun kv => canonicalKey kv.1).Nodup →
    ∀ kv ∈ headers, isReservedHeader L kv.1 = false → (canonicalKey kv.1, kv.2) ∈ hdr'.entries

theorem foldlM_setCustom_eq_ok {headers : List (Bytes × Bytes)}
    (h : headers.foldlM (setCustom L) hdr = .ok hdr') : CustomSet L headers hdr hdr' := by
  induction headers generalizing hdr with
  | nil =>
    obtain rfl := Except.ok.inj h
    exact ⟨nofun, fun e he => .inl he, fun e he _ => he, nofun⟩
  | cons kv headers ih =>
    rw [List.foldlM_cons, bind_eq_ok] at h
    obtain ⟨hdr₁, hstep, hrest⟩ := h
    have hset := ih hrest
    rcases setCustom_eq_ok hstep with ⟨hreserved, rfl⟩ | ⟨hcustom, hname, hvalue, rfl⟩
    · have hskip : ¬ isReservedHeader L kv.1 = false := by simp [hreserved]
      refine ⟨List.forall_mem_cons.mpr ⟨fun hc => absurd hc hskip, hset.valid⟩, fun e he => ?_,
        fun e he hne => hset.kept e he fun kv' hkv' => hne kv' (List.mem_cons_of_mem _ hkv'),
        fun hnodup => List.forall_mem_cons.mpr ⟨fun hc => absurd hc hskip,
          hset.set (List.nodup_cons.mp hnodup).2⟩⟩
      exact (hset.cases e he).imp_right fun ⟨kv', hkv', hc⟩ =>
        ⟨kv', List.mem_cons_of_mem _ hkv', hc⟩
    · refine ⟨List.forall_mem_cons.mpr ⟨fun _ => ⟨hname, hvalue⟩, hset.valid⟩, fun e he => ?_,
        fun e he hne => ?_, fun hnodup => List.forall_mem_cons.mpr ⟨fun _ => ?_, ?_⟩⟩
      · rcases hset.cases e he with he | ⟨kv', hkv', hc⟩
        · rcases MIMEHeader.mem_set.mp he with ⟨he, -⟩ | rfl
          · exact .inl he
          · exact .inr ⟨kv, List.mem_cons_self, hcustom, rfl⟩
        · exact .inr ⟨kv', List.mem_cons_of_mem _ hkv', hc⟩
      · refine hset.kept e ?_ fun kv' hkv' => hne kv' (List.mem_cons_of_mem _ hkv')
        exact MIMEHeader.mem_set.mpr (.inl ⟨he, hne kv List.mem_cons_self hcustom⟩)
      · -- later headers have other names
        refine hset.kept _ (MIMEHeader.mem_set.mpr (.inr rfl)) fun kv' hkv' _ heq => ?_
        exact (List.nodup_cons.mp hnodup).1 (List.mem_map.mpr ⟨kv', hkv', heq.symm⟩)
      · exact hset.set (List.nodup_cons.mp hnodup).2

/-- The fields that describe the body. -/
def contentNames : List Bytes := [lit "Content-Type", lit "Content-Transfer-Encoding"]

/-- A content type with a boundary is text of one line. -/
theorem unbroken_boundary {start : Bytes} (hstart : Unbroken start) (random : Bytes) :
    Unbroken (start ++ generateBoundary random ++ lit "\"") := by
  have hrandom : Unbroken (rawURLEncoding.encode random) :=
    unbroken_of_isText (Encoding.isText_encode (by decide) (by decide) random)
  rw [generateBoundary, unbroken_append, unbroken_append, unbroken_append]
  exact ⟨⟨hstart, by decide, hrandom⟩, by decide⟩

theorem writeAlternative_sets {e : Entropy} {b : Body} {related : List Attachment} {raw : Bytes}
    (h : writeAlternative L e hdr b related = .ok (hdr', raw)) :
    ∃ kind : BodyKind, hdr' = hdr.setAll (kind.fields e) := by
  unfold writeAlternative at h
  split at h
  · obtain ⟨⟨raw', contentType⟩, hbuild, h⟩ := bind_eq_ok.mp h
    obtain ⟨html, -, hbuild⟩ := bind_eq_ok.mp hbuild
    obtain ⟨-, rfl⟩ := Prod.mk.inj (Except.ok.inj hbuild)
    exact ⟨.alternative, (Prod.mk.inj (Except.ok.inj h)).1.symm⟩
  · split at h
    · obtain ⟨⟨raw', contentType⟩, hbuild, h⟩ := bind_eq_ok.mp h
      obtain ⟨parts, -, hbuild⟩ := bind_eq_ok.mp hbuild
      obtain ⟨-, rfl⟩ := Prod.mk.inj (Except.ok.inj hbuild)
      exact ⟨.related, (Prod.mk.inj (Except.ok.inj h)).1.symm⟩
    · split at h
      · exact ⟨.html, (Prod.mk.inj (Except.ok.inj h)).1.symm⟩
      · exact ⟨.text, (Prod.mk.inj (Except.ok.inj h)).1.symm⟩

/-- What the assembly of the body sets in the header. -/
theorem assembleBody_sets {e : Entropy} {msg : Message} {body : Bytes}
    (h : assembleBody L e hdr msg = .ok (hdr', body)) :
    ∃ kind : BodyKind, hdr' = hdr.setAll (kind.fields e) := by
  unfold assembleBody at h
  dsimp only at h
  split at h
  · split at h
    · exact ⟨.empty, (Prod.mk.inj (Except.ok.inj h)).1.symm⟩
    · exact writeAlternative_sets h
  · obtain ⟨first, -, h⟩ := bind_eq_ok.mp h
    obtain ⟨parts, -, h⟩ := bind_eq_ok.mp h
    exact ⟨.mixed, (Prod.mk.inj (Except.ok.inj h)).1.symm⟩

theorem nodup_fields (e : Entropy) (kind : BodyKind) :
    ((kind.fields e).map fun f => canonicalKey f.1).Nodup := by
  cases kind <;> simp only [BodyKind.fields, List.map_cons, List.map_nil] <;> decide

/-- The fields that describe a body are of one line. -/
theorem forall_fields (e : Entropy) (kind : BodyKind) :
    ∀ f ∈ kind.fields e, canonicalKey f.1 ∈ contentNames ∧ Unbroken f.2 := by
  have htype : canonicalKey (lit "Content-Type") ∈ contentNames := by decide
  cases kind with
  | empty =>
    rw [BodyKind.fields]
    decide
  | text =>
    rw [BodyKind.fields]
    decide
  | html =>
    rw [BodyKind.fields]
    decide
  | mixed => exact List.forall_mem_singleton.mpr ⟨htype, unbroken_boundary (by decide) _⟩
  | alternative => exact List.forall_mem_singleton.mpr ⟨htype, unbroken_boundary (by decide) _⟩
  | related => exact List.forall_mem_singleton.mpr ⟨htype, unbroken_boundary (by decide) _⟩

/-- Of the header it is given, a body keeps the fields that do not describe it. -/
theorem mem_of_assembleBody {e : Entropy} {msg : Message} {body : Bytes} {f : Bytes × Bytes}
    (h : assembleBody L e hdr msg = .ok (hdr', body)) (hf : f ∈ hdr.entries)
    (hname : f.1 ∉ contentNames) : f ∈ hdr'.entries := by
  obtain ⟨kind, rfl⟩ := assembleBody_sets h
  refine (MIMEHeader.mem_setAll (nodup_fields e kind)).mpr (.inl ⟨hf, fun hmem => hname ?_⟩)
  obtain ⟨f', hf', heq⟩ := List.mem_map.mp hmem
  exact heq ▸ (forall_fields e kind f' hf').1

theorem mapM_writeField_eq_ok {es : List (Bytes × Bytes)} {lines : List Bytes}
    (h : es.mapM (writeField L) = .ok lines) :
    lines = es.map fun e => foldHeaderLine e.1 e.2 := by
  induction es generalizing lines with
  | nil => exact (Except.ok.inj h).symm
  | cons e es ih =>
    rw [List.mapM_cons, bind_eq_ok] at h
    obtain ⟨line, hline, h⟩ := h
    obtain ⟨rest, hrest, h⟩ := bind_eq_ok.mp h
    unfold writeField at hline
    dsimp only at hline
    split at hline
    · cases hline
    · rw [← Except.ok.inj h, ← Except.ok.inj hline, ih hrest, List.map_cons]

/-- A name whose canonical form is ASCII is lower-cased as such. -/
theorem toLower_of_canonicalKey {k : Bytes} (h : ∀ c ∈ canonicalKey k, c < 0x80) :
    L.unicode.toLower k = asciiLower (canonicalKey k) := by
  have hlower : asciiLower k = asciiLower (canonicalKey k) := (asciiLower_canonicalKey k).symm
  have hk : ∀ c ∈ k, c < 0x80 := by
    intro c hc
    have hmem : lowerByte c ∈ asciiLower (canonicalKey k) := hlower ▸ List.mem_map_of_mem hc
    obtain ⟨d, hd, heq⟩ := List.mem_map.mp hmem
    have hlt := h d hd
    unfold lowerByte at heq
    grind
  rw [Unicode.toLower_of_ascii hk, hlower]

/-- A name the caller may use is none of the managed ones, in any case. -/
theorem not_managed_of_not_reserved {k : Bytes} (h : isReservedHeader L k = false) :
    canonicalKey k ∉ managedNames := by
  intro hmanaged
  have hname : ∀ n ∈ managedNames, asciiLower n ∈ reservedHeaders ∧ ∀ c ∈ n, c < 0x80 := by decide
  obtain ⟨hreserved, hascii⟩ := hname _ hmanaged
  rw [isReservedHeader, toLower_of_canonicalKey hascii, List.contains_iff_mem.mpr hreserved] at h
  cases h

end Header

end Sigillum

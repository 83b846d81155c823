import Mathlib.Algebra.BigOperators.Group.List.Basic
import Mathlib.Algebra.GroupWithZero.Nat
import Sigillum.Gateway
import Sigillum.Requests

/-! # Accepted requests

The rest of `handleSendMessage` in `internal/apiserver/messages.go`: how the body of a
request is read, as JSON or as a form, what is checked of its attachments, and the
request that is handed to the gateway.  Decoding JSON and Base64 is a parameter, and so
is cutting a form into its parts.

The gateway compares `estimateSize` with the size limit of a policy.  It counts some
strings that are not relayed and does not count some that are; `size_covered_iff` says
when it is still an upper bound.
-/
namespace Sigillum
open Runes Bytes WordEncoder

/-! ## The body -/

/-- `requestAttachment`. -/
structure RequestAttachment where
  filename : Bytes
  contentType : Bytes
  disposition : Bytes
  contentID : Bytes
  contentBase64 : Bytes
  deriving DecidableEq, Repr

/-- `requestBody`.  The map of content IDs is given by its entries. -/
structure Payload extends RequestBody where
  attachments : List RequestAttachment
  contentIDs : List (Bytes × Bytes)
  deriving DecidableEq, Repr

/-- What is not given is empty. -/
def Payload.empty : Payload := ⟨⟨[], [], [], [], [], ⟨[], []⟩, []⟩, [], []⟩

/-- A part of a `multipart/form-data` body: what its header says, and its content. -/
structure FormPart where
  formName : Bytes
  fileName : Bytes
  contentType : Bytes
  contentID : Bytes
  content : Bytes
  deriving DecidableEq, Repr

/-- The body of a request, by its media type. -/
inductive Content where
  | json (body : Bytes)
  | form (parts : List FormPart)
  deriving DecidableEq, Repr

/-- The decoders of the standard library. -/
structure Decoders where
  /-- `decodeRequestJSON`. -/
  decodeRequestJSON : Bytes → Except Err Payload
  /-- `base64.StdEncoding.DecodeString`. -/
  decodeBase64 : Bytes → Except Err Bytes

/-- `firstBidiOrFormatControl`, or `0`. -/
def firstBidiOrFormatControl (s : Bytes) : Nat :=
  ((runes s).find? fun r => decide ((0x202A ≤ r ∧ r ≤ 0x202E) ∨ (0x2066 ≤ r ∧ r ≤ 0x2069) ∨
    r = 0x200E ∨ r = 0x200F)).getD 0

/-- The verb `%04X`, below 65536. -/
def hexWord (r : Nat) : Bytes :=
  [upperHex (r / 4096), upperHex (r / 256 % 16), upperHex (r / 16 % 16), upperHex (r % 16)]

/-- The fields of a request, in lower case. -/
def requestFields : List Bytes :=
  [lit "from", lit "to", lit "cc", lit "bcc", lit "subject", lit "body", lit "attachments",
    lit "headers", lit "contentids"]

/-- `misplacedFields`. -/
def misplacedFields : List (Bytes × Bytes) :=
  [(lit "text", lit "body.text"), (lit "html", lit "body.html"),
    (lit "replyto", lit "headers[\"Reply-To\"]"), (lit "reply_to", lit "headers[\"Reply-To\"]"),
    (lit "sender", lit "headers[\"Sender\"]")]

section Reading
variable (L : Libraries) (D : Decoders)

/-- The content type of an attachment has to be a media type, if it is given. -/
def validateMediaType (contentType : Bytes) : Except Err Unit :=
  if trimSpace contentType = [] then .ok ()
  else match L.parseMediaType contentType with
  | .error err => .error (.wrap (lit "contentType " ++ quote L.unicode contentType ++
      lit " is not a valid media type: ") err)
  | .ok _ => .ok ()

/-- A content ID has to be valid, and its part inline. -/
def validateInlineID (disposition contentID : Bytes) : Except Err Unit :=
  if contentID = [] then .ok ()
  else if !L.unicode.equalFold disposition (lit "inline") then
    .error (.new (lit "contentId " ++ quote L.unicode contentID ++
      lit " needs disposition \"inline\""))
  else validateContentID L contentID

/-- `validateAttachmentMeta`. -/
def validateAttachmentMeta (a : RequestAttachment) : Except Err Unit :=
  if containsInjectionChars a.filename then
    .error (.new (lit "filename " ++ quote L.unicode a.filename ++ lit " contains CR, LF, or NUL"))
  else if firstBidiOrFormatControl a.filename ≠ 0 then
    .error (.new (lit "filename " ++ quote L.unicode a.filename ++
      lit " contains the Unicode control U+" ++ hexWord (firstBidiOrFormatControl a.filename)))
  else if containsInjectionChars a.contentType then
    .error (.new (lit "contentType " ++ quote L.unicode a.contentType ++
      lit " contains CR, LF, or NUL"))
  else do
    validateMediaType L a.contentType
    if a.disposition ≠ [] ∧ ¬ L.unicode.equalFold a.disposition (lit "attachment") ∧
        ¬ L.unicode.equalFold a.disposition (lit "inline") then
      .error (.new (lit "disposition " ++ quote L.unicode a.disposition ++
        lit " must be \"attachment\" or \"inline\""))
    else validateInlineID L a.disposition a.contentID

/-- The loop over the attachments of a payload, from the `i`-th; an error is made of the
index and what is wrong. -/
def validateAttachments {ε : Type} (fail : Nat → Err → ε) (i : Nat) :
    List RequestAttachment → Except ε Unit
  | [] => .ok ()
  | a :: as =>
    match validateAttachmentMeta L a with
    | .error err => .error (fail i err)
    | .ok () => validateAttachments fail (i + 1) as

/-- The loop of `decodeAttachments`, from the `i`-th. -/
def decodeAttachmentsFrom (i : Nat) : List RequestAttachment → Except Err (List Attachment)
  | [] => .ok []
  | a :: as =>
    match D.decodeBase64 a.contentBase64 with
    | .error err => .error (.wrap (lit "attachment[" ++ lit (toString i) ++ lit "] " ++
        quote L.unicode a.filename ++ lit ": ") err)
    | .ok raw => do
      let rest ← decodeAttachmentsFrom (i + 1) as
      .ok (⟨a.filename, a.contentType, a.disposition, a.contentID, raw⟩ :: rest)

/-- `decodeAttachments`. -/
def decodeAttachments (as : List RequestAttachment) : Except Err (List Attachment) :=
  decodeAttachmentsFrom L D 0 as

/-- `applyContentIDs`, for the part of one name.  Attachments go with their form names. -/
def applyContentID (parts : List (Bytes × Attachment)) (entry : Bytes × Bytes) :
    Except Err (List (Bytes × Attachment)) :=
  let (n, id) := entry
  match parts.filter fun p => p.1 == n with
  | [] => .error (.new (lit "contentIds: no file part is named " ++ quote L.unicode n))
  | [(_, a)] =>
    if a.contentID ≠ [] then
      .error (.new (lit "contentIds: part " ++ quote L.unicode n ++
        lit " already has a Content-ID header"))
    else match validateContentID L id with
    | .error err => .error (.wrap (lit "contentIds[" ++ quote L.unicode n ++ lit "]: ") err)
    | .ok () => .ok (parts.map fun p =>
        if p.1 == n then (p.1, { p.2 with contentID := id, disposition := lit "inline" }) else p)
  | _ => .error (.new (lit "contentIds: more than one file part is named " ++ quote L.unicode n))

/-- `applyContentIDs`: the names in order. -/
def applyContentIDs (ids : List (Bytes × Bytes)) (parts : List (Bytes × Attachment)) :
    Except Err (List (Bytes × Attachment)) :=
  (ids.insertionSort fun a b => a.1 ≤ b.1).foldlM (applyContentID L) parts

/-- What is read of a form so far. -/
structure Form where
  req : Payload
  parts : List (Bytes × Attachment)
  total : Nat
  seenData : Bool

/-- The errors of `parseMultipartMessage`; `errBodyTooLarge` is answered on its own. -/
inductive FormError where
  | tooLarge
  | malformed (err : Err)
  deriving DecidableEq, Repr

/-- The name a part is attached under: one without a file name must not be named like a
field of the message. -/
def attachedName (p : FormPart) : Except FormError Bytes :=
  if p.fileName ≠ [] then .ok p.fileName
  else
    let lower := L.unicode.toLower p.formName
    match misplacedFields.find? fun f => f.1 == lower with
    | some f => .error (.malformed (.new (lit "form field " ++ quote L.unicode p.formName ++
        lit " is not a file; did you mean " ++ f.2 ++ lit " in the data part?")))
    | none =>
      if requestFields.contains lower then
        .error (.malformed (.new (lit "form field " ++ quote L.unicode p.formName ++
          lit " is not a file; it belongs in the data part")))
      else .ok p.formName

/-- The metadata of a part that is attached.  A Content-ID header makes it inline. -/
def partMeta (p : FormPart) (filename : Bytes) : RequestAttachment where
  filename := filename
  contentType := if p.contentType = [] then lit "application/octet-stream" else p.contentType
  disposition := if p.contentID = [] then [] else lit "inline"
  contentID :=
    let id := if (lit "<").isPrefixOf p.contentID then p.contentID.drop 1 else p.contentID
    if (lit ">").isSuffixOf id then id.dropLast else id
  contentBase64 := []

/-- The loop of `parseMultipartMessage`, for one part. -/
def readPart (maxBytes : Nat) (f : Form) (p : FormPart) : Except FormError Form :=
  if maxBytes < f.total + p.content.length then .error .tooLarge
  else
    let f := { f with total := f.total + p.content.length }
    if p.formName = lit "data" then
      if f.seenData then .error (.malformed (.new (lit "more than one data part")))
      else match D.decodeRequestJSON p.content with
      | .error err => .error (.malformed (.wrap (lit "data part: ") err))
      | .ok req => .ok { f with req := req, seenData := true }
    else do
      let filename ← attachedName L p
      let att := partMeta p filename
      match validateAttachmentMeta L att with
      | .error err =>
        .error (.malformed (.wrap (lit "part " ++ quote L.unicode p.formName ++ lit ": ") err))
      | .ok () =>
        let added : Attachment :=
          ⟨filename, att.contentType, att.disposition, att.contentID, p.content⟩
        .ok { f with parts := f.parts ++ [(p.formName, added)] }

/-- An error about the data part. -/
def dataPart {α : Type} : Except Err α → Except FormError α
  | .error err => .error (.malformed (.wrap (lit "data part: ") err))
  | .ok a => .ok a

/-- `parseMultipartMessage`. -/
def parseMultipartMessage (maxBytes : Nat) (parts : List FormPart) :
    Except FormError (Payload × List Attachment) := do
  let f ← parts.foldlM (readPart L D maxBytes) ⟨.empty, [], 0, false⟩
  let atts ← dataPart (applyContentIDs L f.req.contentIDs f.parts)
  validateAttachments L
    (fun i err => .malformed
      (.wrap (lit "data part: attachment[" ++ lit (toString i) ++ lit "]: ") err))
    0 f.req.attachments
  let inlined ← dataPart (decodeAttachments L D f.req.attachments)
  .ok (f.req, inlined ++ atts.map Prod.snd)

/-- `maxBody`: 32 MiB. -/
def maxBody : Nat := 32 * 1024 * 1024

def bodyTooLarge : Problem :=
  ⟨lit "Request body exceeds 32MiB ceiling", lit "use a smaller message or split attachments"⟩

/-- A JSON request. -/
def parseJSONMessage (body : Bytes) : Except Problem (Payload × List Attachment) :=
  if maxBody < body.length then .error bodyTooLarge
  else do
    let req ← problem (lit "Malformed JSON payload") (D.decodeRequestJSON body)
    validateAttachments L
      (fun i err => ⟨lit "Invalid attachment[" ++ lit (toString i) ++ lit "]", err.text⟩)
      0 req.attachments
    if 0 < req.contentIDs.length then
      .error ⟨lit "Malformed JSON payload", lit ("contentIds names multipart file parts; " ++
        "in a JSON request, set contentId on the attachment")⟩
    else
      let atts ← problem (lit "Invalid attachment") (decodeAttachments L D req.attachments)
      .ok (req, atts)

/-- The payload and the attachments of a request. -/
def readContent : Content → Except Problem (Payload × List Attachment)
  | .json body => parseJSONMessage L D body
  | .form parts =>
    match parseMultipartMessage L D maxBody parts with
    | .error .tooLarge => .error bodyTooLarge
    | .error (.malformed err) => .error ⟨lit "Failed to parse multipart body", err.text⟩
    | .ok read => .ok read

/-! ## The request -/

/-- The loop of `uniqueContentIDs`; `seen` are the IDs so far, in lower case. -/
def uniqueContentIDsFrom (seen : List Bytes) : List Attachment → Except Err Unit
  | [] => .ok ()
  | a :: as =>
    if a.contentID = [] then uniqueContentIDsFrom seen as
    else if L.unicode.toLower a.contentID ∈ seen then
      .error (.new (lit "content ID " ++ quote L.unicode a.contentID ++
        lit " is used by more than one attachment"))
    else uniqueContentIDsFrom (L.unicode.toLower a.contentID :: seen) as

/-- `uniqueContentIDs`. -/
def uniqueContentIDs (atts : List Attachment) : Except Err Unit := uniqueContentIDsFrom L [] atts

/-- `hasContent`. -/
def hasContent (body : Body) (atts : List Attachment) : Bool :=
  body.hasText || body.hasHTML || atts.any fun a => 0 < a.content.length

/-- `estimateSize`. -/
def estimateSize (req : RequestBody) (atts : List Attachment) : Int :=
  req.subject.length + ((req.headers.map fun kv => kv.1.length + kv.2.length).sum : Nat) +
    req.body.text.length + req.body.html.length + ((atts.map fun a => a.content.length).sum : Nat)

/-- `subject`: the authenticated caller. -/
structure Subject where
  ns : Bytes
  serviceAccount : Bytes
  deriving DecidableEq, Repr

/-- `handleSendMessage`, for an authenticated caller and a body that could be read: the
request it hands to the gateway, or the problem it answers with. -/
def handleSendMessage (subject : Subject) (msgID : Bytes) (content : Content) :
    Except Problem Request := do
  let (req, atts) ← readContent L D content
  problem (lit "Invalid attachment") (uniqueContentIDs L atts)
  let msg ← requestMessage L msgID req.toRequestBody atts
  problem (lit "Invalid header") (validateRequestHeaders L req.headers)
  let (sender, replyTo) ← problem (lit "Invalid header") (addressHeaders L req.headers)
  if !hasContent req.body atts then
    .error ⟨lit "Message has no content",
      lit "set body.text or body.html, or add a non-empty attachment"⟩
  else
    .ok
      { identity := ⟨subject.ns, subject.serviceAccount, .oauthBearer, [], [], false⟩
        transport := .rest
        messageID := msgID
        message := msg
        raw := none
        envelopeFrom := []
        sender := sender
        replyTo := replyTo
        sizeBytes := estimateSize req.toRequestBody atts }

end Reading

/-! ## What an accepted request has passed -/

section Accepted
variable {L : Libraries} {D : Decoders}

/-- What `handleSendMessage` has checked, and what it hands on. -/
structure Accepts (L : Libraries) (D : Decoders) (msgID : Bytes) (content : Content)
    (req : Payload) (atts : List Attachment) (r : Request) : Prop where
  read : readContent L D content = .ok (req, atts)
  ids : uniqueContentIDs L atts = .ok ()
  message : requestMessage L msgID req.toRequestBody atts = .ok r.message
  headers : validateRequestHeaders L req.headers = .ok ()
  addresses : addressHeaders L req.headers = .ok (r.sender, r.replyTo)
  content : hasContent req.body atts = true
  size : r.sizeBytes = estimateSize req.toRequestBody atts

theorem handleSendMessage_eq_ok {subject : Subject} {msgID : Bytes} {content : Content}
    {r : Request}
    (h : handleSendMessage L D subject msgID content = .ok r) :
    ∃ req atts, Accepts L D msgID content req atts r := by
  obtain ⟨⟨req, atts⟩, hread, h⟩ := bind_eq_ok.mp h
  obtain ⟨⟨⟩, hids, h⟩ := bind_eq_ok.mp h
  obtain ⟨msg, hmsg, h⟩ := bind_eq_ok.mp h
  obtain ⟨⟨⟩, hheaders, h⟩ := bind_eq_ok.mp h
  obtain ⟨⟨sender, replyTo⟩, haddresses, h⟩ := bind_eq_ok.mp h
  dsimp only at h
  split at h
  · cases h
  · rename_i hcontent
    obtain rfl := Except.ok.inj h
    exact ⟨req, atts, hread, problem_eq_ok hids, hmsg, problem_eq_ok hheaders,
      problem_eq_ok haddresses, by simpa using hcontent, rfl⟩

/-- What of the request is in its message as it is. -/
structure Conveys (req : RequestBody) (atts : List Attachment) (msg : Message) : Prop where
  subject : msg.subject = req.subject
  body : msg.body = req.body
  attachments : msg.attachments = atts
  headers : msg.headers = req.headers
  recipients : msg.recipients.length ≠ 0

theorem requestMessage_conveys {msgID : Bytes} {req : RequestBody} {atts : List Attachment}
    {msg : Message} (h : requestMessage L msgID req atts = .ok msg) : Conveys req atts msg := by
  obtain ⟨fromAddr, -, h⟩ := bind_eq_ok.mp h
  obtain ⟨toAddrs, -, h⟩ := bind_eq_ok.mp h
  obtain ⟨cc, -, h⟩ := bind_eq_ok.mp h
  obtain ⟨bcc, -, h⟩ := bind_eq_ok.mp h
  dsimp only at h
  split at h
  · cases h
  · rename_i hrecipients
    obtain rfl := Except.ok.inj h
    exact ⟨rfl, rfl, rfl, rfl, hrecipients⟩

end Accepted

/-! ## The size of a request -/

/-- The total length of some strings. -/
def totalLength (strings : List Bytes) : Nat := (strings.map List.length).sum

@[simp] theorem totalLength_nil : totalLength [] = 0 := rfl

@[simp] theorem totalLength_cons (s : Bytes) (strings : List Bytes) :
    totalLength (s :: strings) = s.length + totalLength strings := by
  simp [totalLength]

@[simp] theorem totalLength_append (strings more : List Bytes) :
    totalLength (strings ++ more) = totalLength strings + totalLength more := by
  simp [totalLength]

section Size
variable (L : Libraries)

/-- The keys and the values of headers. -/
def headerStrings (headers : List (Bytes × Bytes)) : List Bytes :=
  headers.flatMap fun kv => [kv.1, kv.2]

/-- The texts of a body that are relayed: those that are not blank. -/
def Body.relayed (b : Body) : List Bytes :=
  (if b.hasText then [b.text] else []) ++ (if b.hasHTML then [b.html] else [])

/-- Those that are not. -/
def Body.dropped (b : Body) : List Bytes :=
  (if b.hasText then [] else [b.text]) ++ (if b.hasHTML then [] else [b.html])

/-- The names a message shows: file names, and the display names of From, To and Cc. -/
def Message.names (msg : Message) : List Bytes :=
  msg.attachments.map (·.filename) ++ msg.fromAddr.name :: (msg.toAddrs ++ msg.cc).map (·.name)

/-- The strings of the caller that `assembleMessage` writes, as they are before they are
encoded. -/
def Message.relayed (msg : Message) : List Bytes :=
  msg.subject :: headerStrings (msg.headers.filter fun kv => !isReservedHeader L kv.1) ++
    msg.body.relayed ++ msg.attachments.map (·.content) ++ msg.names

/-- Those it leaves out: headers under names it manages, and blank texts. -/
def Message.dropped (msg : Message) : List Bytes :=
  headerStrings (msg.headers.filter fun kv => isReservedHeader L kv.1) ++ msg.body.dropped

variable {L}

theorem totalLength_headerStrings (headers : List (Bytes × Bytes)) :
    totalLength (headerStrings headers) =
      (headers.map fun kv => kv.1.length + kv.2.length).sum := by
  induction headers with
  | nil => rfl
  | cons kv headers ih =>
    simp only [headerStrings, List.flatMap_cons, totalLength_append, totalLength_cons,
      totalLength_nil, List.map_cons, List.sum_cons] at ih ⊢
    omega

/-- A header is relayed or left out. -/
theorem totalLength_filter (headers : List (Bytes × Bytes)) (p : Bytes × Bytes → Bool) :
    totalLength (headerStrings (headers.filter fun kv => !p kv)) +
        totalLength (headerStrings (headers.filter p)) =
      totalLength (headerStrings headers) := by
  induction headers with
  | nil => rfl
  | cons kv headers ih =>
    simp only [headerStrings] at ih ⊢
    cases hp : p kv with
    | true =>
      simp only [List.filter_cons, hp, Bool.not_true, Bool.false_eq_true, if_false, if_true,
        List.flatMap_cons, totalLength_append]
      omega
    | false =>
      simp only [List.filter_cons, hp, Bool.not_false, Bool.false_eq_true, if_false, if_true,
        List.flatMap_cons, totalLength_append]
      omega

theorem totalLength_body (b : Body) :
    totalLength b.relayed + totalLength b.dropped = b.text.length + b.html.length := by
  unfold Body.relayed Body.dropped
  cases b.hasText <;> cases b.hasHTML <;> simp [Nat.add_comm]

/-- **What is estimated and what is relayed.**  The estimate has what is left out in
addition, and lacks the names. -/
theorem estimateSize_add_names {msgID : Bytes} {req : RequestBody} {atts : List Attachment}
    {msg : Message} (h : requestMessage L msgID req atts = .ok msg) :
    estimateSize req atts + totalLength msg.names =
      totalLength (msg.relayed L) + totalLength (msg.dropped L) := by
  obtain ⟨hsubject, hbody, hatts, hheaders, -⟩ := requestMessage_conveys h
  have hsplit := totalLength_filter req.headers fun kv => isReservedHeader L kv.1
  have htexts := totalLength_body req.body
  have hcontents : totalLength (atts.map (·.content)) =
      (atts.map fun a => a.content.length).sum := by
    simp [totalLength, Function.comp_def]
  rw [totalLength_headerStrings req.headers] at hsplit
  unfold estimateSize Message.relayed Message.dropped
  rw [hsubject, hheaders, hbody, hatts]
  simp only [totalLength_append, totalLength_cons, hcontents]
  omega

/-- **What the size limit covers.**  The size that is compared with the limit is at least
that of the strings that are relayed exactly if the names are no longer than what is left
out. -/
theorem size_covered_iff (L : Libraries) (D : Decoders) (subject : Subject) (msgID : Bytes)
    (content : Content) (r : Request) (h : handleSendMessage L D subject msgID content = .ok r) :
    totalLength (r.message.relayed L) ≤ r.sizeBytes ↔
      totalLength r.message.names ≤ totalLength (r.message.dropped L) := by
  obtain ⟨req, atts, haccepts⟩ := handleSendMessage_eq_ok h
  have hsize := estimateSize_add_names haccepts.message
  rw [haccepts.size]
  omega

end Size

/-! A request with nothing but an attachment, of one byte. -/

def namedAttachment (filename : Bytes) : RequestAttachment where
  filename := filename
  contentType := []
  disposition := []
  contentID := []
  contentBase64 := lit "eA=="

def attachmentPayload (filename : Bytes) : Payload where
  fromAddr := lit "app@billing.example"
  toAddrs := [lit "a@x.example"]
  cc := []
  bcc := []
  subject := []
  body := ⟨[], lit " "⟩
  headers := []
  attachments := [namedAttachment filename]
  contentIDs := []

/-- The body of such a request. -/
def attachmentJSON (filename : Bytes) : Bytes :=
  lit "\x7b\"from\":\"app@billing.example\",\"to\":[\"a@x.example\"]," ++
    lit "\"body\":\x7b\"html\":\" \"\x7d," ++
    lit "\"attachments\":[\x7b\"filename\":\"" ++ filename ++
    lit "\",\"contentBase64\":\"eA==\"\x7d]\x7d"

/-- Decoders for one body. -/
def sampleDecoders (json : Bytes) (payload : Payload) : Decoders where
  decodeRequestJSON body :=
    if body = json then .ok payload else .error (.new (lit "unexpected end of JSON input"))
  decodeBase64 s :=
    if s = lit "eA==" then .ok (lit "x")
    else .error (.new (lit "illegal base64 data at input byte 0"))

def attachmentMessage (filename : Bytes) : Message where
  messageID := lit "<1f@sigillum.local>"
  fromAddr := ⟨[], lit "app@billing.example"⟩
  toAddrs := [⟨[], lit "a@x.example"⟩]
  cc := []
  bcc := []
  subject := []
  body := ⟨[], lit " "⟩
  attachments := [⟨filename, [], [], [], lit "x"⟩]
  headers := []

def attachmentRequest (filename : Bytes) : Request where
  identity := ⟨lit "billing", lit "app", .oauthBearer, [], [], false⟩
  transport := .rest
  messageID := lit "1f"
  message := attachmentMessage filename
  raw := none
  envelopeFrom := []
  sender := []
  replyTo := []
  sizeBytes := 2

/-- A file name of one byte is made up for by the blank HTML. -/
theorem size_covered_iff_short :
    totalLength ((attachmentMessage (lit "a")).relayed .plain) ≤
      (attachmentRequest (lit "a")).sizeBytes := by
  have haccepted : handleSendMessage .plain
      (sampleDecoders (attachmentJSON (lit "a")) (attachmentPayload (lit "a")))
      ⟨lit "billing", lit "app"⟩ (lit "1f") (.json (attachmentJSON (lit "a"))) =
        .ok (attachmentRequest (lit "a")) := by
    decide +kernel
  exact (size_covered_iff .plain _ _ _ _ _ haccepted).mpr (by decide +kernel)

/-- A file name that is data. -/
def dataName : Bytes := lit "account=4711;pin=0815;iban=DE02120300000000202051"

/-- It is relayed and not counted. -/
theorem dataName_escapes :
    handleSendMessage .plain (sampleDecoders (attachmentJSON dataName) (attachmentPayload dataName))
        ⟨lit "billing", lit "app"⟩ (lit "1f") (.json (attachmentJSON dataName)) =
          .ok (attachmentRequest dataName) ∧
      ((assembleMessage .plain sampleEntropy (attachmentMessage dataName) []).toOption.any
        fun sent => decide (dataName <:+: sent.1)) = true ∧
      (attachmentRequest dataName).sizeBytes = 2 ∧
      totalLength ((attachmentMessage dataName).relayed .plain) = 50 := by
  decide +kernel

end Sigillum
